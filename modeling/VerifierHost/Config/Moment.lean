import VerifierHost.Decimal.Shortest

/-!
Dates and times of day, with or without an offset from universal time. They have two texts: the one
people write, and a detailed one that names the parts, used inside lists and tables.
-/

namespace VerifierHost

structure Date where
  year : Nat
  month : Nat
  day : Nat
  deriving DecidableEq, Repr

structure TimeOfDay where
  hour : Nat
  minute : Nat
  second : Nat
  micros : Nat
  deriving DecidableEq, Repr

inductive Moment where
  | date (d : Date)
  | time (t : TimeOfDay)
  /-- A date and a time; the offset from universal time is in minutes. -/
  | both (d : Date) (t : TimeOfDay) (offset : Option Int)
  deriving DecidableEq, Repr

/-- A number with at least so many digits. -/
def digitsOf (width n : Nat) : String := String.ofList (Decimal.padLeft width (Nat.toDigits 10 n))

def isLeapYear (year : Nat) : Bool := year % 4 = 0 && (year % 100 ≠ 0 || year % 400 = 0)

def daysInMonth (year month : Nat) : Nat :=
  if month = 2 then (if isLeapYear year then 29 else 28)
  else if [4, 6, 9, 11].contains month then 30
  else 31

/-- Whether the calendar has the date; it starts with the year one. -/
def Date.isValid (d : Date) : Bool :=
  1 ≤ d.year && 1 ≤ d.month && d.month ≤ 12 && 1 ≤ d.day && d.day ≤ daysInMonth d.year d.month

def Date.text (d : Date) : String :=
  digitsOf 4 d.year ++ "-" ++ digitsOf 2 d.month ++ "-" ++ digitsOf 2 d.day

/-- Parts of a second are written only where there are some. -/
def TimeOfDay.text (t : TimeOfDay) : String :=
  digitsOf 2 t.hour ++ ":" ++ digitsOf 2 t.minute ++ ":" ++ digitsOf 2 t.second ++
    if t.micros = 0 then "" else "." ++ digitsOf 6 t.micros

def offsetText (minutes : Int) : String :=
  (if minutes < 0 then "-" else "+") ++ digitsOf 2 (minutes.natAbs / 60) ++ ":" ++
    digitsOf 2 (minutes.natAbs % 60)

def Moment.text : Moment → String
  | .date d => d.text
  | .time t => t.text
  | .both d t none => d.text ++ " " ++ t.text
  | .both d t (some offset) => d.text ++ " " ++ t.text ++ offsetText offset

/-- The parts of a date. -/
def Date.parts (d : Date) : List Nat := [d.year, d.month, d.day]

/-- The parts of a time without the seconds if they are zero. -/
def TimeOfDay.parts (t : TimeOfDay) : List Nat :=
  if t.micros ≠ 0 then [t.hour, t.minute, t.second, t.micros]
  else if t.second ≠ 0 then [t.hour, t.minute, t.second]
  else [t.hour, t.minute]

/-- An offset in detail; a negative one counts seconds from the day before. -/
def offsetDetail (minutes : Int) : String :=
  if minutes = 0 then "datetime.timezone.utc"
  else
    let seconds := minutes * 60
    let delta :=
      if seconds < 0 then "days=-1, seconds=" ++ toString (seconds + 86400)
      else "seconds=" ++ toString seconds
    "datetime.timezone(datetime.timedelta(" ++ delta ++ "))"

def inDetail (kind : String) (parts : List String) : String :=
  "datetime." ++ kind ++ "(" ++ ", ".intercalate parts ++ ")"

/-- The text that names the parts. -/
def Moment.detail : Moment → String
  | .date d => inDetail "date" (d.parts.map toString)
  | .time t => inDetail "time" (t.parts.map toString)
  | .both d t offset =>
    inDetail "datetime" ((d.parts ++ t.parts).map toString ++
      (offset.map fun minutes => "tzinfo=" ++ offsetDetail minutes).toList)

end VerifierHost
