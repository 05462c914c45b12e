import VerifierHost.Decimal.Binary

/-!
The shortest decimal that reads back as a given double, and its layout. Every number of digits from
one to seventeen is tried: a decimal grid has a point that reads back exactly when one of the two
neighbours of the double on that grid does, so two exact comparisons settle each grid.
-/

namespace VerifierHost.Decimal

/-- The digits and the power of ten of a decimal `digits * 10 ^ exponent`. -/
structure Scientific where
  digits : Nat
  exponent : Int
  deriving DecidableEq, Repr

/--
The numbers that read as the double `mantissa * 2 ^ exponent`, given in quarters of its last place:
below a power of two the doubles lie twice as close. The ends belong to it iff the mantissa is even.
-/
structure Interval where
  low : Nat
  high : Nat
  exponent : Int
  closed : Bool
  deriving DecidableEq, Repr

def Interval.around (mantissa : Nat) (exponent : Int) : Interval where
  low := if mantissa = leadingBit ∧ -1074 < exponent then 4 * mantissa - 1 else 4 * mantissa - 2
  high := 4 * mantissa + 2
  exponent := exponent - 2
  closed := mantissa % 2 = 0

/-- A comparison of `a * 2 ^ e` with `b * 10 ^ f`. -/
def compareScaled (a : Nat) (e : Int) (b : Nat) (f : Int) : Ordering :=
  let (n, d) := scaled a 1 2 (-e)
  let (n', d') := scaled b 1 10 (-f)
  compare (n * d') (n' * d)

/-- Whether a decimal reads back as the double the interval was built around. -/
def Interval.holds (i : Interval) (s : Scientific) : Bool :=
  let low := compareScaled i.low i.exponent s.digits s.exponent
  let high := compareScaled i.high i.exponent s.digits s.exponent
  if i.closed then low != .gt && high != .lt else low == .lt && high == .gt

/-- The power of ten of the first digit of `num / den`. -/
def leadingExponent (num den : Nat) : Int :=
  let k : Int := (digitCount num : Int) - digitCount den
  let (n, d) := scaled num den 10 k
  if d ≤ n then k else k - 1

/--
The neighbours of `num / den` on the grid of `count` digits that read back, the nearer one if both
do, and of two equally near ones the even one.
-/
def onGrid? (i : Interval) (num den : Nat) (first : Int) (count : Nat) : Option Scientific :=
  let exponent : Int := first - count + 1
  let (n, d) := scaled num den 10 exponent
  let below : Scientific := ⟨n / d, exponent⟩
  let above : Scientific := ⟨n / d + 1, exponent⟩
  match i.holds below, i.holds above with
  | true, true => some (if roundDiv n d = n / d then below else above)
  | true, false => some below
  | false, true => some above
  | false, false => none

/-- The first grid with a point that reads back; seventeen digits always suffice. -/
def shortest (mantissa : Nat) (exponent : Int) : Scientific :=
  let (num, den) := scaled mantissa 1 2 (-exponent)
  let first := leadingExponent num den
  let i := Interval.around mantissa exponent
  ((List.range 17).findSome? fun c => onGrid? i num den first (c + 1)).getD ⟨mantissa, 0⟩

/-- How a double is written down. -/
structure FloatFormat where
  /-- Exponents of the first digit from here on are written with an exponent. -/
  scientificFrom : Int
  /-- Exponents of the first digit below this are written with an exponent. -/
  scientificBelow : Int
  infinite : String
  nan : String
  deriving Repr

def padLeft (width : Nat) (digits : List Char) : List Char :=
  List.replicate (width - digits.length) '0' ++ digits

/-- The digits of a number without the zeros at its end. -/
def significant (n : Nat) : List Char :=
  ((Nat.toDigits 10 n).reverse.dropWhile (· = '0')).reverse

/-- A decimal laid out in a format: `first` is the power of ten of the first digit. -/
def FloatFormat.layout (f : FloatFormat) (digits : List Char) (first : Int) : List Char :=
  if f.scientificFrom ≤ first ∨ first < f.scientificBelow then
    let tail := digits.drop 1
    digits.take 1 ++ (if tail.isEmpty then [] else '.' :: tail) ++
      ['e', if first < 0 then '-' else '+'] ++ padLeft 2 (Nat.toDigits 10 first.natAbs)
  else if first < 0 then
    ['0', '.'] ++ List.replicate (first.natAbs - 1) '0' ++ digits
  else
    let whole := first.toNat + 1
    let padded := digits ++ List.replicate (whole - digits.length) '0'
    let fraction := digits.drop whole
    padded.take whole ++ '.' :: (if fraction.isEmpty then ['0'] else fraction)

/-- A double in a format: the shortest digits that read back. -/
def FloatFormat.text (f : FloatFormat) (x : Float) : String :=
  match Binary.ofFloat x with
  | .nan => f.nan
  | .infinite negative => (if negative then "-" else "") ++ f.infinite
  | .finite negative 0 _ => if negative then "-0.0" else "0.0"
  | .finite negative mantissa exponent =>
    let s := shortest mantissa exponent
    let first := s.exponent + digitCount s.digits - 1
    (if negative then "-" else "") ++ String.ofList (f.layout (significant s.digits) first)

/-- Plain text shows up to sixteen digits before the point and four places of zeros after it. -/
def plainFormat : FloatFormat := ⟨16, -4, "inf", "nan"⟩

/-- Tenths of `mantissa * 2 ^ exponent`, halves going to the even tenth. -/
def tenths (mantissa : Nat) (exponent : Int) : Nat :=
  let (num, den) := scaled mantissa 1 2 (-exponent)
  roundDiv (num * 10) den

/-- A double with one decimal place; the sign is kept even where the digits are zero. -/
def oneDecimal (x : Float) : String :=
  match Binary.ofFloat x with
  | .nan => "nan"
  | .infinite negative => if negative then "-inf" else "inf"
  | .finite negative mantissa exponent =>
    let t := tenths mantissa exponent
    (if negative then "-" else "") ++ toString (t / 10) ++ "." ++ toString (t % 10)

end VerifierHost.Decimal
