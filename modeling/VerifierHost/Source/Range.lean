import VerifierHost.Decimal.Whole

/-!
Positions and ranges of source text, as an editor counts them: lines and columns start at zero and
never exceed `lineEnd`. Positions are ordered first by line and then by column; a range is a pair of
positions in either order. `union` and `Contains` are the join and the inclusion of that order.
-/

namespace VerifierHost

/-- A line or a column of an editor. -/
abbrev Coordinate := Fin 2147483648

/-- The largest coordinate; as a column it stands for the end of a line. -/
def lineEnd : Coordinate := 2147483647

/-- Which coordinate of a position lies outside what an editor accepts. -/
inductive CoordinateError where
  | line (value : Int)
  | character (value : Int)
  deriving DecidableEq, Repr

/-- What is wrong with a coordinate of some name. -/
def outOfRange (name value : String) : String :=
  "Position." ++ name ++ " should be in range [0:2147483647], but was " ++ value ++ "."

/-- The wording of the complaint about a coordinate, unless it is too long a number to be named. -/
def CoordinateError.message? : CoordinateError → Option String
  | .line v => (Decimal.wholeText? v).map (outOfRange "line")
  | .character v => (Decimal.wholeText? v).map (outOfRange "character")

/-- The coordinate a number stands for, if it is one. -/
def Coordinate.ofInt? (v : Int) : Option Coordinate :=
  if h : 0 ≤ v ∧ v ≤ 2147483647 then some ⟨v.toNat, by omega⟩ else none

structure Position where
  line : Coordinate
  character : Coordinate
  deriving DecidableEq, Repr

namespace Position

/-- Positions precede each other by line, and on one line by column. -/
protected def le (p q : Position) : Prop :=
  p.line < q.line ∨ p.line = q.line ∧ p.character ≤ q.character

instance : LE Position := ⟨Position.le⟩

instance (p q : Position) : Decidable (p ≤ q) :=
  inferInstanceAs (Decidable (_ ∨ _))

theorem le_def {p q : Position} :
    p ≤ q ↔ p.line < q.line ∨ p.line = q.line ∧ p.character ≤ q.character := Iff.rfl

protected theorem le_refl (p : Position) : p ≤ p := Or.inr ⟨rfl, Nat.le_refl _⟩

protected theorem le_trans {p q r : Position} (hpq : p ≤ q) (hqr : q ≤ r) : p ≤ r := by
  simp only [le_def, Fin.lt_def, Fin.le_def, Fin.ext_iff] at *
  omega

protected theorem le_antisymm {p q : Position} (hpq : p ≤ q) (hqp : q ≤ p) : p = q := by
  cases p
  cases q
  simp only [le_def, Position.mk.injEq, Fin.lt_def, Fin.le_def, Fin.ext_iff] at *
  omega

protected theorem le_total (p q : Position) : p ≤ q ∨ q ≤ p := by
  simp only [le_def, Fin.lt_def, Fin.le_def, Fin.ext_iff]
  omega

/-- The earlier of two positions. -/
def earlier (p q : Position) : Position := if p ≤ q then p else q

/-- The later of two positions. -/
def later (p q : Position) : Position := if p ≤ q then q else p

/-- The position two numbers stand for; the line is looked at first. -/
def ofInts (line character : Int) : Except CoordinateError Position :=
  match Coordinate.ofInt? line with
  | none => .error (.line line)
  | some l =>
    match Coordinate.ofInt? character with
    | none => .error (.character character)
    | some c => .ok ⟨l, c⟩

end Position

structure Range where
  start : Position
  stop : Position
  deriving DecidableEq, Repr

namespace Range

/-- The range four numbers stand for; the start is looked at before the end. -/
def ofInts (startLine startCharacter stopLine stopCharacter : Int) :
    Except CoordinateError Range :=
  match Position.ofInts startLine startCharacter with
  | .error e => .error e
  | .ok start =>
    match Position.ofInts stopLine stopCharacter with
    | .error e => .error e
    | .ok stop => .ok ⟨start, stop⟩

/-- Compilers count lines and columns from one. -/
def ofSpan (lineStart columnStart lineEnd columnEnd : Int) : Except CoordinateError Range :=
  ofInts (lineStart - 1) (columnStart - 1) (lineEnd - 1) (columnEnd - 1)

/-- The empty range at the start of a file, used where nothing better is known. -/
def dummy : Range := ⟨⟨0, 0⟩, ⟨0, 0⟩⟩

def IsDummy (r : Range) : Prop := r = dummy

instance (r : Range) : Decidable r.IsDummy := inferInstanceAs (Decidable (_ = _))

/-- The range from the earlier start to the later end. -/
def union (a b : Range) : Range :=
  ⟨a.start.earlier b.start, a.stop.later b.stop⟩

/-- The inner range neither starts before nor ends after the outer one. -/
def Contains (outer inner : Range) : Prop :=
  outer.start ≤ inner.start ∧ inner.stop ≤ outer.stop

instance (outer inner : Range) : Decidable (outer.Contains inner) :=
  inferInstanceAs (Decidable (_ ∧ _))

/-- Both ends of a range belong to it. -/
def Covers (r : Range) (p : Position) : Prop := r.start ≤ p ∧ p ≤ r.stop

instance (r : Range) (p : Position) : Decidable (r.Covers p) :=
  inferInstanceAs (Decidable (_ ∧ _))

/-- From the start of a range to the end of its first line. -/
def restOfLine (r : Range) : Range := ⟨r.start, ⟨r.start.line, lineEnd⟩⟩

/--
The innermost of the candidates that cover a position. A candidate takes the place of the best one
so far when it lies inside it, so of equal ranges the last one wins.
-/
def innermost {α : Type} (candidates : List (Range × α)) (p : Position) : Option (Range × α) :=
  candidates.foldl (fun best c =>
    if c.1.Covers p then
      match best with
      | none => some c
      | some b => if b.1.Contains c.1 then some c else best
    else best) none

end Range

end VerifierHost
