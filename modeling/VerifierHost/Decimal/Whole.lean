/-!
The decimal texts of whole numbers. Numbers with very many digits are neither read nor written.
-/

namespace VerifierHost.Decimal

/-- A whole number may have this many digits. -/
def maxDigits : Nat := 4300

/-- Whether a whole number has more digits than it may. -/
def isTooLong (n : Int) : Bool := Nat.pow 10 maxDigits ≤ n.natAbs

/-- The text of a whole number that is not too long. -/
def wholeText? (n : Int) : Option String := if isTooLong n then none else some (toString n)

end VerifierHost.Decimal
