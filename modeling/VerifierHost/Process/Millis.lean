import VerifierHost.Decimal.Binary

/-!
Lengths of time in milliseconds. A sum of whole ones is exact; once a fraction comes in, it is a
double.
-/

namespace VerifierHost

inductive Millis where
  | whole (n : Int)
  | fractional (x : Float)
  deriving DecidableEq, Repr

namespace Millis

def zero : Millis := .whole 0

def toFloat : Millis → Float
  | .whole n => Decimal.nearest (n < 0) n.natAbs 1
  | .fractional x => x

protected def add : Millis → Millis → Millis
  | .whole a, .whole b => .whole (a + b)
  | a, b => .fractional (a.toFloat + b.toFloat)

instance : Add Millis := ⟨Millis.add⟩

/-- The same length in seconds, as the nearest double. -/
def seconds : Millis → Float
  | .whole n => Decimal.nearest (n < 0) n.natAbs 1000
  | .fractional x => x / 1000

end Millis

/-- The time between two moments, in seconds. -/
def secondsBetween (start stop : Millis) : Float := stop.seconds - start.seconds

end VerifierHost
