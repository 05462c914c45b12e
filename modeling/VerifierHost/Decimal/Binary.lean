/-!
Doubles as exact numbers: a double is read as a sign, a whole mantissa and a power of two, and a
quotient of whole numbers is rounded to the nearest double, a tie going to the even mantissa.
-/

namespace VerifierHost.Decimal

/-- What a double stands for; a finite one is `± mantissa * 2 ^ exponent`. -/
inductive Binary where
  | nan
  | infinite (negative : Bool)
  | finite (negative : Bool) (mantissa : Nat) (exponent : Int)
  deriving DecidableEq, Repr

/-- The weight of the bit in front of a double's fraction, and of its exponent field. -/
def leadingBit : Nat := Nat.pow 2 52

/-- The weight of the sign of a double. -/
def signBit : Nat := Nat.pow 2 63

/-- Reads the three fields of a double's bits. -/
def Binary.ofFloat (x : Float) : Binary :=
  let bits := x.toBits.toNat
  let negative := bits / signBit == 1
  let exponent : Nat := bits / leadingBit % 2048
  let fraction := bits % leadingBit
  if exponent == 2047 then
    if fraction == 0 then .infinite negative else .nan
  else if exponent == 0 then .finite negative fraction (-1074)
  else .finite negative (fraction + leadingBit) ((exponent : Int) - 1075)

/-- A whole number nearest to `num / den`; halves go to the even neighbour. -/
def roundDiv (num den : Nat) : Nat :=
  let q := num / den
  let r := num % den
  if 2 * r < den then q
  else if den < 2 * r then q + 1
  else if q % 2 = 0 then q else q + 1

/-- `num / den` without its factor `2 ^ e`, as a quotient of whole numbers. -/
def scaled (num den base : Nat) (e : Int) : Nat × Nat :=
  if 0 ≤ e then (num, den * Nat.pow base e.toNat) else (num * Nat.pow base (-e).toNat, den)

/--
The double nearest to `± num / den`. The exponent is chosen so that the mantissa has 53 bits, or is
the smallest one there is; a mantissa that rounds up to 54 bits carries into the exponent field.
-/
def nearest (negative : Bool) (num den : Nat) : Float :=
  let sign : Nat := if negative then signBit else 0
  if num = 0 then Float.ofBits (UInt64.ofNat sign)
  else
    let l : Int := (num.log2 : Int) - den.log2
    let (n, d) := scaled num den 2 l
    let e : Int := max (if d ≤ n then l - 52 else l - 53) (-1074)
    let (n, d) := scaled num den 2 e
    let bits := (e + 1074).toNat * leadingBit + roundDiv n d
    Float.ofBits (UInt64.ofNat (sign + min bits (2047 * leadingBit)))

/-- How many decimal digits a number has; zero has one. -/
def digitCount (n : Nat) : Nat := (Nat.toDigits 10 n).length

/--
The double nearest to `± mantissa * 10 ^ exponent`. Numbers far outside the range of doubles are
not computed: they are infinite or zero.
-/
def ofScientific (negative : Bool) (mantissa : Nat) (exponent : Int) : Float :=
  let magnitude := digitCount mantissa + exponent
  if mantissa = 0 ∨ magnitude < -400 then nearest negative 0 1
  else if 400 < magnitude then nearest negative (Nat.pow 2 1024) 1
  else
    let (n, d) := scaled mantissa 1 10 (-exponent)
    nearest negative n d

/-- The double nearest to a whole number, if that is finite. -/
def ofInt? (n : Int) : Option Float :=
  let x := nearest (n < 0) n.natAbs 1
  match Binary.ofFloat x with
  | .finite .. => some x
  | _ => none

end VerifierHost.Decimal
