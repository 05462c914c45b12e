import VerifierHost.Text.Basic
import VerifierHost.Text.Utf8

/-!
The bytes of a text in the name of a file. Characters are spelled in UTF-8. A name may hold bytes
that spell no character; such a byte is named by one of the last halves of surrogate pairs, and no
other half stands for anything.
-/

namespace VerifierHost

/-- The half of a surrogate pair that stands for the first byte beyond ASCII. -/
def firstByteHalf : Nat := 0x480

/-- The bytes of a code point in a name. -/
def CodePoint.nameBytes? : CodePoint → Option Text.Bytes
  | .char c => some (Text.utf8Char c)
  | .surrogate offset =>
    if firstByteHalf ≤ offset.val ∧ offset.val < firstByteHalf + 0x80 then
      some [UInt8.ofNat (offset.val - firstByteHalf + 0x80)]
    else none

/-- The bytes of a text in a name, unless a lone half in it stands for none. -/
def Text.nameBytes? (t : Text) : Option Text.Bytes :=
  (t.points.mapM CodePoint.nameBytes?).map List.flatten

end VerifierHost
