import VerifierHost.Text.Basic

/-!
The output of the program. It is written to no terminal, so the sequences that control one are left
out of every text. A text that cannot be encoded stops the output.
-/

namespace VerifierHost.CommandLine

/-- Whether a character may stand between the start and the final letter of a control sequence. -/
def isParameter (c : Char) : Bool := c.isDigit || c = ';' || c = '?'

/-- What follows a control sequence: an escape, a bracket, parameters and a letter. -/
def afterSequence? : List Char → Option (List Char)
  | '\x1b' :: '[' :: rest =>
    match rest.dropWhile isParameter with
    | c :: more => if c.isAlpha then some more else none
    | [] => none
  | _ => none

/-- A control sequence is not empty. -/
theorem length_lt_of_afterSequence? {cs more : List Char} (h : afterSequence? cs = some more) :
    more.length < cs.length := by
  unfold afterSequence? at h
  split at h
  · rename_i rest
    have hle := (List.dropWhile_suffix (l := rest) isParameter).length_le
    split at h
    · rename_i c tail heq
      rw [heq] at hle
      split at h
      · obtain rfl := Option.some.inj h
        simp only [List.length_cons] at *
        omega
      · contradiction
    · contradiction
  · contradiction

/-- The characters outside of control sequences. -/
def withoutSequences (cs : List Char) : List Char :=
  match _h : afterSequence? cs with
  | some more => withoutSequences more
  | none =>
    match cs with
    | [] => []
    | c :: rest => c :: withoutSequences rest
termination_by cs.length
decreasing_by
  · exact length_lt_of_afterSequence? (by assumption)
  · simp

/-- What is written of a text. -/
def written? (t : Text) : Option String :=
  t.chars?.map fun cs => String.ofList (withoutSequences cs)

/-- What is written of some texts, up to one that cannot be, and whether that is all. -/
def writtenAll : List Text → List String × Bool
  | [] => ([], true)
  | t :: rest =>
    match written? t with
    | none => ([], false)
    | some s =>
      let (more, isAll) := writtenAll rest
      (s :: more, isAll)

end VerifierHost.CommandLine
