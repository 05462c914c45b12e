import VerifierHost.Proofs.Run.Lines
import VerifierHost.Proofs.Text.Lines
import VerifierHost.Server.Supervisor

/-! # A stream read in parts

Between two readings a reader keeps its unfinished character and its unfinished line. So it gets the
same lines however often it reads: two readings one after the other are one reading of both
(`StreamReader.read_append`), as long as the stream has not ended in between. -/

namespace VerifierHost

theorem readChunks_append (d : Text.Utf8) (closed : Bool) {xs : List Text.Bytes}
    (hopen : xs.any List.isEmpty = false) (ys : List Text.Bytes) :
    readChunks d closed (xs ++ ys) =
      { readChunks (readChunks d false xs).decoder closed ys with
        texts := (readChunks d false xs).texts ++
          (readChunks (readChunks d false xs).decoder closed ys).texts } := by
  induction xs generalizing d with
  | nil => rfl
  | cons chunk rest ih =>
    rw [List.any_cons, Bool.or_eq_false_iff] at hopen
    simp only [List.cons_append, readChunks, hopen.1, Bool.false_eq_true, if_false, ih _ hopen.2]
    split
    next => rfl
    next => rfl

namespace StreamReader

variable (r : StreamReader) (chunks : List Text.Bytes) (closed : Bool)

theorem read_fields : (r.read chunks closed).1.pid = r.pid ∧
    (r.read chunks closed).1.stream = r.stream ∧
    (r.read chunks closed).1.lineUse = r.lineUse := ⟨rfl, rfl, rfl⟩

theorem read_ended : (r.read chunks closed).2.2 = (closed || chunks.any List.isEmpty) :=
  ended_readChunks r.decoder closed chunks

/-- Two readings are one. -/
theorem read_append {xs : List Text.Bytes} (hopen : xs.any List.isEmpty = false)
    (ys : List Text.Bytes) : r.read (xs ++ ys) closed =
      (((r.read xs false).1.read ys closed).1,
        (r.read xs false).2.1 ++ ((r.read xs false).1.read ys closed).2.1,
        ((r.read xs false).1.read ys closed).2.2) := by
  have hended : (readChunks r.decoder false xs).ended = false := by
    rw [ended_readChunks, hopen]
    rfl
  simp only [read, readChunks_append _ closed hopen, hended, Bool.false_eq_true, if_false,
    List.flatten_append, Text.LineBuffer.feed_append, List.append_nil, List.map_append,
    List.append_assoc]

end StreamReader

/-- The lines that a reader gets out of a stream, of which it has read these chunks. -/
def linesHeard (chunks : List Text.Bytes) (closed : Bool) : List Text :=
  ((StreamReader.start 0 .stdout .dropped).read chunks closed).2.1

/-- A reader that has read these chunks and then reads more has read all of them. -/
theorem read_start_append (pid : Pid) (stream : Stream) (lineUse : LineUse) {xs : List Text.Bytes}
    (hopen : xs.any List.isEmpty = false) (ys : List Text.Bytes) (closed : Bool) :
    let r := ((StreamReader.start pid stream lineUse).read xs false).1
    ((StreamReader.start pid stream lineUse).read (xs ++ ys) closed).1 = (r.read ys closed).1 ∧
      linesHeard (xs ++ ys) closed = linesHeard xs false ++ (r.read ys closed).2.1 := by
  constructor
  · rw [StreamReader.read_append _ _ hopen]
  · rw [linesHeard, StreamReader.read_append _ _ hopen]
    rfl

end VerifierHost
