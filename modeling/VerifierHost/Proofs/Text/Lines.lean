import Mathlib.Data.List.DropRight
import Mathlib.Data.List.Forall2
import VerifierHost.Proofs.Text.Split
import VerifierHost.Text.Lines

/-! # A text in pieces has the lines of the whole

A text is made of lines and a rest in one way only (`Lines.unique`). A buffer that was fed a text
has handed out its lines and keeps its rest (`LineBuffer.feed_lines`), and to feed one chunk after
the other is to feed them at once (`LineBuffer.feedAll_eq`). So no cut shows, neither one inside a
line nor one between a carriage return and its newline. -/

namespace VerifierHost.Text

/-- A text is made of lines, each of them ended by a newline, and of the rest behind the last. -/
structure Lines (text : List Char) (lines : List (List Char)) (rest : List Char) : Prop where
  whole : text = lines.flatMap (· ++ ['\n']) ++ rest
  plain : ∀ line ∈ lines, '\n' ∉ line
  unended : '\n' ∉ rest

/-- What is left of a line without the carriage returns at its end. -/
structure Trims (line left : List Char) : Prop where
  whole : ∃ count, line = left ++ List.replicate count '\r'
  bare : left.getLast? ≠ some '\r'

variable {text rest rest' : List Char} {lines lines' : List (List Char)}

namespace Lines

theorem splitOn_eq (h : Lines text lines rest) : splitOn '\n' text = lines ++ [rest] := by
  obtain ⟨rfl, hplain, hrest⟩ := h
  induction lines with
  | nil => exact splitOn_of_not_mem hrest
  | cons line later ih =>
    obtain ⟨hline, hlater⟩ := List.forall_mem_cons.mp hplain
    rw [List.flatMap_cons, List.append_assoc, List.append_assoc, List.singleton_append,
      splitOn_append_cons, splitOn_of_not_mem hline, ih hlater]
    rfl

theorem unique (h : Lines text lines rest) (h' : Lines text lines' rest') :
    lines' = lines ∧ rest' = rest := by
  have heq : lines' ++ [rest'] = lines ++ [rest] := h'.splitOn_eq.symm.trans h.splitOn_eq
  exact List.append_inj' heq rfl |>.imp_right List.singleton_inj.mp

theorem nil : Lines [] [] [] := ⟨rfl, nofun, List.not_mem_nil⟩

/-- A newline ends the line that was the rest so far. -/
theorem newline (h : Lines text lines rest) : Lines (text ++ ['\n']) (lines ++ [rest]) [] := by
  refine ⟨by simp [h.whole], fun line hline => ?_, List.not_mem_nil⟩
  rcases List.mem_append.mp hline with hline | hline
  · exact h.plain line hline
  · exact List.mem_singleton.mp hline ▸ h.unended

/-- Any other character belongs to the rest. -/
theorem concat {c : Char} (h : Lines text lines rest) (hc : c ≠ '\n') :
    Lines (text ++ [c]) lines (rest ++ [c]) :=
  ⟨by simp [h.whole], h.plain, by simp [h.unended, hc.symm]⟩

end Lines

theorem exists_lines (text : List Char) : ∃ lines rest, Lines text lines rest := by
  rw [← text.reverse_reverse]
  induction text.reverse with
  | nil => exact ⟨[], [], .nil⟩
  | cons c before ih =>
    obtain ⟨lines, rest, h⟩ := ih
    rw [List.reverse_cons]
    by_cases hc : c = '\n'
    · exact ⟨lines ++ [rest], [], hc ▸ h.newline⟩
    · exact ⟨lines, rest ++ [c], h.concat hc⟩

theorem trims_stripReturns (line : List Char) : Trims line (stripReturns line) := by
  constructor
  · have hends : line.rtakeWhile (· = '\r') =
        List.replicate (line.rtakeWhile (· = '\r')).length '\r' :=
      List.eq_replicate_of_mem fun c hc => by simpa using List.mem_rtakeWhile_imp hc
    refine ⟨(line.rtakeWhile (· = '\r')).length, ?_⟩
    rw [← hends]
    exact List.rdropWhile_append_rtakeWhile.symm
  · intro hlast
    obtain ⟨front, hfront⟩ := List.getLast?_eq_some_iff.mp hlast
    have hdrop : line.rdropWhile (· = '\r') = front ++ ['\r'] := hfront
    have hne : line.rdropWhile (· = '\r') ≠ [] := by simp [hdrop]
    exact List.rdropWhile_last_not _ line hne (by simp [hdrop])

namespace LineBuffer

/-! ## Feeding -/

theorem readOnto_lines (lines : List (List Char)) (b : LineBuffer) (chunk : List Char) :
    readOnto lines b chunk = ((readOnto [] b chunk).1 ++ lines, (readOnto [] b chunk).2) := by
  induction chunk generalizing lines b with
  | nil => rfl
  | cons c rest ih =>
    unfold readOnto
    split
    next => rw [ih, ih [_]]; simp
    next => exact ih lines _

theorem feed_append (b : LineBuffer) (xs ys : List Char) :
    b.feed (xs ++ ys) =
      ((b.feed xs).1 ++ ((b.feed xs).2.feed ys).1, ((b.feed xs).2.feed ys).2) := by
  have honto : ∀ lines : List (List Char), readOnto lines b (xs ++ ys) =
      readOnto (readOnto lines b xs).1 (readOnto lines b xs).2 ys := by
    induction xs generalizing b with
    | nil => exact fun _ => rfl
    | cons c rest ih =>
      intro lines
      rw [List.cons_append, readOnto, readOnto]
      split
      next => exact ih _ _
      next => exact ih _ _
  simp only [feed]
  rw [honto, readOnto_lines (readOnto [] b xs).1, List.reverse_append]

theorem feed_newline (b : LineBuffer) : b.feed ['\n'] = ([stripReturns b.pending], empty) := rfl

/-- Without a newline no line is complete. -/
theorem feed_of_not_mem (b : LineBuffer) {chunk : List Char} (h : '\n' ∉ chunk) :
    b.feed chunk = ([], ⟨chunk.reverse ++ b.reversed⟩) := by
  induction chunk generalizing b with
  | nil => rfl
  | cons c later ih =>
    rw [List.mem_cons, not_or] at h
    have hread : b.feed [c] = ([], ⟨c :: b.reversed⟩) := by simp [feed, readOnto, Ne.symm h.1]
    rw [← List.singleton_append, feed_append, hread, ih _ h.2]
    simp

/-- **A buffer hands out the lines of what it was fed and keeps the rest.** -/
theorem feed_lines (h : Lines text lines rest) :
    empty.feed text = (lines.map stripReturns, ⟨rest.reverse⟩) := by
  obtain ⟨rfl, hplain, hrest⟩ := h
  induction lines with
  | nil => simpa [empty] using empty.feed_of_not_mem hrest
  | cons line later ih =>
    obtain ⟨hline, hlater⟩ := List.forall_mem_cons.mp hplain
    simp only [List.flatMap_cons, List.append_assoc]
    -- the line stays pending until its newline comes, which leaves an empty buffer to the others
    rw [feed_append, feed_of_not_mem _ hline, feed_append, feed_newline, ih hlater]
    simp [pending, empty]

/-- What each of some chunks completes, and what the buffer holds after them. -/
def feedAll (b : LineBuffer) : List (List Char) → List (List (List Char)) × LineBuffer
  | [] => ([], b)
  | chunk :: later =>
    let (lines, b) := b.feed chunk
    let (more, b) := feedAll b later
    (lines :: more, b)

/-- **Chunks one after the other are one chunk.** -/
theorem feedAll_eq (b : LineBuffer) (chunks : List (List Char)) :
    (b.feedAll chunks).1.flatten = (b.feed chunks.flatten).1 ∧
      (b.feedAll chunks).2 = (b.feed chunks.flatten).2 := by
  induction chunks generalizing b with
  | nil => exact ⟨rfl, rfl⟩
  | cons chunk later ih =>
    obtain ⟨hlines, hrest⟩ := ih (b.feed chunk).2
    rw [List.flatten_cons, feed_append]
    exact ⟨congrArg ((b.feed chunk).1 ++ ·) hlines, hrest⟩

/-! ## Handing on -/

section Handler

variable {m : Type → Type} [Monad m] [LawfulMonad m]

/-- A handler gets the lines of the chunks one after the other, and nothing comes in between. -/
theorem foldlM_relay (onLine : List Char → m Unit) (b : LineBuffer) (chunks : List (List Char)) :
    chunks.foldlM (relay onLine) b = do
      (b.feedAll chunks).1.flatten.forM onLine
      return (b.feedAll chunks).2 := by
  induction chunks generalizing b with
  | nil => simp [feedAll]
  | cons chunk later ih => simp [relay, feedAll, ih]

end Handler

/-- **No line is lost, doubled or out of order**, whatever chunks a text comes in. It is made of lines
and a rest in one way. What is handed out are its lines, empty ones too, each without the carriage
returns at its end; what is pending is its rest, and that is the last line at the end of the text if
anything is left of it. Another division of the text gives the same, and a handler of lines gets
them all in this order. -/
theorem lines_of_chunks (chunks : List (List Char)) : ∃ lines rest last,
    (∀ lines' rest', Lines chunks.flatten lines' rest' ↔ lines' = lines ∧ rest' = rest) ∧
    List.Forall₂ Trims lines (empty.feedAll chunks).1.flatten ∧
    (empty.feedAll chunks).2.pending = rest ∧ Trims rest last ∧
    (empty.feedAll chunks).2.flush = (if last = [] then [] else [last], empty) ∧
    ∀ division : List (List Char), division.flatten = chunks.flatten →
      (empty.feedAll division).1.flatten = (empty.feedAll chunks).1.flatten ∧
      (empty.feedAll division).2 = (empty.feedAll chunks).2 ∧
      ∀ {m : Type → Type} [Monad m] [LawfulMonad m] (onLine : List Char → m Unit),
        division.foldlM (relay onLine) empty >>= relayRest onLine = do
          ((empty.feedAll chunks).1.flatten ++ (empty.feedAll chunks).2.flush.1).forM onLine
          return empty := by
  obtain ⟨lines, rest, h⟩ := exists_lines chunks.flatten
  -- what is handed out and what is kept depend on the whole text alone
  have hfeed : ∀ division : List (List Char), division.flatten = chunks.flatten →
      (empty.feedAll division).1.flatten = lines.map stripReturns ∧
        (empty.feedAll division).2 = ⟨rest.reverse⟩ := fun division hdivision => by
    have heq := empty.feedAll_eq division
    rwa [hdivision, feed_lines h] at heq
  obtain ⟨hlines, hrest⟩ := hfeed chunks rfl
  have hpending : (⟨rest.reverse⟩ : LineBuffer).pending = rest := rest.reverse_reverse
  refine ⟨lines, rest, stripReturns rest, fun lines' rest' => ⟨h.unique, ?_⟩, ?_, ?_,
    trims_stripReturns rest, ?_, fun division hdivision => ?_⟩
  · rintro ⟨rfl, rfl⟩
    exact h
  · rw [hlines, List.forall₂_map_right_iff]
    exact List.forall₂_same.mpr fun line _ => trims_stripReturns line
  · rw [hrest, hpending]
  · simp only [hrest, flush, hpending, List.isEmpty_iff]
  · obtain ⟨hlines', hrest'⟩ := hfeed division hdivision
    refine ⟨hlines'.trans hlines.symm, hrest'.trans hrest.symm, fun onLine => ?_⟩
    rw [foldlM_relay, hlines', hlines, hrest', hrest]
    simp [relayRest, flush]

/-- Cuts between a carriage return and its newline, in an empty line and behind the last newline. -/
theorem lines_of_chunks_cut :
    let chunks := [['a', '\r'], ['\n', '\r', '\n'], [], ['b', '\r'], ['c', '\r']]
    let division := [['a', '\r', '\n', '\r'], ['\n', 'b', '\r', 'c', '\r']]
    division.flatten = chunks.flatten ∧
      (empty.feedAll chunks).1 = [[], [['a'], []], [], [], []] ∧
      (division.foldlM (m := StateM (List (List Char)))
        (relay fun line => modify (· ++ [line])) empty >>= relayRest
          fun line => modify (· ++ [line])).run [] = (empty, [['a'], [], ['b', '\r', 'c']]) := by
  have hsame : [['a', '\r', '\n', '\r'], ['\n', 'b', '\r', 'c', '\r']].flatten =
      [['a', '\r'], ['\n', '\r', '\n'], [], ['b', '\r'], ['c', '\r']].flatten := rfl
  obtain ⟨-, -, -, -, -, -, -, -, hdivision⟩ :=
    lines_of_chunks [['a', '\r'], ['\n', '\r', '\n'], [], ['b', '\r'], ['c', '\r']]
  refine ⟨hsame, rfl, ?_⟩
  rw [(hdivision _ hsame).2.2]
  rfl

end LineBuffer

end VerifierHost.Text
