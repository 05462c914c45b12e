import VerifierHost.Proofs.Run.Unusable

/-! # What a store retains

The store of the latest run is filled with the diagnostics on the lines that were heard of it. Which
of them it retains depends on each of them alone: for every file it has those that are kept, in the
order in which they came, and it counts what it has. -/

namespace VerifierHost

open Wire

/-! ## Stores that are filled -/

namespace Store

/-- Those diagnostics of a log that are kept for a file. -/
def retained (errorsOnly : Bool) (file : Text) (log : List Located) : List Diagnostic :=
  (log.filter fun l => l.file = file && keepsOf errorsOnly l.diagnostic).map Located.diagnostic

variable {errorsOnly : Bool} {file : Text} {log : List Located} {d : Diagnostic}

theorem retained_append (log more : List Located) :
    retained errorsOnly file (log ++ more) =
      retained errorsOnly file log ++ retained errorsOnly file more := by
  simp [retained]

theorem retained_singleton (s : Store) (l : Located) (file : Text) :
    retained s.errorsOnly file [l] =
      if l.file = file ∧ s.keeps l.diagnostic = true then [l.diagnostic] else [] := by
  have hkeeps : keepsOf s.errorsOnly l.diagnostic = s.keeps l.diagnostic := rfl
  by_cases hf : l.file = file <;> by_cases hk : s.keeps l.diagnostic = true <;>
    simp [retained, hf, hk, hkeeps]

theorem diagnosticsOf_add (s : Store) (l : Located) (file : Text) :
    (s.add l).diagnosticsOf file = s.diagnosticsOf file ++ retained s.errorsOnly file [l] := by
  rw [retained_singleton]
  unfold add
  by_cases hk : s.keeps l.diagnostic = true
  · by_cases hf : l.file = file
    · subst hf
      simp [diagnosticsOf, hk]
    · simp [diagnosticsOf, hk, hf, Table.get?_put_of_ne]
  · simp [hk]

theorem mem_files_add (s : Store) (l : Located) (file : Text) :
    file ∈ (s.add l).files ↔ file ∈ s.files ∨ retained s.errorsOnly file [l] ≠ [] := by
  rw [retained_singleton]
  unfold add
  by_cases hk : s.keeps l.diagnostic = true
  · rw [if_pos hk]
    refine Table.mem_keys_put.trans ?_
    by_cases hf : l.file = file
    · simp [hf, hk]
    · simp [hf, Ne.symm hf, files]
  · simp [hk]

theorem countP_all_add (p : Diagnostic → Bool) (s : Store) (l : Located) :
    (s.add l).all.countP p =
      s.all.countP p + [l].countP fun l => keepsOf s.errorsOnly l.diagnostic && p l.diagnostic := by
  have hkeeps : keepsOf s.errorsOnly l.diagnostic = s.keeps l.diagnostic := rfl
  unfold add
  by_cases hk : s.keeps l.diagnostic = true
  · have hput := Table.countP_put p s.entries l.file (s.diagnosticsOf l.file ++ [l.diagnostic])
    rw [if_pos hk]
    simp only [List.countP_append, diagnosticsOf] at hput
    simp only [all, diagnosticsOf, List.countP_singleton, hkeeps, hk, Bool.true_and] at hput ⊢
    omega
  · simp [hk, hkeeps]

/-! Adding a log is adding its diagnostics one after the other. -/

theorem addAll_cons (s : Store) (l : Located) (log : List Located) :
    s.addAll (l :: log) = (s.add l).addAll log := rfl

theorem addAll_append (s : Store) (log more : List Located) :
    s.addAll (log ++ more) = (s.addAll log).addAll more := List.foldl_append

/-- **For every file, a store retains what is kept of a log, in its order.** -/
theorem diagnosticsOf_addAll (s : Store) (log : List Located) (file : Text) :
    (s.addAll log).diagnosticsOf file =
      s.diagnosticsOf file ++ retained s.errorsOnly file log := by
  induction log generalizing s with
  | nil => simp [addAll, retained]
  | cons l rest ih =>
    rw [addAll_cons, ih, errorsOnly_add, diagnosticsOf_add, List.append_assoc, ← retained_append]
    rfl

theorem mem_files_addAll (s : Store) (log : List Located) (file : Text) :
    file ∈ (s.addAll log).files ↔ file ∈ s.files ∨ retained s.errorsOnly file log ≠ [] := by
  induction log generalizing s with
  | nil => simp [addAll, retained]
  | cons l rest ih =>
    rw [addAll_cons, ih, errorsOnly_add, mem_files_add, or_assoc,
      show l :: rest = [l] ++ rest from rfl, retained_append, ne_eq, ne_eq, ne_eq,
      List.append_eq_nil_iff, not_and_or]

theorem countP_all_addAll (p : Diagnostic → Bool) (s : Store) (log : List Located) :
    (s.addAll log).all.countP p =
      s.all.countP p + log.countP fun l => keepsOf s.errorsOnly l.diagnostic && p l.diagnostic := by
  induction log generalizing s with
  | nil => rfl
  | cons l rest ih =>
    rw [addAll_cons, ih, errorsOnly_add, countP_all_add, Nat.add_assoc, ← List.countP_append]
    rfl

/-- Errors are kept whatever is wanted, closing summaries of the compiler apart. -/
theorem keepsOf_error (h : d.severity = some .error) :
    keepsOf errorsOnly d = (!isAbortNotice d.message && !isWarningCount d.message) := by
  simp [keepsOf, keeps, isImportant, h]

end Store

/-! ## Lines that fill a store -/

/-- The diagnostics on some lines. -/
def locatedIn (directory : FilePath) (lines : List (Origin × Text)) : List Located :=
  lines.filterMap fun line => located? directory line.1 line.2

theorem locatedIn_append (directory : FilePath) (lines more : List (Origin × Text)) :
    locatedIn directory (lines ++ more) =
      locatedIn directory lines ++ locatedIn directory more := by
  simp [locatedIn]

theorem Board.store_readAll (b : Board) (directory : FilePath) (lines : List (Origin × Text)) :
    (b.readAll directory lines).store = b.store.addAll (locatedIn directory lines) := by
  induction lines generalizing b with
  | nil => rfl
  | cons line rest ih =>
    have hcons : locatedIn directory (line :: rest) =
        (located? directory line.1 line.2).toList ++ locatedIn directory rest := by
      cases hl : located? directory line.1 line.2 <;> simp [locatedIn, hl]
    rw [readAll_cons, ih, hcons, Store.addAll_append, store_readLine]

/-- A new run is what is asked for. -/
def Move.Begins : Move → Prop
  | .launch .. | .refuse .. | .abort .. => True
  | _ => False

namespace Engine

variable {e : Engine} {lines : List (Origin × Text)}

/-- The store has been filled with the diagnostics on these lines and with nothing else. -/
def Retains (e : Engine) (lines : List (Origin × Text)) : Prop :=
  e.board.store = (Store.empty e.settings.errorsOnly).addAll (locatedIn e.directory lines)

/-- A run that begins has retained nothing yet. -/
theorem retains_begin (e : Engine) {m : Move} (h : m.Begins) : (e.play m).engine.Retains [] := by
  unfold Retains
  rw [directory_play, settings_play]
  cases m with
  | launch | abort => rfl
  | refuse target name =>
    rw [board_refuse]
    rfl
  | output | exit | awaitNews | drawHints | takeChanged => exact h.elim

theorem recordAfter_of_begins {m : Move} (h : m.Begins) : e.recordAfter lines m = [] := by
  cases m <;> first | rfl | exact h.elim

theorem recordAfter_of_not_begins {m : Move} (h : ¬ m.Begins) :
    e.recordAfter lines m = lines ++ e.heard m := by
  cases m <;> first | rfl | exact absurd trivial h

/-- **A store retains what is heard.** -/
theorem retains_play (h : e.Retains lines) (m : Move) :
    (e.play m).engine.Retains (e.recordAfter lines m) := by
  by_cases hbegin : m.Begins
  · rw [recordAfter_of_begins hbegin]
    exact e.retains_begin hbegin
  unfold Retains
  rw [directory_play, settings_play, recordAfter_of_not_begins hbegin, locatedIn_append,
    Store.addAll_append, ← h, ← Board.store_readAll]
  cases m with
  | launch | abort | refuse => exact absurd trivial hbegin
  | awaitNews | drawHints | takeChanged => rfl
  | output pid stream chunks closed => rw [board_output]
  | exit pid code moment => rw [board_exit]

/-- No error is retained exactly if all errors that were heard of are closing summaries. -/
theorem Retains.errorless_iff (h : e.Retains lines) :
    (∀ d ∈ e.board.store.all, d.severity ≠ some .error) ↔
      ∀ l ∈ locatedIn e.directory lines, l.diagnostic.severity = some .error →
        isAbortNotice l.diagnostic.message = true ∨ isWarningCount l.diagnostic.message = true := by
  have hcount := Store.countP_all_addAll (fun d => d.severity = some .error)
    (.empty e.settings.errorsOnly) (locatedIn e.directory lines)
  rw [← h, show (Store.empty e.settings.errorsOnly).all = [] from rfl, List.countP_nil,
    Nat.zero_add] at hcount
  calc (∀ d ∈ e.board.store.all, d.severity ≠ some .error)
      ↔ e.board.store.all.countP (fun d => d.severity = some .error) = 0 := by
        simp [List.countP_eq_zero]
    _ ↔ ∀ l ∈ locatedIn e.directory lines, l.diagnostic.severity = some .error →
          keepsOf e.settings.errorsOnly l.diagnostic = false := by
        rw [hcount, List.countP_eq_zero]
        simp [Store.empty, imp_not_comm]
    _ ↔ _ := forall₂_congr fun l hl => forall_congr' fun herror => by
        rw [Store.keepsOf_error herror]
        cases isAbortNotice l.diagnostic.message <;> simp

end Engine

namespace Chronicle

theorem retains_addAll {c : Chronicle} {lines : List (Origin × Text)} (h : c.engine.Retains lines)
    (moves : List Move) : (c.addAll moves).engine.Retains (c.transcript lines moves) := by
  induction moves generalizing c lines with
  | nil => exact h
  | cons m rest ih => exact ih (Engine.retains_play h m)

end Chronicle

end VerifierHost
