import VerifierHost.Annotation.Quantifiers
import VerifierHost.Proofs.Annotation.Log

/-! # Asking an index whether it has changed

Between two times of asking, an index notes a change exactly when an update comes or a file with
payloads is forgotten. Nothing else touches the log of updates, so without a change all answers stay
what they were. -/

namespace VerifierHost

namespace IndexCall

variable {π δ : Type}

/-- A call that changes what an index holds. -/
def Alters (x : AnnotationIndex π) : IndexCall δ → Prop
  | .update .. => True
  | .clearFile file => x.entriesOf file ≠ []
  | _ => False

/-- Whether a call can change what an index holds, one by one. -/
def mutates : IndexCall δ → Bool
  | .update .. | .clearFile _ => true
  | _ => false

end IndexCall

namespace AnnotationIndex

variable {π δ : Type} {kind : AnnotationKind π δ} {x y : AnnotationIndex π} {c : IndexCall δ}

theorem changed_render (kind : AnnotationKind π δ) (x : AnnotationIndex π) (file : Text) :
    (x.render kind file).index.changed = x.changed := by
  unfold render
  split
  next => rfl
  next =>
    dsimp only
    split <;> rfl

/-- One call is noted if it alters the index. -/
theorem changed_call (x : AnnotationIndex π) (htake : c ≠ .takeChanged) (hclear : c ≠ .clear) :
    (x.call kind c).changed = true ↔ x.changed = true ∨ c.Alters x := by
  cases c with
  | update file range delta => exact ⟨fun _ => .inr trivial, fun _ => rfl⟩
  | clearFile file =>
    show (x.changed || !(x.entriesOf file).isEmpty) = true ↔
      x.changed = true ∨ x.entriesOf file ≠ []
    simp
  | render file => simp [call, changed_render, IndexCall.Alters]
  | takeChanged => exact absurd rfl htake
  | clear => exact absurd rfl hclear
  | entries | files | lookup | hoverText => simp [call, IndexCall.Alters]

/-- A call that alters nothing leaves the log as it was. -/
theorem updatesOf_concat_of_not_alters {calls : List (IndexCall δ)} (hclear : c ≠ .clear)
    (h : ¬ c.Alters (after kind calls)) : updatesOf (calls ++ [c]) = updatesOf calls := by
  cases c with
  | update file range delta => exact absurd trivial h
  | clearFile file =>
    have hnone : rangesIn (updatesOf calls) file = [] := by
      rw [← keys_entriesIn kind, ← (reflects_after kind calls).entries, not_not.mp h]
      rfl
    rw [updatesOf_concat]
    refine (List.append_nil _).trans (List.filter_eq_self.mpr fun row hrow => ?_)
    have hne : row.1.1 ≠ file := by
      intro he
      have hrange : row.1.2 ∈ rangesIn (updatesOf calls) file :=
        List.mem_eraseDups.mpr
          (List.mem_map.mpr ⟨row, List.mem_filter.mpr ⟨hrow, decide_eq_true he⟩, rfl⟩)
      rw [hnone] at hrange
      cases hrange
    simp [IndexCall.forgets, Ne.symm hne]
  | clear => exact absurd rfl hclear
  | render | takeChanged | entries | files | lookup | hoverText =>
    rw [updatesOf_concat_of_not_forgets calls fun _ => rfl]
    exact List.append_nil _

/-- Two indexes with the same payloads that have noted the same. -/
structure Matches (x y : AnnotationIndex π) : Prop where
  entries : x.entries = y.entries
  changed : x.changed = y.changed

theorem Matches.call (h : x.Matches y) (hc : c.mutates = true) :
    (x.call kind c).Matches (y.call kind c) := by
  cases c with
  | update file range delta =>
    refine ⟨?_, rfl⟩
    show x.entries.put file _ = y.entries.put file _
    rw [entriesOf, entriesOf, h.entries]
  | clearFile file =>
    refine ⟨?_, ?_⟩
    · show x.entries.erase file = y.entries.erase file
      rw [h.entries]
    · show (x.changed || _) = (y.changed || _)
      rw [entriesOf, entriesOf, h.entries, h.changed]
  | render | takeChanged | clear | entries | files | lookup | hoverText => cases hc

theorem Matches.query (h : x.Matches y) (htake : c ≠ .takeChanged) (hclear : c ≠ .clear)
    (hc : c.mutates = false) : (x.call kind c).Matches y := by
  cases c with
  | update | clearFile => cases hc
  | takeChanged => exact absurd rfl htake
  | clear => exact absurd rfl hclear
  | render file =>
    exact ⟨(entries_render kind x file).trans h.entries,
      (changed_render kind x file).trans h.changed⟩
  | entries | files | lookup | hoverText => exact h

/-! ## Between two times of asking -/

section Between

variable {before between : List (IndexCall δ)}

theorem forall_mem_concat {P : IndexCall δ → Prop} (h : ∀ d ∈ between ++ [c], P d) :
    (∀ d ∈ between, P d) ∧ P c :=
  ⟨fun d hd => h d (List.mem_append_left _ hd), h c (by simp)⟩

theorem changed_after_iff (hstart : (after kind before).changed = false)
    (hquiet : ∀ c ∈ between, c ≠ .takeChanged ∧ c ≠ .clear) :
    (after kind (before ++ between)).changed = true ↔ ∃ earlier c later,
      between = earlier ++ c :: later ∧ c.Alters (after kind (before ++ earlier)) := by
  induction between using List.reverseRecOn with
  | nil => simp [hstart]
  | append_singleton between last ih =>
    obtain ⟨hquiet, htake, hclear⟩ := forall_mem_concat hquiet
    rw [← List.append_assoc, after_concat, changed_call _ htake hclear, ih hquiet]
    constructor
    · intro h
      rcases h with ⟨earlier, c, later, rfl, halters⟩ | halters
      · exact ⟨earlier, c, later ++ [last], by simp, halters⟩
      · exact ⟨between, last, [], rfl, halters⟩
    · intro ⟨earlier, c, later, hsplit, halters⟩
      induction later using List.reverseRecOn with
      | nil =>
        obtain ⟨rfl, hc⟩ := List.append_inj' hsplit rfl
        cases hc
        exact .inr halters
      | append_singleton later d _ =>
        have hrest : between ++ [last] = (earlier ++ c :: later) ++ [d] := by
          rw [hsplit, List.append_assoc, List.cons_append]
        exact .inl ⟨earlier, c, later, (List.append_inj' hrest rfl).1, halters⟩

/-- As long as nothing is noted the log stays the same. -/
theorem updatesOf_unchanged (hquiet : ∀ c ∈ between, c ≠ .takeChanged ∧ c ≠ .clear)
    (h : (after kind (before ++ between)).changed = false) :
    updatesOf (before ++ between) = updatesOf before := by
  induction between using List.reverseRecOn with
  | nil => rw [List.append_nil]
  | append_singleton between last ih =>
    obtain ⟨hquiet, htake, hclear⟩ := forall_mem_concat hquiet
    rw [← List.append_assoc, after_concat] at h
    obtain ⟨hsame, hlast⟩ :=
      not_or.mp (mt (changed_call _ htake hclear).mpr (Bool.eq_false_iff.mp h))
    rw [← List.append_assoc, updatesOf_concat_of_not_alters hclear hlast]
    exact ih hquiet (Bool.eq_false_iff.mpr hsame)

theorem matches_filter (hquiet : ∀ c ∈ between, c ≠ .takeChanged ∧ c ≠ .clear) :
    (after kind (before ++ between)).Matches
      (after kind (before ++ between.filter IndexCall.mutates)) := by
  induction between using List.reverseRecOn with
  | nil => exact ⟨rfl, rfl⟩
  | append_singleton between last ih =>
    obtain ⟨hquiet, htake, hclear⟩ := forall_mem_concat hquiet
    rw [← List.append_assoc, after_concat, List.filter_append, ← List.append_assoc]
    cases hm : last.mutates with
    | true =>
      rw [List.filter_cons_of_pos hm, List.filter_nil, after_concat]
      exact (ih hquiet).call hm
    | false =>
      rw [List.filter_cons_of_neg (by simp [hm]), List.filter_nil, List.append_nil]
      exact (ih hquiet).query htake hclear hm

/-- **No change of an index goes unnoticed**, as long as it is not cleared. Between two times of
asking a change is told exactly if there was an update, or a file with payloads was forgotten; if
none is told, every file has the payloads and the annotations that it had, and so have the files
their order; and calls that only look change nothing of the answer. -/
theorem takeChanged_tells_changes (kind : AnnotationKind π δ)
    (hasked : before = [] ∨ ∃ earlier, before = earlier ++ [.takeChanged])
    (hquiet : ∀ c ∈ between, c ≠ .takeChanged ∧ c ≠ .clear) :
    ((after kind (before ++ between)).takeChanged.1 = true ↔ ∃ earlier c later,
      between = earlier ++ c :: later ∧ c.Alters (after kind (before ++ earlier))) ∧
    ((after kind (before ++ between)).takeChanged.1 = false →
      (after kind (before ++ between)).files = (after kind before).files ∧
      ∀ file,
        (after kind (before ++ between)).entriesOf file = (after kind before).entriesOf file ∧
        ((after kind (before ++ between)).render kind file).annotations =
          ((after kind before).render kind file).annotations) ∧
    (after kind (before ++ between)).takeChanged.1 =
      (after kind (before ++ between.filter IndexCall.mutates)).takeChanged.1 := by
  have hstart : (after kind before).changed = false := by
    rcases hasked with rfl | ⟨earlier, rfl⟩
    · rfl
    · rw [after_concat]
      rfl
  refine ⟨changed_after_iff hstart hquiet, fun h => ?_, (matches_filter hquiet).changed⟩
  have hlog := updatesOf_unchanged hquiet h
  have hnow := reflects_after kind (before ++ between)
  have hthen := reflects_after kind before
  rw [hlog] at hnow
  refine ⟨hnow.files.trans hthen.files.symm, fun file => ?_⟩
  have hentries := (hnow.entries file).trans (hthen.entries file).symm
  refine ⟨hentries, ?_⟩
  rw [(current_after kind _).annotations_render, (current_after kind _).annotations_render,
    hentries]

/-! That a file is drawn, or one without payloads forgotten, is no change; that a file with payloads
is forgotten is one. -/

def askedOnce : List (IndexCall Triggers) :=
  [.update "a.rs" .dummy ⟨"q", "t"⟩, .takeChanged]

theorem takeChanged_tells_changes_forgotten :
    (∀ file, (after triggerKind (askedOnce ++ [.render "a.rs", .clearFile "b.rs"])).entriesOf file =
      (after triggerKind askedOnce).entriesOf file) ∧
    (after triggerKind (askedOnce ++ [.render "a.rs", .clearFile "a.rs"])).takeChanged.1 = true := by
  have hasked : askedOnce = [] ∨ ∃ earlier, askedOnce = earlier ++ [.takeChanged] :=
    .inr ⟨[.update "a.rs" .dummy ⟨"q", "t"⟩], rfl⟩
  have hquiet : ∀ file : Text, ∀ c ∈ [IndexCall.render "a.rs", .clearFile file],
      c ≠ (.takeChanged : IndexCall Triggers) ∧ c ≠ .clear := by simp
  constructor
  · have hsame := (takeChanged_tells_changes triggerKind hasked (hquiet "b.rs")).2.1 (by rfl)
    exact fun file => (hsame.2 file).1
  · refine (takeChanged_tells_changes triggerKind hasked (hquiet "a.rs")).1.mpr
      ⟨[.render "a.rs"], .clearFile "a.rs", [], rfl, ?_⟩
    exact List.cons_ne_nil _ _

end Between

end AnnotationIndex

end VerifierHost
