import Mathlib.Data.List.Nodup
import VerifierHost.Proofs.Annotation.Log
import VerifierHost.Proofs.Source.Hull

/-! # The innermost of ranges

The search for the innermost range around a position never goes back to a candidate that it has
passed over, and does not have to: what was not inside the best one then is not inside a smaller one
later. So its result is minimal, and where the ranges around a position are nested in each other it
does not depend on the order in which they come. -/

namespace VerifierHost

namespace Range

variable {α : Type} {candidates candidates' : List (Range × α)} {p : Position} {c d : Range × α}

theorem innermost_nil (p : Position) : innermost ([] : List (Range × α)) p = none := rfl

theorem innermost_concat (candidates : List (Range × α)) (d : Range × α) (p : Position) :
    innermost (candidates ++ [d]) p =
      if d.1.Covers p then
        match innermost candidates p with
        | none => some d
        | some b => if b.1.Contains d.1 then some d else some b
      else innermost candidates p := by
  rw [innermost, List.foldl_append]
  cases h : innermost candidates p <;> simp [innermost] at h ⊢ <;> rw [h]

/-- An innermost candidate: it covers the position, no other one that does is strictly inside it,
and those of its range come before it. -/
structure IsInnermost (candidates : List (Range × α)) (p : Position) (c : Range × α) : Prop where
  covers : c.1.Covers p
  minimal : ∀ d ∈ candidates, d.1.Covers p → c.1.Contains d.1 → d.1 = c.1
  last : ∃ before after, candidates = before ++ c :: after ∧ ∀ d ∈ after, d.1 ≠ c.1

theorem IsInnermost.mem (h : IsInnermost candidates p c) : c ∈ candidates := by
  obtain ⟨before, after, hsplit, -⟩ := h.last
  simp [hsplit]

/-- A candidate that does not lie inside the innermost one changes nothing. -/
theorem IsInnermost.skip (h : IsInnermost candidates p c)
    (hd : d.1.Covers p → ¬ c.1.Contains d.1) : IsInnermost (candidates ++ [d]) p c := by
  have hne : d.1 ≠ c.1 := by
    intro he
    exact hd (he ▸ h.covers) (he ▸ contains_refl c.1)
  obtain ⟨before, after, hsplit, hafter⟩ := h.last
  refine ⟨h.covers, ?_, before, after ++ [d], by simp [hsplit], ?_⟩
  · intro e he hcovers hcontains
    rcases List.mem_append.mp he with he | he
    · exact h.minimal e he hcovers hcontains
    · rw [List.mem_singleton.mp he] at hcovers hcontains
      exact absurd hcontains (hd hcovers)
  · intro e he
    rcases List.mem_append.mp he with he | he
    · exact hafter e he
    · rwa [List.mem_singleton.mp he]

/-- A candidate inside the innermost one is innermost after it. -/
theorem IsInnermost.narrow (h : IsInnermost candidates p c) (hd : d.1.Covers p)
    (hinside : c.1.Contains d.1) : IsInnermost (candidates ++ [d]) p d := by
  refine ⟨hd, ?_, candidates, [], rfl, by simp⟩
  intro e he hcovers hcontains
  rcases List.mem_append.mp he with he | he
  · -- what is inside the new range was inside the old one, and so has the range of the old one
    have hold := h.minimal e he hcovers (hinside.trans hcontains)
    exact (hold ▸ hinside).antisymm hcontains
  · rw [List.mem_singleton.mp he]

/-- **The search finds an innermost candidate**, and none only if no candidate covers the
position. -/
theorem innermost_spec (candidates : List (Range × α)) (p : Position) :
    match innermost candidates p with
    | none => ∀ c ∈ candidates, ¬ c.1.Covers p
    | some c => IsInnermost candidates p c := by
  induction candidates using List.reverseRecOn with
  | nil => simp [innermost_nil]
  | append_singleton candidates d ih =>
    rw [innermost_concat]
    by_cases hd : d.1.Covers p
    · rw [if_pos hd]
      cases hbest : innermost candidates p with
      | none =>
        rw [hbest] at ih
        refine ⟨hd, ?_, candidates, [], rfl, by simp⟩
        intro e he hcovers _
        rcases List.mem_append.mp he with he | he
        · exact absurd hcovers (ih e he)
        · rw [List.mem_singleton.mp he]
      | some c =>
        rw [hbest] at ih
        by_cases hinside : c.1.Contains d.1
        · simpa [hinside] using ih.narrow hd hinside
        · simpa [hinside] using ih.skip fun _ => hinside
    · rw [if_neg hd]
      cases hbest : innermost candidates p with
      | none =>
        rw [hbest] at ih
        intro e he
        rcases List.mem_append.mp he with he | he
        · exact ih e he
        · rwa [List.mem_singleton.mp he]
      | some c =>
        rw [hbest] at ih
        exact ih.skip fun h => absurd h hd

theorem innermost_eq_none_iff :
    innermost candidates p = none ↔ ∀ c ∈ candidates, ¬ c.1.Covers p := by
  have hspec := innermost_spec candidates p
  cases hc : innermost candidates p with
  | none =>
    rw [hc] at hspec
    simpa using hspec
  | some c =>
    rw [hc] at hspec
    simp only [reduceCtorEq, false_iff]
    exact fun h => h c hspec.mem hspec.covers

theorem isInnermost_of_innermost (h : innermost candidates p = some c) :
    IsInnermost candidates p c := by
  have hspec := innermost_spec candidates p
  rwa [h] at hspec

/-! ## Nested ranges -/

/-- The ranges around a position are nested in each other, and no two of them are the same. -/
structure Nested (candidates : List (Range × α)) (p : Position) : Prop where
  chain : ∀ c ∈ candidates, ∀ d ∈ candidates, c.1.Covers p → d.1.Covers p →
    c.1.Contains d.1 ∨ d.1.Contains c.1
  distinct : ((candidates.filter fun c => c.1.Covers p).map Prod.fst).Nodup

/-- Nested ranges have one innermost candidate, wherever the candidates stand. -/
theorem Nested.innermost_unique (h : Nested candidates p) (hperm : candidates'.Perm candidates)
    (hc : IsInnermost candidates p c) (hd : IsInnermost candidates' p d) : d = c := by
  have hmem : d ∈ candidates := hperm.mem_iff.mp hd.mem
  have hrange : d.1 = c.1 := by
    rcases h.chain c hc.mem d hmem hc.covers hd.covers with hinside | hinside
    · exact hc.minimal d hmem hd.covers hinside
    · exact (hd.minimal c (hperm.mem_iff.mpr hc.mem) hc.covers hinside).symm
  have hfiltered : ∀ e ∈ candidates, e.1.Covers p →
      e ∈ candidates.filter fun c => c.1.Covers p := fun e he hp =>
    List.mem_filter.mpr ⟨he, by simpa using hp⟩
  exact List.inj_on_of_nodup_map h.distinct (hfiltered d hmem hd.covers)
    (hfiltered c hc.mem hc.covers) hrange

theorem innermost_perm (h : Nested candidates p) (hperm : candidates'.Perm candidates) :
    innermost candidates' p = innermost candidates p := by
  cases hc : innermost candidates p with
  | none =>
    rw [innermost_eq_none_iff] at hc ⊢
    exact fun c hm => hc c (hperm.mem_iff.mp hm)
  | some c =>
    have hinner := isInnermost_of_innermost hc
    cases hd : innermost candidates' p with
    | none =>
      exact absurd hinner.covers (innermost_eq_none_iff.mp hd c (hperm.mem_iff.mpr hinner.mem))
    | some d => rw [h.innermost_unique hperm hinner (isInnermost_of_innermost hd)]

end Range

/-! ## What is said about a position -/

section Remarks

variable {π δ : Type} {kind : AnnotationKind π δ} {log log' : List (Place × δ)} {file : Text}
  {p : Position}

theorem mem_entriesIn {row : Range × π} : row ∈ entriesIn kind log file ↔
    mergeAll kind (updatesAt log (file, row.1)) = some row.2 := by
  have hnodup : (entriesIn kind log file).keys.Nodup := by
    rw [keys_entriesIn]
    exact nodup_eraseDups _
  rw [← get?_entriesIn]
  exact ⟨Table.get?_of_mem hnodup, Table.mem_of_get?⟩

/-- The payloads of a file stand in some order; what they are depends on the updates of each
range. -/
theorem entriesIn_perm
    (h : ∀ range, updatesAt log' (file, range) = updatesAt log (file, range)) :
    (entriesIn kind log' file).Perm (entriesIn kind log file) := by
  have hnodup : ∀ log : List (Place × δ), (entriesIn kind log file).Nodup := fun log => by
    refine List.Nodup.of_map Prod.fst ?_
    have hkeys := keys_entriesIn kind log file
    rw [Table.keys] at hkeys
    rw [hkeys]
    exact nodup_eraseDups _
  refine (List.perm_ext_iff_of_nodup (hnodup log') (hnodup log)).mpr fun row => ?_
  rw [mem_entriesIn, mem_entriesIn, h]

/-- Each range has one payload, so nested ranges are all that is asked of a file. -/
theorem nested_entriesIn (h : ∀ r ∈ rangesIn log file, ∀ s ∈ rangesIn log file,
    r.Covers p → s.Covers p → r.Contains s ∨ s.Contains r) :
    Range.Nested (entriesIn kind log file) p := by
  have hkeys := keys_entriesIn kind log file
  have hrange : ∀ c ∈ entriesIn kind log file, c.1 ∈ rangesIn log file := fun c hc => by
    rw [← hkeys]
    exact List.mem_map_of_mem hc
  refine ⟨fun c hc d hd => h c.1 (hrange c hc) d.1 (hrange d hd), ?_⟩
  have hsublist : ((entriesIn kind log file).filter fun c => c.1.Covers p).map Prod.fst |>.Sublist
      ((entriesIn kind log file).map Prod.fst) := List.filter_sublist.map _
  refine hsublist.nodup ?_
  rw [Table.keys] at hkeys
  rw [hkeys]
  exact nodup_eraseDups _

end Remarks

/-- **The innermost of some candidates.** There is none exactly if none covers the position.
Otherwise it is a candidate that does, none that does is strictly inside it, and of those with its
range it is the last. Where the ranges around the position are nested and differ from each other it
is the same in whatever order the candidates come. So what an index says about a position between
nested ranges depends on the updates of each range, but not on how they came in between each
other. -/
theorem Range.innermost_isMinimal {α π δ : Type} (candidates : List (Range × α)) (p : Position) :
    (innermost candidates p = none ↔ ∀ c ∈ candidates, ¬ c.1.Covers p) ∧
    (∀ c, innermost candidates p = some c → c ∈ candidates ∧ c.1.Covers p ∧
      (∀ d ∈ candidates, d.1.Covers p → ¬ (c.1.Contains d.1 ∧ d.1 ≠ c.1)) ∧
      ∃ before after, candidates = before ++ c :: after ∧ ∀ d ∈ after, d.1 ≠ c.1) ∧
    (Nested candidates p → ∀ candidates' : List (Range × α), candidates'.Perm candidates →
      innermost candidates' p = innermost candidates p) ∧
    ∀ (kind : AnnotationKind π δ) (calls calls' : List (IndexCall δ)) (file : Text),
      (∀ range, updatesAt (updatesOf calls') (file, range) =
        updatesAt (updatesOf calls) (file, range)) →
      (∀ r ∈ rangesIn (updatesOf calls) file, ∀ s ∈ rangesIn (updatesOf calls) file,
        r.Covers p → s.Covers p → r.Contains s ∨ s.Contains r) →
      (AnnotationIndex.after kind calls').lookup file p =
          (AnnotationIndex.after kind calls).lookup file p ∧
        (AnnotationIndex.after kind calls').hoverText kind file p =
          (AnnotationIndex.after kind calls).hoverText kind file p := by
  refine ⟨innermost_eq_none_iff, fun c hc => ?_, fun h candidates' hperm =>
    innermost_perm h hperm, fun kind calls calls' file hupdates hnested => ?_⟩
  · have hinner := isInnermost_of_innermost hc
    exact ⟨hinner.mem, hinner.covers, fun d hd hcovers ⟨hinside, hne⟩ =>
      hne (hinner.minimal d hd hcovers hinside), hinner.last⟩
  · have hentries := (AnnotationIndex.reflects_after kind calls).entries file
    have hentries' := (AnnotationIndex.reflects_after kind calls').entries file
    have hlookup : (AnnotationIndex.after kind calls').lookup file p =
        (AnnotationIndex.after kind calls).lookup file p := by
      rw [AnnotationIndex.lookup, AnnotationIndex.lookup, hentries, hentries']
      exact innermost_perm (nested_entriesIn hnested) (entriesIn_perm hupdates)
    refine ⟨hlookup, ?_⟩
    rw [AnnotationIndex.hoverText, AnnotationIndex.hoverText, hlookup]

end VerifierHost
