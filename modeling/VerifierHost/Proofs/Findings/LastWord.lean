import Mathlib.Data.List.DropRight
import VerifierHost.Proofs.Findings.Calls

/-! # The last word on a method

A file is decorated by the calls since it was last forgotten: each method whose range was recorded
has one decoration, in the order in which the methods came first, at the range that was recorded
last and with the verdict that was recorded last. -/

namespace VerifierHost

/-! ## What is recorded -/

namespace FindingsCall

/-- The method of a file and its range, where one is recorded. -/
def methodRange? (file : Text) : FindingsCall → Option (Text × Range)
  | .recordMethod f method range => if f = file then some (method, range) else none
  | _ => none

/-- The verdict on a method of a file, where one is recorded. -/
def verdictOn? (file method : Text) : FindingsCall → Option Verdict
  | .recordVerdict v => if v.file = file ∧ v.method = method then some v else none
  | _ => none

/-- Whether a call bears on a file with these methods. What is said about other files does not, nor
does a verdict on another method. -/
def bearsOn (file : Text) (methods : List Text) : FindingsCall → Bool
  | .recordMethod f .. | .clearFile f => f = file
  | .recordVerdict v => v.file = file ∧ v.method ∈ methods
  | .clear => true
  | .instantiations _ | .triggers _ => false

end FindingsCall

/-- The calls since a file was last forgotten. -/
def recentCalls (file : Text) (calls : List FindingsCall) : List FindingsCall :=
  calls.rtakeWhile fun c => !c.forgets file

/-- The methods of a file and their ranges, one after the other as they were recorded. -/
def rangesRecorded (file : Text) (calls : List FindingsCall) : Table Text Range :=
  calls.filterMap (·.methodRange? file)

/-- The methods of a file with a range, each where it first came. -/
def methodsRecorded (file : Text) (calls : List FindingsCall) : List Text :=
  (rangesRecorded file calls).keys.eraseDups

/-- The verdicts on a method of a file, one after the other as they were recorded. -/
def verdictsRecorded (file method : Text) (calls : List FindingsCall) : List Verdict :=
  calls.filterMap (·.verdictOn? file method)

section Recorded

variable {file : Text} {methods : List Text} {calls : List FindingsCall}

theorem recentCalls_concat (file : Text) (calls : List FindingsCall) (c : FindingsCall) :
    recentCalls file (calls ++ [c]) =
      if c.forgets file then [] else recentCalls file calls ++ [c] := by
  rw [recentCalls, List.rtakeWhile_concat]
  cases c.forgets file <;> rfl

theorem rangesRecorded_concat (file : Text) (calls : List FindingsCall) (c : FindingsCall) :
    rangesRecorded file (calls ++ [c]) =
      rangesRecorded file calls ++ (c.methodRange? file).toList := by
  rw [rangesRecorded, List.filterMap_append, rangesRecorded]
  cases hc : c.methodRange? file <;> simp [hc]

theorem verdictsRecorded_concat (file method : Text) (calls : List FindingsCall)
    (c : FindingsCall) : verdictsRecorded file method (calls ++ [c]) =
      verdictsRecorded file method calls ++ (c.verdictOn? file method).toList := by
  rw [verdictsRecorded, List.filterMap_append, verdictsRecorded]
  cases hc : c.verdictOn? file method <;> simp [hc]

/-- Calls that do not bear on a file are not those that forget it. -/
theorem recentCalls_filter (file : Text) (methods : List Text) (calls : List FindingsCall) :
    recentCalls file (calls.filter (·.bearsOn file methods)) =
      (recentCalls file calls).filter (·.bearsOn file methods) := by
  induction calls using List.reverseRecOn with
  | nil => rfl
  | append_singleton calls c ih =>
    rw [List.filter_append, recentCalls_concat]
    cases hc : c.bearsOn file methods with
    | true =>
      rw [List.filter_cons_of_pos hc, List.filter_nil, recentCalls_concat, ih]
      split
      next => rfl
      next => rw [List.filter_append, List.filter_cons_of_pos hc, List.filter_nil]
    | false =>
      have hforgets : c.forgets file = false := by
        cases c with
        | clearFile f => exact hc
        | clear => cases hc
        | instantiations | triggers | recordMethod | recordVerdict => rfl
      rw [List.filter_cons_of_neg (by simp [hc]), List.filter_nil, List.append_nil, ih, hforgets,
        if_neg Bool.false_ne_true, List.filter_append, List.filter_cons_of_neg (by simp [hc]),
        List.filter_nil, List.append_nil]

theorem filterMap_filter_of_none {α β : Type} {p : α → Bool} {g : α → Option β}
    (h : ∀ a, p a = false → g a = none) (l : List α) :
    (l.filter p).filterMap g = l.filterMap g := by
  rw [List.filterMap_filter]
  refine List.filterMap_congr fun a _ => ?_
  cases hp : p a with
  | true => rfl
  | false => exact (h a hp).symm

theorem rangesRecorded_filter (file : Text) (methods : List Text) (calls : List FindingsCall) :
    rangesRecorded file (calls.filter (·.bearsOn file methods)) = rangesRecorded file calls := by
  refine filterMap_filter_of_none (fun c hc => ?_) calls
  cases c with
  | recordMethod f method range => exact if_neg (of_decide_eq_false hc)
  | instantiations | triggers | recordVerdict | clearFile | clear => rfl

theorem verdictsRecorded_filter {method : Text} (h : method ∈ methods)
    (calls : List FindingsCall) :
    verdictsRecorded file method (calls.filter (·.bearsOn file methods)) =
      verdictsRecorded file method calls := by
  refine filterMap_filter_of_none (fun c hc => ?_) calls
  cases c with
  | recordVerdict v =>
    have hother : ¬ (v.file = file ∧ v.method ∈ methods) := of_decide_eq_false hc
    exact if_neg fun ⟨hfile, hmethod⟩ => hother ⟨hfile, hmethod ▸ h⟩
  | instantiations | triggers | recordMethod | clearFile | clear => rfl

end Recorded

/-! ## What is kept of it -/

namespace Findings

variable {f : Findings} {file method : Text}

/-- The ranges of the methods of a file. -/
def rangesOf (f : Findings) (file : Text) : Table Text Range :=
  (f.methodRanges.filter fun row => row.1.1 = file).map fun row => (row.1.2, row.2)

theorem rangesOf_recordMethod (f : Findings) (g method : Text) (range : Range) (file : Text) :
    (f.recordMethod g method range).rangesOf file =
      if g = file then (f.rangesOf file).put method range else f.rangesOf file := by
  have hput := Table.filter_put (fun key : Text × Text => decide (key.1 = file)) f.methodRanges
    (g, method) range
  show ((f.methodRanges.put (g, method) range).filter _).map _ = _
  rw [hput]
  by_cases hg : g = file
  · subst hg
    rw [if_pos rfl, if_pos (decide_eq_true rfl), rangesOf]
    refine Table.map_put Prod.snd (fun row hrow hname => ?_) range
    exact Prod.ext (of_decide_eq_true (List.mem_filter.mp hrow).2) hname
  · rw [if_neg hg, if_neg (by simpa using hg)]
    rfl

theorem rangesOf_clearFile (f : Findings) (g file : Text) :
    (f.clearFile g).rangesOf file = if g = file then [] else f.rangesOf file := by
  show ((f.methodRanges.filter fun row => row.1.1 ≠ g).filter _).map _ = _
  rw [List.filter_filter]
  by_cases hg : g = file
  · subst hg
    simp
  · rw [if_neg hg, rangesOf]
    refine congrArg _ (List.filter_congr fun row _ => ?_)
    by_cases hrow : row.1.1 = file <;> simp [hrow, Ne.symm hg]

/-- One call puts the range that it records. -/
theorem rangesOf_call (f : Findings) (c : FindingsCall) (file : Text) :
    (f.call c).rangesOf file =
      if c.forgets file then [] else (f.rangesOf file).putAll (c.methodRange? file).toList := by
  cases c with
  | recordMethod g method range =>
    refine (rangesOf_recordMethod f g method range file).trans ?_
    by_cases hg : g = file <;> simp [FindingsCall.forgets, FindingsCall.methodRange?, hg]
  | clearFile g =>
    refine (rangesOf_clearFile f g file).trans ?_
    by_cases hg : g = file <;> simp [FindingsCall.forgets, FindingsCall.methodRange?, hg]
  | clear => rfl
  | instantiations | triggers | recordVerdict => rfl

theorem rangesOf_after (calls : List FindingsCall) (file : Text) :
    (after calls).rangesOf file =
      Table.putAll [] (rangesRecorded file (recentCalls file calls)) := by
  induction calls using List.reverseRecOn with
  | nil => rfl
  | append_singleton calls c ih =>
    rw [after_concat, rangesOf_call, recentCalls_concat, ih]
    split
    next => rfl
    next => rw [rangesRecorded_concat, Table.putAll, Table.putAll, Table.putAll, List.foldl_append]

theorem verdict?_recordVerdict (f : Findings) (v : Verdict) (file method : Text) :
    (f.recordVerdict v).verdict? file method =
      if v.file = file ∧ v.method = method then some v else f.verdict? file method := by
  unfold verdict? recordVerdict
  dsimp only
  rw [List.reverse_append, List.reverse_singleton, List.singleton_append, List.find?_cons]
  by_cases hv : v.file = file ∧ v.method = method
  · rw [if_pos hv]
    simp [hv]
  · have hfalse : (decide (v.file = file) && decide (v.method = method)) = false := by
      simpa using hv
    rw [if_neg hv, hfalse, ← List.filter_reverse, List.find?_filter]
    refine congrArg (List.find? · f.verdicts.reverse) (funext fun w => ?_)
    -- a verdict that is left out is on the method of the new one, which is not this one
    by_cases hw : w.file = file ∧ w.method = method
    · have hne : (w.file, w.method) ≠ (v.file, v.method) := fun he =>
        hv ⟨(congrArg Prod.fst he).symm.trans hw.1, (congrArg Prod.snd he).symm.trans hw.2⟩
      simp only [decide_eq_true hne, true_and, Bool.decide_eq_true]
    · have hnot : (decide (w.file = file) && decide (w.method = method)) = false := by
        simpa using hw
      simp [hnot]

theorem verdict?_clearFile (f : Findings) (g file method : Text) :
    (f.clearFile g).verdict? file method = if g = file then none else f.verdict? file method := by
  unfold verdict? clearFile
  dsimp only
  rw [← List.filter_reverse, List.find?_filter]
  by_cases hg : g = file
  · subst hg
    rw [if_pos rfl]
    exact List.find?_eq_none.mpr fun w _ => by by_cases hw : w.file = g <;> simp [hw]
  · rw [if_neg hg]
    refine congrArg (List.find? · f.verdicts.reverse) (funext fun w => ?_)
    by_cases hw : w.file = file <;> simp [hw, Ne.symm hg]

/-- One call replaces the verdict by the one that it records. -/
theorem verdict?_call (f : Findings) (c : FindingsCall) (file method : Text) :
    (f.call c).verdict? file method =
      if c.forgets file then none
      else (c.verdictOn? file method).or (f.verdict? file method) := by
  cases c with
  | recordVerdict v =>
    refine (verdict?_recordVerdict f v file method).trans ?_
    by_cases hv : v.file = file ∧ v.method = method <;>
      simp [FindingsCall.forgets, FindingsCall.verdictOn?, hv]
  | clearFile g =>
    refine (verdict?_clearFile f g file method).trans ?_
    by_cases hg : g = file <;> simp [FindingsCall.forgets, FindingsCall.verdictOn?, hg]
  | clear => rfl
  | instantiations | triggers | recordMethod => rfl

theorem verdict?_after (calls : List FindingsCall) (file method : Text) :
    (after calls).verdict? file method =
      (verdictsRecorded file method (recentCalls file calls)).getLast? := by
  induction calls using List.reverseRecOn with
  | nil => rfl
  | append_singleton calls c ih =>
    rw [after_concat, verdict?_call, recentCalls_concat, ih]
    split
    next => rfl
    next =>
      rw [verdictsRecorded_concat, List.getLast?_append]
      cases c.verdictOn? file method <;> rfl

/-- There is at most one verdict on each method of each file. -/
theorem nodup_verdicts (calls : List FindingsCall) :
    ((after calls).verdicts.map fun v => (v.file, v.method)).Nodup := by
  induction calls using List.reverseRecOn with
  | nil => exact List.nodup_nil
  | append_singleton calls c ih =>
    rw [after_concat]
    have hfilter : ∀ p : Verdict → Bool,
        (((after calls).verdicts.filter p).map fun v => (v.file, v.method)).Nodup := fun p =>
      ih.sublist (List.filter_sublist.map _)
    cases c with
    | recordVerdict v =>
      show ((_ ++ [v]).map fun v => (v.file, v.method)).Nodup
      rw [List.map_append]
      refine List.nodup_append.mpr ⟨hfilter _, by simp, ?_⟩
      intro key hkey other hother
      obtain ⟨w, hw, rfl⟩ := List.mem_map.mp hkey
      rw [List.mem_singleton.mp hother]
      exact of_decide_eq_true (List.mem_filter.mp hw).2
    | clearFile g => exact hfilter _
    | clear => exact List.nodup_nil
    | instantiations | triggers | recordMethod => exact ih

/-! ## Decorations -/

theorem decorations_eq (f : Findings) (file : Text) : f.decorations file =
    (f.rangesOf file).map fun row => f.decorationOf file row.1 row.2 := by
  rw [rangesOf, List.map_map]
  rfl

theorem decorationOf_congr {g : Findings}
    (h : f.verdict? file method = g.verdict? file method) (range : Range) :
    f.decorationOf file method range = g.decorationOf file method range := by
  rw [decorationOf, decorationOf, h]

theorem mem_rangesOf_after {calls : List FindingsCall} {row : Text × Range}
    (h : row ∈ (after calls).rangesOf file) :
    row.1 ∈ methodsRecorded file (recentCalls file calls) := by
  rw [methodsRecorded, ← Table.keys_putAll_nil, ← rangesOf_after]
  exact List.mem_map_of_mem h

/-- What the decoration of a method shows after some calls. -/
structure Decorates (file : Text) (calls : List FindingsCall) (method : Text) (d : Decoration) :
    Prop where
  /-- It starts where the last of the ranges does, and stays on that line. -/
  range : ∃ row, ((rangesRecorded file calls).filter (·.1 = method)).getLast? = some row ∧
    d.range.start = row.2.start ∧ d.range.stop.line = row.2.start.line
  /-- It goes to the end of the line. -/
  stop : ∀ character : Coordinate, character ≤ d.range.stop.character
  /-- It shows the last of the verdicts, if there is any. -/
  verdict : match (verdictsRecorded file method calls).getLast? with
    | none => d.style = .notVerified ∧ d.timeMs = none ∧ d.cached = none
    | some v => d.style = (if v.success then .success else .failure) ∧ d.timeMs = v.timeMs ∧
        d.cached = some v.cached

theorem decorates_decorationOf (calls : List FindingsCall) {row : Text × Range}
    (h : row ∈ (after calls).rangesOf file) :
    Decorates file (recentCalls file calls) row.1
      ((after calls).decorationOf file row.1 row.2) := by
  have hnodup : ((after calls).rangesOf file).keys.Nodup := by
    rw [rangesOf_after, Table.keys_putAll_nil]
    exact nodup_eraseDups _
  have hlast : ((rangesRecorded file (recentCalls file calls)).filter (·.1 = row.1)).getLast?.map
      Prod.snd = some row.2 := by
    have hget := Table.get?_of_mem hnodup h
    rwa [rangesOf_after, Table.get?_putAll, ← List.getLast?_filter, Table.get?, Option.or_none]
      at hget
  obtain ⟨last, hlast, hrange⟩ := Option.map_eq_some_iff.mp hlast
  have hstop : ∀ character : Coordinate, character ≤ lineEnd := fun character =>
    Nat.le_of_lt_succ character.isLt
  rw [decorationOf, verdict?_after]
  split
  next hv => exact ⟨⟨last, hlast, by rw [hrange]; exact ⟨rfl, rfl⟩⟩, hstop, by rw [hv]; simp⟩
  next v hv => exact ⟨⟨last, hlast, by rw [hrange]; exact ⟨rfl, rfl⟩⟩, hstop, by rw [hv]; simp⟩

/-- **The last word on a method decorates it**, whatever was called. A file has one decoration for
each method whose range was recorded since the file was last forgotten, in the order in which the
methods came, for the last range and the last verdict since then. There is one verdict at most on a
method of a file; verdicts on methods without a range, and what is said about other files, change
nothing. -/
theorem decorations_after (calls : List FindingsCall) (file : Text) :
    List.Forall₂ (Decorates file (recentCalls file calls))
      (methodsRecorded file (recentCalls file calls)) ((after calls).decorations file) ∧
    ((after calls).verdicts.map fun v => (v.file, v.method)).Nodup ∧
    (after (calls.filter
      (·.bearsOn file (methodsRecorded file (recentCalls file calls))))).decorations file =
        (after calls).decorations file := by
  refine ⟨?_, nodup_verdicts calls, ?_⟩
  · rw [methodsRecorded, ← Table.keys_putAll_nil, ← rangesOf_after, decorations_eq, Table.keys,
      List.forall₂_map_left_iff, List.forall₂_map_right_iff, List.forall₂_same]
    exact fun row hrow => decorates_decorationOf calls hrow
  · rw [decorations_eq, decorations_eq, rangesOf_after, recentCalls_filter, rangesRecorded_filter,
      ← rangesOf_after]
    refine List.map_congr_left fun row hrow => decorationOf_congr ?_ row.2
    rw [verdict?_after, recentCalls_filter, verdictsRecorded_filter (mem_rangesOf_after hrow),
      ← verdict?_after]

end Findings

end VerifierHost
