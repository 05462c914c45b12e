import VerifierHost.Proofs.Diagnostic.Flattening

/-! # The least range around others

Ranges are ordered by inclusion, whether they are inverted or not, and every list of ranges but the
empty one has a least range around it. That range depends on the members of the list alone, so its
order, repeated members and how they are grouped do not matter; `union` is the case of two. -/

namespace VerifierHost.Range

variable {a b r : Range} {parts parts' : List Range} {groups : List (List Range)}

theorem Contains.antisymm (h : a.Contains b) (h' : b.Contains a) : a = b := by
  obtain ⟨start, stop⟩ := a
  obtain ⟨start', stop'⟩ := b
  have hstart : start = start' := Position.le_antisymm h.1 h'.1
  have hstop : stop = stop' := Position.le_antisymm h'.2 h.2
  rw [hstart, hstop]

/-- The least of all ranges that contain these. -/
structure IsLeastAround (r : Range) (parts : List Range) : Prop where
  contains : ∀ a ∈ parts, r.Contains a
  least : ∀ outer : Range, (∀ a ∈ parts, outer.Contains a) → outer.Contains r

/-- A range whose ends are taken from its parts is no larger than it must be. -/
theorem Joins.isLeastAround (h : r.Joins parts) : r.IsLeastAround parts := by
  obtain ⟨first, hfirst, hstart⟩ := h.start
  obtain ⟨last, hlast, hstop⟩ := h.stop
  refine ⟨h.contains, fun outer houter => ⟨?_, ?_⟩⟩
  · rw [← hstart]
    exact (houter first hfirst).1
  · rw [← hstop]
    exact (houter last hlast).2

/-- The least range around others is in a range exactly if all of them are. -/
theorem isLeastAround_iff : r.IsLeastAround parts ↔
    ∀ outer : Range, outer.Contains r ↔ ∀ a ∈ parts, outer.Contains a := by
  constructor
  · intro h outer
    exact ⟨fun hr a ha => hr.trans (h.contains a ha), h.least outer⟩
  · intro h
    exact ⟨(h r).mp (contains_refl r), fun outer => (h outer).mpr⟩

namespace IsLeastAround

theorem eq (h : a.IsLeastAround parts) (h' : b.IsLeastAround parts) : a = b :=
  (h'.least a h.contains).antisymm (h.least b h'.contains)

/-- Only the members of a list count. -/
theorem congr (h : r.IsLeastAround parts) (he : ∀ a, a ∈ parts' ↔ a ∈ parts) :
    r.IsLeastAround parts' := by
  simpa [isLeastAround_iff, he] using h

/-- What is least around the least ranges of some groups is least around all their members. -/
theorem flatten (h : r.IsLeastAround parts) (hgroups : List.Forall₂ IsLeastAround parts groups) :
    r.IsLeastAround groups.flatten := by
  have hmembers : ∀ outer : Range, (∀ a ∈ parts, outer.Contains a) ↔
      ∀ b ∈ groups.flatten, outer.Contains b := by
    intro outer
    clear h
    induction hgroups with
    | nil => simp
    | cons hg _ ih =>
      rw [List.flatten_cons, List.forall_mem_cons, List.forall_mem_append, ih,
        isLeastAround_iff.mp hg outer]
  simpa [isLeastAround_iff, hmembers] using h

end IsLeastAround

theorem isLeastAround_singleton (r : Range) : r.IsLeastAround [r] :=
  (joins_singleton r).isLeastAround

/-- The union of ranges, one after the other, is the least range around them. -/
theorem isLeastAround_foldl (r : Range) (rest : List Range) :
    (rest.foldl union r).IsLeastAround (r :: rest) := (joins_foldl r rest).isLeastAround

theorem isLeastAround_union (a b : Range) : (a.union b).IsLeastAround [a, b] :=
  isLeastAround_foldl a [b]

theorem union_comm (a b : Range) : a.union b = b.union a :=
  (isLeastAround_union a b).eq ((isLeastAround_union b a).congr (by simp [or_comm]))

theorem union_assoc (a b c : Range) : (a.union b).union c = a.union (b.union c) := by
  have hpairs : List.Forall₂ IsLeastAround [a.union b, c] [[a, b], [c]] :=
    .cons (isLeastAround_union a b) (.cons (isLeastAround_singleton c) .nil)
  have hpairs' : List.Forall₂ IsLeastAround [a, b.union c] [[a], [b, c]] :=
    .cons (isLeastAround_singleton a) (.cons (isLeastAround_union b c) .nil)
  have hleft : ((a.union b).union c).IsLeastAround [a, b, c] :=
    (isLeastAround_union _ c).flatten hpairs
  have hright : (a.union (b.union c)).IsLeastAround [a, b, c] :=
    (isLeastAround_union a _).flatten hpairs'
  exact hleft.eq hright

theorem union_self (a : Range) : a.union a = a :=
  (isLeastAround_union a a).eq ((isLeastAround_singleton a).congr (by simp))

end VerifierHost.Range
