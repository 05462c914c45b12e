import VerifierHost.Proofs.Diagnostic.Places
import VerifierHost.Proofs.Source.Hull

/-! # Where several spans were called from

The range of a message is the least one around the places that its primary spans were called from.
So it does not matter in which order the spans come, whether one comes twice or how they are
grouped, nor where the macros on the way to those places are written. -/

namespace VerifierHost.Wire

variable {s t site : Span} {spans sites : List Span} {r merged : Range}

/-- A span has the range that it spells and no other. -/
theorem Span.range_eq_ok_iff : s.range = .ok r ↔ s.Spells r := by
  refine ⟨Span.spells_of_range, fun h => ?_⟩
  obtain ⟨r', hr'⟩ := Span.range_ok.mpr h.onMap
  have h' := Span.spells_of_range hr'
  obtain ⟨⟨line, character⟩, ⟨line', character'⟩⟩ := r
  obtain ⟨⟨l, c⟩, ⟨l', c'⟩⟩ := r'
  have hline := h.lineStart.symm.trans h'.lineStart
  have hcharacter := h.columnStart.symm.trans h'.columnStart
  have hline' := h.lineEnd.symm.trans h'.lineEnd
  have hcharacter' := h.columnEnd.symm.trans h'.columnEnd
  rw [hr']
  dsimp only at hline hcharacter hline' hcharacter'
  simp only [Except.ok.injEq, Range.mk.injEq, Position.mk.injEq, Fin.ext_iff]
  omega

/-! ## Merging -/

/-- The ranges that spans were called from. -/
def callRanges (spans : List Span) : List Range :=
  spans.filterMap fun s => s.callSite.range.toOption

theorem mem_callRanges :
    r ∈ callRanges spans ↔ ∃ s ∈ spans, ∃ site, s.CalledFrom site ∧ site.Spells r := by
  have hspan : ∀ s : Span,
      s.callSite.range.toOption = some r ↔ ∃ site, s.CalledFrom site ∧ site.Spells r := by
    intro s
    have hok : s.callSite.range.toOption = some r ↔ s.callSite.range = .ok r := by
      cases s.callSite.range <;> simp [Except.toOption]
    rw [hok, Span.range_eq_ok_iff]
    exact ⟨fun h => ⟨_, s.calledFrom_callSite, h⟩, fun ⟨site, hc, h⟩ => hc.eq ▸ h⟩
  simp only [callRanges, List.mem_filterMap, hspan]

theorem callRanges_congr {spans' : List Span} (h : ∀ s, s ∈ spans' ↔ s ∈ spans) (r : Range) :
    r ∈ callRanges spans' ↔ r ∈ callRanges spans := by
  simp only [mem_callRanges, h]

/-- All of these spans were called from places on the map. -/
def CalledOnMap (spans : List Span) : Prop :=
  ∀ s ∈ spans, ∀ site, s.CalledFrom site → site.OnMap

theorem rangesOf_callSites (h : CalledOnMap spans) :
    rangesOf (spans.map Span.callSite) = .ok (callRanges spans) := by
  induction spans with
  | nil => rfl
  | cons s rest ih =>
    obtain ⟨r, hr⟩ := Span.range_ok.mpr (h s List.mem_cons_self _ s.calledFrom_callSite)
    have hrest := ih fun t ht => h t (List.mem_cons_of_mem _ ht)
    have hranges : callRanges (s :: rest) = r :: callRanges rest :=
      List.filterMap_cons_some (by rw [hr]; rfl)
    rw [List.map_cons, rangesOf, hr, hrest, hranges]
    rfl

/-- **Spans on the map merge** into the least range around the places they were called from. -/
theorem mergedRange_callSites (hne : spans ≠ []) (h : CalledOnMap spans) :
    ∃ merged, mergedRange (spans.map Span.callSite) = .ok (some merged) ∧
      merged.IsLeastAround (callRanges spans) := by
  obtain ⟨s, hs⟩ := List.exists_mem_of_ne_nil spans hne
  obtain ⟨r, hr⟩ := Span.range_ok.mpr (h s hs _ s.calledFrom_callSite)
  have hmem : r ∈ callRanges spans :=
    mem_callRanges.mpr ⟨s, hs, _, s.calledFrom_callSite, Span.spells_of_range hr⟩
  unfold mergedRange
  rw [rangesOf_callSites h]
  cases hranges : callRanges spans with
  | nil => simp [hranges] at hmem
  | cons first rest => exact ⟨_, rfl, Range.isLeastAround_foldl first rest⟩

/-! ## What does not matter -/

/-- The same chain of expansions, in which the numbers of all spans below the last may be others. -/
inductive Span.Renumbers : Span → Span → Prop
  | site {s : Span} (outermost : s.expansion = none) : Renumbers s s
  | inner {s e e' : Span} (lineStart lineEnd columnStart columnEnd : Int)
      (inside : s.expansion = some e) (chain : Renumbers e e') :
      Renumbers s { s with lineStart, lineEnd, columnStart, columnEnd, expansion := some e' }

theorem Span.Renumbers.callSite (h : s.Renumbers t) : t.callSite = s.callSite := by
  induction h with
  | site => rfl
  | @inner s e e' _ _ _ _ inside _ ih =>
    obtain ⟨_, _, _, _, _, _, _, _⟩ := s
    cases inside
    exact ih

/-- Where spans that are merged group by group were called from. -/
theorem mergedRange_groups {groups : List (List Span)} (hne : ∀ g ∈ groups, g ≠ [])
    (h : CalledOnMap groups.flatten) : ∃ parts,
      List.Forall₂ (fun g part => mergedRange (g.map Span.callSite) = .ok (some part)) groups
          parts ∧
        List.Forall₂ Range.IsLeastAround parts (groups.map callRanges) := by
  induction groups with
  | nil => exact ⟨[], .nil, .nil⟩
  | cons g rest ih =>
    obtain ⟨part, hpart, hleast⟩ := mergedRange_callSites (hne g List.mem_cons_self)
      fun s hs => h s (List.mem_append_left _ hs)
    obtain ⟨parts, hparts, hleasts⟩ := ih (fun g' hg => hne g' (List.mem_cons_of_mem _ hg))
      fun s hs => h s (List.mem_append_right _ hs)
    exact ⟨part :: parts, .cons hpart hparts, .cons hleast hleasts⟩

theorem callRanges_flatten (groups : List (List Span)) :
    callRanges groups.flatten = (groups.map callRanges).flatten := List.filterMap_flatten ..

/-- The range of a message whose primary spans merge. -/
theorem Message.place_of_merged {m : Message} {o : Origin} (hs : primarySpans m = spans)
    (hne : spans ≠ [])
    (hmerged : mergedRange (spans.map Span.callSite) = .ok (some merged)) :
    ∃ file, m.place o = .ok (file, merged) := by
  unfold Message.place
  dsimp only
  rw [hs, hmerged]
  cases spans with
  | nil => exact absurd rfl hne
  | cons s rest => exact ⟨_, rfl⟩

/-- **The range of a message is the least one around the places that its primary spans were called
from.** Spans on the map always merge into such a range. It is that of every message with these
primary spans, it contains all the places, and whatever range contains them all contains it. Spans
that come in another order or more than once merge into the same, and so do the ranges of any groups
of them; and the numbers of a span below the place it was called from change nothing. -/
theorem mergedRange_isLeast (hne : spans ≠ []) (h : CalledOnMap spans) :
    (∃ merged, mergedRange (spans.map Span.callSite) = .ok (some merged) ∧
      (∀ m : Message, primarySpans m = spans → ∀ o, ∃ file, m.place o = .ok (file, merged)) ∧
      (∀ s ∈ spans, ∀ site r, s.CalledFrom site → site.Spells r → merged.Contains r) ∧
      (∀ outer : Range,
        (∀ s ∈ spans, ∀ site r, s.CalledFrom site → site.Spells r → outer.Contains r) →
          outer.Contains merged) ∧
      (∀ spans' : List Span, (∀ s, s ∈ spans' ↔ s ∈ spans) →
        mergedRange (spans'.map Span.callSite) = .ok (some merged)) ∧
      (∀ groups : List (List Span), (∀ g ∈ groups, g ≠ []) →
        (∀ s, s ∈ groups.flatten ↔ s ∈ spans) →
          ∃ first rest, List.Forall₂
              (fun g part => mergedRange (g.map Span.callSite) = .ok (some part)) groups
              (first :: rest) ∧
            rest.foldl Range.union first = merged) ∧
      ∀ spans' : List Span, List.Forall₂ Span.Renumbers spans spans' →
        mergedRange (spans'.map Span.callSite) = .ok (some merged)) ∧
    ∀ a b c : Range, a.union b = b.union a ∧ (a.union b).union c = a.union (b.union c) ∧
      a.union a = a := by
  obtain ⟨merged, hmerged, hleast⟩ := mergedRange_callSites hne h
  have hsame : ∀ spans' : List Span, (∀ s, s ∈ spans' ↔ s ∈ spans) →
      spans' ≠ [] ∧ CalledOnMap spans' := by
    intro spans' he
    obtain ⟨s, hs⟩ := List.exists_mem_of_ne_nil spans hne
    exact ⟨List.ne_nil_of_mem ((he s).mpr hs), fun t ht => h t ((he t).mp ht)⟩
  refine ⟨⟨merged, hmerged, fun m hm o => Message.place_of_merged hm hne hmerged, ?_, ?_, ?_, ?_,
    ?_⟩, fun a b c => ⟨Range.union_comm a b, Range.union_assoc a b c, Range.union_self a⟩⟩
  · intro s hs site r hc hr
    exact hleast.contains r (mem_callRanges.mpr ⟨s, hs, site, hc, hr⟩)
  · intro outer houter
    refine hleast.least outer fun r hr => ?_
    obtain ⟨s, hs, site, hc, hr⟩ := mem_callRanges.mp hr
    exact houter s hs site r hc hr
  · intro spans' he
    obtain ⟨hne', hmap⟩ := hsame spans' he
    obtain ⟨merged', hmerged', hleast'⟩ := mergedRange_callSites hne' hmap
    rw [hmerged', hleast'.eq (hleast.congr (callRanges_congr he))]
  · intro groups hgroups he
    obtain ⟨hne', hmap⟩ := hsame groups.flatten he
    obtain ⟨parts, hparts, hleasts⟩ := mergedRange_groups hgroups hmap
    cases parts with
    | nil =>
      cases hparts
      exact absurd rfl hne'
    | cons first rest =>
      refine ⟨first, rest, hparts, ?_⟩
      have hflat := (Range.isLeastAround_foldl first rest).flatten hleasts
      rw [← callRanges_flatten] at hflat
      exact hflat.eq (hleast.congr (callRanges_congr he))
  · intro spans' hchains
    have hsites : spans'.map Span.callSite = spans.map Span.callSite := by
      clear h hne hmerged hleast hsame
      induction hchains with
      | nil => rfl
      | cons hs _ ih => rw [List.map_cons, List.map_cons, hs.callSite, ih]
    rw [hsites, hmerged]

/-! A span in two macros, whose own places are off the map, was called from an inverted range. -/

def twiceInMacro (line : Int) : Span :=
  ⟨"m.rs", line, line, 0, 0, true, none, some ⟨"n.rs", -1, line, 0, 0, true, none,
    some ⟨"a.rs", 5, 3, 2, 9, true, none, none⟩⟩⟩

def inPlace : Span := ⟨"a.rs", 4, 4, 1, 6, true, none, none⟩

theorem calledOnMap_inverted : CalledOnMap [twiceInMacro 0, inPlace] := by
  intro s hs site hc
  rw [hc.eq]
  simp only [List.mem_cons, List.not_mem_nil, or_false] at hs
  cases hs with
  | inl hs => subst hs; intro v hv; simp [twiceInMacro, Span.callSite] at hv; omega
  | inr hs => subst hs; intro v hv; simp [inPlace, Span.callSite] at hv; omega

theorem mergedRange_isLeast_inverted :
    [twiceInMacro 0, inPlace] ≠ [] ∧ CalledOnMap [twiceInMacro 0, inPlace] ∧
      ∃ merged, merged = ⟨⟨3, 0⟩, ⟨3, 5⟩⟩ ∧
        mergedRange ([inPlace, twiceInMacro 0, inPlace].map Span.callSite) = .ok (some merged) ∧
        mergedRange ([twiceInMacro 70, inPlace].map Span.callSite) = .ok (some merged) := by
  obtain ⟨⟨merged, hmerged, -, -, -, hreordered, -, hrenumbered⟩, -⟩ :=
    mergedRange_isLeast (by simp) calledOnMap_inverted
  have hvalue : mergedRange ([twiceInMacro 0, inPlace].map Span.callSite) =
      .ok (some ⟨⟨3, 0⟩, ⟨3, 5⟩⟩) := by rfl
  have hrenumbers : List.Forall₂ Span.Renumbers [twiceInMacro 0, inPlace]
      [twiceInMacro 70, inPlace] :=
    .cons (.inner 70 70 0 0 rfl (.inner (-1) 70 0 0 rfl (.site rfl))) (.cons (.site rfl) .nil)
  refine ⟨by simp, calledOnMap_inverted, merged, ?_, hreordered _ (by simp [or_comm]),
    hrenumbered _ hrenumbers⟩
  exact Option.some.inj (Except.ok.inj (hmerged.symm.trans hvalue))

end VerifierHost.Wire
