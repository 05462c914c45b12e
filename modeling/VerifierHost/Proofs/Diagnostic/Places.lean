import VerifierHost.Diagnostic.Located

/-! # Places on the map of an editor

Compilers count lines and columns from one, and an editor has no line and no column beyond
`lineEnd`. So a span has a range exactly if each of its numbers is one more than a coordinate, and
otherwise one of them is complained about. -/

namespace VerifierHost

theorem Coordinate.ofInt?_isSome {v : Int} :
    (Coordinate.ofInt? v).isSome ↔ 0 ≤ v ∧ v ≤ 2147483647 := by
  unfold Coordinate.ofInt?
  split
  next h => simpa using h
  next h => simpa using h

theorem Coordinate.eq_of_ofInt? {v : Int} {c : Coordinate} (h : Coordinate.ofInt? v = some c) :
    v = c.val := by
  unfold Coordinate.ofInt? at h
  split at h
  next hv =>
    cases h
    exact (Int.toNat_of_nonneg hv.1).symm
  next => cases h

/-- Two numbers are those of a position, or one of them is named and is no coordinate. -/
theorem Position.ofInts_cases (line character : Int) :
    (∃ p : Position, ofInts line character = .ok p ∧ line = p.line.val ∧
        character = p.character.val) ∨
      ofInts line character = .error (.line line) ∧ ¬ (0 ≤ line ∧ line ≤ 2147483647) ∨
      ofInts line character = .error (.character character) ∧
        ¬ (0 ≤ character ∧ character ≤ 2147483647) := by
  unfold ofInts
  rw [← Coordinate.ofInt?_isSome, ← Coordinate.ofInt?_isSome]
  cases hl : Coordinate.ofInt? line with
  | none => exact .inr (.inl ⟨rfl, Bool.false_ne_true⟩)
  | some l =>
    cases hc : Coordinate.ofInt? character with
    | none => exact .inr (.inr ⟨rfl, Bool.false_ne_true⟩)
    | some c => exact .inl ⟨⟨l, c⟩, rfl, Coordinate.eq_of_ofInt? hl, Coordinate.eq_of_ofInt? hc⟩

namespace Wire

/-- All numbers of a span can be shown. -/
def Span.OnMap (s : Span) : Prop :=
  ∀ v ∈ [s.lineStart, s.columnStart, s.lineEnd, s.columnEnd], 1 ≤ v ∧ v ≤ 2147483648

/-- The numbers of a span are those of a range, counted from one. -/
structure Span.Spells (s : Span) (r : Range) : Prop where
  lineStart : s.lineStart = r.start.line.val + 1
  columnStart : s.columnStart = r.start.character.val + 1
  lineEnd : s.lineEnd = r.stop.line.val + 1
  columnEnd : s.columnEnd = r.stop.character.val + 1

/-- A complaint that fits a span: it names a number of the span that cannot be shown, counted from
zero. -/
inductive Span.Misses (s : Span) : CoordinateError → Prop
  | line {v : Int} (written : v = s.lineStart ∨ v = s.lineEnd)
      (off : ¬ (1 ≤ v ∧ v ≤ 2147483648)) : Misses s (.line (v - 1))
  | character {v : Int} (written : v = s.columnStart ∨ v = s.columnEnd)
      (off : ¬ (1 ≤ v ∧ v ≤ 2147483648)) : Misses s (.character (v - 1))

variable {s : Span}

theorem Span.Spells.onMap {r : Range} (h : s.Spells r) : s.OnMap := by
  intro v hv
  have hl := r.start.line.isLt
  have hc := r.start.character.isLt
  have hl' := r.stop.line.isLt
  have hc' := r.stop.character.isLt
  rw [h.lineStart, h.columnStart, h.lineEnd, h.columnEnd] at hv
  simp only [List.mem_cons, List.not_mem_nil, or_false] at hv
  omega

theorem Span.Misses.not_onMap {c : CoordinateError} (h : s.Misses c) : ¬ s.OnMap := by
  intro hon
  cases h with
  | line written off => rcases written with rfl | rfl <;> exact off (hon _ (by simp))
  | character written off => rcases written with rfl | rfl <;> exact off (hon _ (by simp))

/-- A span spells its range, or one of its numbers is named that cannot be shown. -/
theorem Span.range_cases (s : Span) :
    (∃ r, s.range = .ok r ∧ s.Spells r) ∨ ∃ c, s.range = .error (.offMap c) ∧ s.Misses c := by
  have hoff : ∀ v : Int, ¬ (0 ≤ v - 1 ∧ v - 1 ≤ 2147483647) → ¬ (1 ≤ v ∧ v ≤ 2147483648) := by
    intro v h
    omega
  unfold Span.range Range.ofSpan Range.ofInts
  rcases Position.ofInts_cases (s.lineStart - 1) (s.columnStart - 1) with
    ⟨start, hstart, hl, hc⟩ | ⟨hstart, h⟩ | ⟨hstart, h⟩
  · rcases Position.ofInts_cases (s.lineEnd - 1) (s.columnEnd - 1) with
      ⟨stop, hstop, hl', hc'⟩ | ⟨hstop, h⟩ | ⟨hstop, h⟩
    · refine .inl ⟨⟨start, stop⟩, by rw [hstart, hstop]; rfl, ?_⟩
      exact ⟨Int.sub_eq_iff_eq_add.mp hl, Int.sub_eq_iff_eq_add.mp hc, Int.sub_eq_iff_eq_add.mp hl',
        Int.sub_eq_iff_eq_add.mp hc'⟩
    · exact .inr ⟨_, by rw [hstart, hstop]; rfl, .line (.inr rfl) (hoff _ h)⟩
    · exact .inr ⟨_, by rw [hstart, hstop]; rfl, .character (.inr rfl) (hoff _ h)⟩
  · exact .inr ⟨_, by rw [hstart]; rfl, .line (.inl rfl) (hoff _ h)⟩
  · exact .inr ⟨_, by rw [hstart]; rfl, .character (.inl rfl) (hoff _ h)⟩

/-- Compilers count from one, so each number is one more than a coordinate of an editor. -/
theorem Span.range_ok : (∃ range, s.range = .ok range) ↔ s.OnMap := by
  constructor
  · intro ⟨range, hrange⟩
    rcases s.range_cases with ⟨r, -, hspells⟩ | ⟨c, herror, -⟩
    · exact hspells.onMap
    · cases hrange.symm.trans herror
  · intro h
    rcases s.range_cases with ⟨r, hr, -⟩ | ⟨c, -, hmisses⟩
    · exact ⟨r, hr⟩
    · exact absurd h hmisses.not_onMap

theorem Span.spells_of_range {r : Range} (h : s.range = .ok r) : s.Spells r := by
  rcases s.range_cases with ⟨r', hr, hspells⟩ | ⟨c, herror, -⟩
  · cases h.symm.trans hr
    exact hspells
  · cases h.symm.trans herror

end Wire

end VerifierHost
