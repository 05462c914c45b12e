import VerifierHost.Text.Split

/-! # Pieces and occurrences

The pieces of a sequence are the stretches without a separator that reach from one separator, or an
end of the sequence, to the next. -/

namespace VerifierHost.Text

variable {α : Type} [DecidableEq α]

/-- A stretch of a sequence that has no separator in it and cannot be made any longer. -/
structure IsPiece (separator : α) (cs before piece after : List α) : Prop where
  whole : cs = before ++ piece ++ after
  plain : separator ∉ piece
  starts : before = [] ∨ ∃ front, before = front ++ [separator]
  stops : after = [] ∨ ∃ rest, after = separator :: rest

variable {separator : α} {cs piece before after more needle rest : List α}

theorem splitOn_ne_nil (cs : List α) : splitOn separator cs ≠ [] := by
  cases cs with
  | nil => simp [splitOn]
  | cons c rest =>
    rw [splitOn]
    split
    next => simp
    next => split <;> simp

theorem splitOn_of_not_mem (h : separator ∉ cs) : splitOn separator cs = [cs] := by
  induction cs with
  | nil => rfl
  | cons c rest ih =>
    simp only [List.mem_cons, not_or] at h
    simp [splitOn, Ne.symm h.1, ih h.2]

theorem splitOn_append_cons (front rest : List α) :
    splitOn separator (front ++ separator :: rest) =
      splitOn separator front ++ splitOn separator rest := by
  induction front with
  | nil => simp [splitOn]
  | cons c front ih =>
    by_cases hc : c = separator
    · simp [splitOn, hc, ih]
    · cases hs : splitOn separator front with
      | nil => exact absurd hs (splitOn_ne_nil front)
      | cons first pieces => simp [splitOn, hc, ih, hs]

theorem IsPiece.mem_splitOn (h : IsPiece separator cs before piece after) :
    piece ∈ splitOn separator cs := by
  have hstop : piece ∈ splitOn separator (piece ++ after) := by
    rcases h.stops with rfl | ⟨rest, rfl⟩
    · rw [List.append_nil, splitOn_of_not_mem h.plain]
      exact List.mem_singleton_self piece
    · rw [splitOn_append_cons, splitOn_of_not_mem h.plain]
      exact List.mem_cons_self
  rw [h.whole, List.append_assoc]
  rcases h.starts with rfl | ⟨front, rfl⟩
  · exact hstop
  · rw [List.append_assoc, List.singleton_append, splitOn_append_cons]
    exact List.mem_append_right _ hstop

theorem exists_isPiece {cs : List α} (h : piece ∈ splitOn separator cs) :
    ∃ before after, IsPiece separator cs before piece after := by
  by_cases hs : separator ∈ cs
  · -- the first separator splits off a first piece, and the others are those of the rest
    obtain ⟨first, rest, rfl, hfirst⟩ := List.eq_append_cons_of_mem hs
    rw [splitOn_append_cons, splitOn_of_not_mem hfirst, List.singleton_append] at h
    rcases List.mem_cons.mp h with rfl | h
    · exact ⟨[], separator :: rest, by simp, hfirst, .inl rfl, .inr ⟨rest, rfl⟩⟩
    · obtain ⟨before, after, hp⟩ := exists_isPiece h
      refine ⟨first ++ separator :: before, after, by simp [hp.whole], hp.plain, .inr ?_, hp.stops⟩
      rcases hp.starts with rfl | ⟨front, rfl⟩
      · exact ⟨first, rfl⟩
      · exact ⟨first ++ separator :: front, by simp⟩
  · rw [splitOn_of_not_mem hs, List.mem_singleton] at h
    subst h
    exact ⟨[], [], by simp, hs, .inl rfl, .inl rfl⟩
termination_by cs.length

/-- **What splitting finds are the pieces.** -/
theorem mem_splitOn : piece ∈ splitOn separator cs ↔
    ∃ before after, IsPiece separator cs before piece after :=
  ⟨exists_isPiece, fun ⟨_, _, h⟩ => h.mem_splitOn⟩

theorem mem_of_mem_splitOn {a : α} (hp : piece ∈ splitOn separator cs) (ha : a ∈ piece) :
    a ∈ cs := by
  obtain ⟨before, after, h⟩ := exists_isPiece hp
  simp [h.whole, ha]

/-- A piece is still there, maybe with more at its end, if something is added to the sequence. -/
theorem IsPiece.append (h : IsPiece separator cs before piece after) (more : List α) :
    ∃ tail rest, IsPiece separator (cs ++ more) before (piece ++ tail) rest := by
  rcases h.stops with hnil | ⟨rest, hrest⟩
  · subst hnil
    -- the piece stands at the end, so what is added goes on with it up to the first separator
    by_cases hs : separator ∈ more
    · obtain ⟨tail, rest, rfl, htail⟩ := List.eq_append_cons_of_mem hs
      exact ⟨tail, separator :: rest, by simp [h.whole], by simp [h.plain, htail], h.starts,
        .inr ⟨rest, rfl⟩⟩
    · exact ⟨more, [], by simp [h.whole], by simp [h.plain, hs], h.starts, .inl rfl⟩
  · exact ⟨[], after ++ more, by simp [h.whole], by simpa using h.plain, h.starts,
      .inr ⟨rest ++ more, by rw [hrest]; rfl⟩⟩

theorem occursIn_iff : occursIn needle cs = true ↔ needle <:+: cs := by
  induction cs with
  | nil => simp [occursIn]
  | cons c rest ih => simp [occursIn, ih, List.infix_cons_iff]

theorem after?_eq_some : after? before cs = some rest ↔ cs = before ++ rest := by
  unfold after?
  split
  next h =>
    obtain ⟨tail, rfl⟩ := List.isPrefixOf_iff_prefix.mp h
    simp
  next h =>
    simp only [reduceCtorEq, false_iff]
    rintro rfl
    exact h (List.isPrefixOf_iff_prefix.mpr (List.prefix_append before rest))

end VerifierHost.Text
