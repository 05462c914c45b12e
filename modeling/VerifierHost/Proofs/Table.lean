import VerifierHost.Table

/-! # Rows and keys of tables

What putting and erasing rows does to the keys of a table and to the part of it that a test on keys
selects. -/

namespace VerifierHost

/-- Finding by key after a record was put in place of those with its key. -/
theorem find?_map_replace {α κ : Type} [DecidableEq κ] (key : α → κ) (l : List α) (a : α) (k : κ) :
    (l.map fun b => if key b = key a then a else b).find? (fun b => key b = k) =
      if key a = k then (l.find? fun b => key b = k).map fun _ => a
      else l.find? fun b => key b = k := by
  induction l with
  | nil => by_cases h : key a = k <;> simp [h]
  | cons b rest ih =>
    have hkey : key (if key b = key a then a else b) = key b := by
      by_cases h : key b = key a <;> simp [h]
    rw [List.map_cons, List.find?_cons, List.find?_cons, hkey, ih]
    by_cases hb : key b = k
    · by_cases ha : key a = k
      · simp [hb, ha]
      · simp [hb, ha, Ne.symm ha]
    · simp [hb]

namespace Table

variable {κ α : Type} [DecidableEq κ]

theorem mem_keys_put {t : Table κ α} {key k : κ} {value : α} :
    k ∈ (t.put key value).keys ↔ k = key ∨ k ∈ t.keys := by
  induction t with
  | nil => simp [put, keys]
  | cons row rest ih =>
    by_cases h : row.1 = key
    · subst h; simp [put, keys]
    · simp only [put, h, if_false, keys, List.map_cons, List.mem_cons] at ih ⊢
      rw [ih]
      exact or_left_comm

theorem mem_keys_erase {t : Table κ α} {key k : κ} :
    k ∈ (t.erase key).keys ↔ k ∈ t.keys ∧ k ≠ key := by
  simp only [keys, erase, List.mem_map, List.mem_filter, decide_eq_true_eq]
  constructor
  · rintro ⟨row, ⟨hm, hne⟩, rfl⟩
    exact ⟨⟨row, hm, rfl⟩, hne⟩
  · rintro ⟨⟨row, hm, rfl⟩, hne⟩
    exact ⟨row, ⟨hm, hne⟩, rfl⟩

theorem mem_keys_of_get? {t : Table κ α} {key : κ} (h : (t.get? key).isSome) : key ∈ t.keys := by
  induction t with
  | nil => cases h
  | cons row rest ih =>
    by_cases hk : row.1 = key
    · subst hk; exact List.mem_cons_self
    · exact List.mem_cons_of_mem _ (ih (by simpa [get?, hk] using h))

theorem get?_eq_none {t : Table κ α} {key : κ} : t.get? key = none ↔ key ∉ t.keys := by
  induction t with
  | nil => simp [get?, keys]
  | cons row rest ih =>
    by_cases h : row.1 = key
    · simp [get?, keys, h]
    · simpa [get?, keys, h, Ne.symm h] using ih

theorem mem_of_get? {t : Table κ α} {key : κ} {value : α} (h : t.get? key = some value) :
    (key, value) ∈ t := by
  induction t with
  | nil => cases h
  | cons row rest ih =>
    by_cases hk : row.1 = key
    · rw [get?, if_pos hk] at h
      exact List.mem_cons.mpr (.inl (Prod.ext hk.symm (Option.some.inj h).symm))
    · rw [get?, if_neg hk] at h
      exact List.mem_cons_of_mem _ (ih h)

theorem get?_of_mem {t : Table κ α} (h : t.keys.Nodup) {row : κ × α} (hrow : row ∈ t) :
    t.get? row.1 = some row.2 := by
  induction t with
  | nil => cases hrow
  | cons first rest ih =>
    obtain ⟨hfirst, hrest⟩ := List.nodup_cons.mp h
    rcases List.mem_cons.mp hrow with rfl | hrow
    · exact if_pos rfl
    · have hne : first.1 ≠ row.1 := fun he => hfirst (he ▸ List.mem_map_of_mem hrow)
      rw [get?, if_neg hne]
      exact ih hrest hrow

/-- A new key comes at the end. -/
theorem put_of_not_mem {t : Table κ α} {key : κ} (h : key ∉ t.keys) (value : α) :
    t.put key value = t ++ [(key, value)] := by
  induction t with
  | nil => rfl
  | cons row rest ih =>
    rw [keys, List.map_cons, List.mem_cons, not_or] at h
    simp [put, Ne.symm h.1, ih h.2]

theorem mem_put {t : Table κ α} {key : κ} {value : α} {row : κ × α} (h : row ∈ t.put key value) :
    row = (key, value) ∨ row ∈ t := by
  induction t with
  | nil => exact .inl (List.mem_singleton.mp h)
  | cons first rest ih =>
    by_cases hk : first.1 = key
    · rw [put, if_pos hk, hk] at h
      exact (List.mem_cons.mp h).imp_right (List.mem_cons_of_mem _)
    · rw [put, if_neg hk] at h
      rcases List.mem_cons.mp h with rfl | h
      · exact .inr List.mem_cons_self
      · exact (ih h).imp_right (List.mem_cons_of_mem _)

theorem nodup_keys_put {t : Table κ α} (h : t.keys.Nodup) (key : κ) (value : α) :
    (t.put key value).keys.Nodup := by
  induction t with
  | nil => simp [put, keys]
  | cons row rest ih =>
    obtain ⟨hrow, hrest⟩ := List.nodup_cons.mp h
    by_cases hk : row.1 = key
    · rw [put, if_pos hk]
      exact List.nodup_cons.mpr ⟨hrow, hrest⟩
    · rw [put, if_neg hk]
      refine List.nodup_cons.mpr ⟨fun hm => ?_, ih hrest⟩
      exact (mem_keys_put.mp hm).elim hk hrow

/-- Putting a list of values takes away those that were there and adds the new ones. -/
theorem countP_put (p : α → Bool) (t : Table κ (List α)) (key : κ) (values : List α) :
    ((t.put key values).flatMap Prod.snd).countP p + ((t.get? key).getD []).countP p =
      (t.flatMap Prod.snd).countP p + values.countP p := by
  induction t with
  | nil => simp [put, get?]
  | cons row rest ih =>
    by_cases h : row.1 = key
    · simp [put, get?, h]
      omega
    · simp [put, get?, h] at ih ⊢
      omega

/-- Selecting rows by their keys and putting a row can change places. -/
theorem filter_put (p : κ → Bool) (t : Table κ α) (key : κ) (value : α) :
    (t.put key value).filter (fun row => p row.1) =
      if p key then put (t.filter fun row => p row.1) key value
      else t.filter fun row => p row.1 := by
  induction t with
  | nil => cases hp : p key <;> simp [put, hp]
  | cons row rest ih =>
    by_cases h : row.1 = key
    · subst h
      cases hp : p row.1 <;> simp [put, hp]
    · simp only [put, h, if_false, List.filter_cons]
      rw [ih]
      cases hp : p key <;> cases hr : p row.1 <;> simp [put, h]

theorem erase_put_self (t : Table κ α) (key : κ) (value : α) :
    (t.put key value).erase key = t.erase key := by
  rw [erase, filter_put fun k => decide (k ≠ key), if_neg (by simp), erase]

theorem erase_put_of_ne (t : Table κ α) {key other : κ} (h : other ≠ key) (value : α) :
    (t.put other value).erase key = (t.erase key).put other value := by
  rw [erase, filter_put fun k => decide (k ≠ key), if_pos (by simpa using h), erase]

theorem erase_erase_self (t : Table κ α) (key : κ) : (t.erase key).erase key = t.erase key := by
  rw [erase, erase, List.filter_filter]
  simp

theorem erase_comm (t : Table κ α) (key other : κ) :
    (t.erase key).erase other = (t.erase other).erase key := by
  simp only [erase, List.filter_filter, Bool.and_comm]

/-- Putting a row and renaming keys can change places where no other key gets the same name. -/
theorem map_put {κ' : Type} [DecidableEq κ'] (name : κ → κ')
    {t : Table κ α} {key : κ} (h : ∀ row ∈ t, name row.1 = name key → row.1 = key) (value : α) :
    (t.put key value).map (fun row => (name row.1, row.2)) =
      put (t.map fun row => (name row.1, row.2)) (name key) value := by
  induction t with
  | nil => rfl
  | cons row rest ih =>
    obtain ⟨hrow, hrest⟩ := List.forall_mem_cons.mp h
    by_cases hk : row.1 = key
    · simp [put, hk]
    · simp [put, hk, mt hrow hk, ih hrest]

/-- Puts rows into a table one after the other. -/
def putAll (t : Table κ α) (rows : Table κ α) : Table κ α :=
  rows.foldl (fun t row => t.put row.1 row.2) t

@[simp] theorem putAll_nil (t : Table κ α) : t.putAll [] = t := rfl

@[simp] theorem putAll_cons (t : Table κ α) (row : κ × α) (rows : Table κ α) :
    t.putAll (row :: rows) = (t.put row.1 row.2).putAll rows := rfl

theorem mem_putAll {t rows : Table κ α} {row : κ × α} (h : row ∈ t.putAll rows) :
    row ∈ t ∨ row ∈ rows := by
  induction rows generalizing t with
  | nil => exact .inl h
  | cons first rest ih =>
    rcases ih h with hm | hm
    · exact (mem_put hm).elim (fun he => .inr (he ▸ List.mem_cons_self)) .inl
    · exact .inr (List.mem_cons_of_mem _ hm)

theorem filter_putAll (p : κ → Bool) (t rows : Table κ α) :
    (t.putAll rows).filter (fun row => p row.1) =
      putAll (t.filter fun row => p row.1) (rows.filter fun row => p row.1) := by
  induction rows generalizing t with
  | nil => rfl
  | cons row rest ih =>
    rw [putAll_cons, ih, filter_put]
    cases hp : p row.1 <;> simp [hp]

/-- Rows that a test rejects do not show in what it selects. -/
theorem filter_putAll_of_false {p : κ → Bool} (t : Table κ α) {rows : Table κ α}
    (h : ∀ row ∈ rows, p row.1 = false) :
    (t.putAll rows).filter (fun row => p row.1) = t.filter fun row => p row.1 := by
  have hrows : rows.filter (fun row => p row.1) = [] :=
    List.filter_eq_nil_iff.mpr fun row hrow => by simp [h row hrow]
  rw [filter_putAll, hrows, putAll_nil]

/-- Rows with new keys come at the end. -/
theorem putAll_of_nodup {t rows : Table κ α} (h : (t.keys ++ rows.keys).Nodup) :
    t.putAll rows = t ++ rows := by
  induction rows generalizing t with
  | nil => simp
  | cons row rest ih =>
    have hnew : row.1 ∉ t.keys := fun hm =>
      (List.nodup_append.mp h).2.2 row.1 hm row.1 List.mem_cons_self rfl
    have hkeys : (t ++ [row]).keys = t.keys ++ [row.1] := by simp [keys]
    rw [putAll_cons, put_of_not_mem hnew, ih, List.append_assoc]
    · rfl
    · rw [hkeys, List.append_assoc]
      exact h

/-- What was put last under a key is there, and without such a row what was there before. -/
theorem get?_putAll (t rows : Table κ α) (key : κ) :
    (t.putAll rows).get? key =
      ((rows.reverse.find? fun row => row.1 = key).map Prod.snd).or (t.get? key) := by
  induction rows generalizing t with
  | nil => simp
  | cons row rest ih =>
    rw [putAll_cons, ih, List.reverse_cons, List.find?_append]
    cases hr : rest.reverse.find? fun row => row.1 = key with
    | some last => simp
    | none =>
      by_cases h : row.1 = key
      · subst h; simp
      · simp [h, get?_put_of_ne _ _ h]

end Table

end VerifierHost
