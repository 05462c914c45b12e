import VerifierHost.Text.Utf8

/-! # Bytes read one by one are read as a whole

What bytes mean does not depend on a decoder: from the front, a character that is spelled there is
read, and where none is, the longest piece that could still begin one is replaced (`Decodes`). A
decoder holds the bytes of a character that it has not read to the end, and its state says which
bytes may follow these (`Holds`); so it makes of the rest what the rest means behind the bytes that
it holds. -/

namespace VerifierHost.Text

open String (utf8EncodeChar)

/-! ## The bytes of a character -/

section Characters

variable {c c' : Char} {n : Nat} {rest rest' : Bytes}

theorem isValidChar_toNat (c : Char) : c.toNat.isValidChar := c.valid

theorem exists_char (h : n.isValidChar) : ∃ c : Char, c.toNat = n :=
  ⟨Char.ofNatAux n h, rfl⟩

/-- Characters have the bytes by which strings spell them. -/
theorem utf8Char_eq (c : Char) : utf8Char c = utf8EncodeChar c := by
  have hv : c.val.toNat = c.toNat := rfl
  have hlt : c.toNat < 0x110000 := by
    have := isValidChar_toNat c
    unfold Nat.isValidChar at this
    omega
  unfold utf8Char utf8EncodeChar
  simp only [hv, ← Nat.lt_succ_iff, Nat.reduceAdd, Nat.succ_eq_add_one]
  split
  next => rfl
  split
  next => simp [Nat.mod_eq_of_lt (by omega : c.toNat / 64 < 0x20), Nat.add_comm]
  split
  next => simp [Nat.mod_eq_of_lt (by omega : c.toNat / 4096 < 0x10), Nat.add_comm]
  next => simp [Nat.mod_eq_of_lt (by omega : c.toNat / 262144 < 0x08), Nat.add_comm]

/-- No character is spelled at the start of another. -/
theorem utf8EncodeChar_append_inj
    (h : utf8EncodeChar c ++ rest = utf8EncodeChar c' ++ rest') : c = c' ∧ rest = rest' := by
  have hc : c = c' := by
    have hread : ∀ (c : Char) (rest : Bytes),
        (utf8EncodeChar c ++ rest).toByteArray.utf8DecodeChar? 0 = some c := fun c rest => by
      rw [List.toByteArray_append]
      exact ByteArray.utf8DecodeChar?_utf8EncodeChar_append
    exact Option.some.inj ((hread c rest).symm.trans (h ▸ hread c' rest'))
  subst hc
  exact ⟨rfl, List.append_cancel_left h⟩

/-- The last bytes of the character with a number, so many of them. -/
def tails : Nat → Nat → Bytes
  | 0, _ => []
  | k + 1, n => UInt8.ofNat (0x80 + n / Nat.pow 64 k % 64) :: tails k n

@[simp] theorem length_tails (k n : Nat) : (tails k n).length = k := by
  induction k with
  | zero => rfl
  | succ k ih => simp [tails, ih]

/-- The first byte of the character with a number. -/
def firstByte (n : Nat) : Nat :=
  if n < 0x80 then n
  else if n < 0x800 then 0xC0 + n / 64
  else if n < 0x10000 then 0xE0 + n / 4096
  else 0xF0 + n / 262144

/-- How many bytes follow the first one of the character with a number. -/
def following (n : Nat) : Nat :=
  if n < 0x80 then 0 else if n < 0x800 then 1 else if n < 0x10000 then 2 else 3

theorem firstByte_cases (n : Nat) :
    n < 0x80 ∧ firstByte n = n ∧ following n = 0 ∨
    0x80 ≤ n ∧ n < 0x800 ∧ firstByte n = 0xC0 + n / 64 ∧ following n = 1 ∨
    0x800 ≤ n ∧ n < 0x10000 ∧ firstByte n = 0xE0 + n / 4096 ∧ following n = 2 ∨
    0x10000 ≤ n ∧ firstByte n = 0xF0 + n / 262144 ∧ following n = 3 := by
  unfold firstByte following
  split
  next h => exact .inl ⟨h, rfl, rfl⟩
  split
  next h h' => exact .inr (.inl ⟨Nat.le_of_not_lt h, h', rfl, rfl⟩)
  split
  next h h' => exact .inr (.inr (.inl ⟨Nat.le_of_not_lt h, h', rfl, rfl⟩))
  next h => exact .inr (.inr (.inr ⟨Nat.le_of_not_lt h, rfl, rfl⟩))

theorem utf8EncodeChar_eq (c : Char) :
    utf8EncodeChar c = UInt8.ofNat (firstByte c.toNat) :: tails (following c.toNat) c.toNat := by
  have htails : ∀ n, tails 1 n = [UInt8.ofNat (0x80 + n % 64)] ∧
      tails 2 n = UInt8.ofNat (0x80 + n / 64 % 64) :: tails 1 n ∧
      tails 3 n = UInt8.ofNat (0x80 + n / 4096 % 64) :: tails 2 n := fun n =>
    ⟨by simp [tails], rfl, rfl⟩
  rw [← utf8Char_eq]
  unfold utf8Char firstByte following
  dsimp only
  split
  next => rfl
  split
  next => rw [(htails _).1]
  split
  next => rw [(htails _).2.1, (htails _).1]
  next => rw [(htails _).2.2, (htails _).2.1, (htails _).1]

/-- Characters begin with their first bytes. -/
theorem singleton_prefix_iff {b : UInt8} :
    [b] <+: utf8EncodeChar c ↔ firstByte c.toNat = b.toNat := by
  have hlt : firstByte c.toNat < 256 := by
    have := isValidChar_toNat c
    have hcases := firstByte_cases c.toNat
    unfold Nat.isValidChar at this
    omega
  rw [utf8EncodeChar_eq, List.cons_prefix_cons, ← UInt8.toNat_inj, UInt8.toNat_ofNat',
    Nat.mod_eq_of_lt hlt]
  exact ⟨fun h => h.1.symm, fun h => ⟨h.symm, List.nil_prefix⟩⟩

end Characters

namespace Utf8

/-! ## What bytes mean -/

/-- Some character begins with these bytes. -/
def Begins (bytes : Bytes) : Prop := ∃ c, bytes <+: utf8EncodeChar c

/--
A piece of bytes in front of others, where no character is spelled: the longest that begins a
character, or one byte if none does.
-/
structure IsSubpart (piece rest : Bytes) : Prop where
  malformed : ∀ c, ¬ utf8EncodeChar c <+: piece ++ rest
  nonempty : piece ≠ []
  begins : Begins piece ∨ piece.length = 1
  maximal : ∀ more, more ≠ [] → more <+: rest → ¬ Begins (piece ++ more)

/-- What bytes mean: their characters, with a replacement for each piece that spells none. -/
inductive Decodes : Bytes → List Char → Prop where
  | nothing : Decodes [] []
  | char {c rest text} : Decodes rest text → Decodes (utf8EncodeChar c ++ rest) (c :: text)
  | replaced {piece rest text} : IsSubpart piece rest → Decodes rest text →
      Decodes (piece ++ rest) (replacement :: text)

variable {bytes piece rest more : Bytes} {text other : List Char} {b : UInt8} {c : Char}

theorem Begins.of_append (h : Begins (bytes ++ more)) : Begins bytes := by
  obtain ⟨c, hc⟩ := h
  exact ⟨c, (List.prefix_append bytes more).trans hc⟩

theorem utf8EncodeChar_append_ne_nil : utf8EncodeChar c ++ rest ≠ [] := by
  simp [String.utf8EncodeChar_ne_nil]

/-- Of two pieces in front of the same bytes neither is longer. -/
theorem IsSubpart.eq_of_append_eq {piece' rest' : Bytes} (h : IsSubpart piece rest)
    (h' : IsSubpart piece' rest') (he : piece ++ rest = piece' ++ rest')
    (hle : piece.length ≤ piece'.length) : piece = piece' := by
  obtain ⟨more, rfl⟩ : piece <+: piece' :=
    List.prefix_of_prefix_length_le ⟨rest, he⟩ ⟨rest', rfl⟩ hle
  by_cases hmore : more = []
  · rw [hmore, List.append_nil]
  · rw [List.append_assoc] at he
    have hmax := h.maximal more hmore ⟨rest', (List.append_cancel_left he).symm⟩
    have hlen := h'.begins.resolve_left hmax
    rw [List.length_append] at hlen
    have := List.length_pos_iff.mpr h.nonempty
    have := List.length_pos_iff.mpr hmore
    omega

/-- Bytes mean one thing only. -/
theorem Decodes.unique (h : Decodes bytes text) (h' : Decodes bytes other) : text = other := by
  induction h generalizing other with
  | nothing =>
    generalize hb : ([] : Bytes) = bytes at h'
    cases h' with
    | nothing => rfl
    | char _ => exact absurd hb.symm utf8EncodeChar_append_ne_nil
    | replaced hs _ => exact absurd (List.append_eq_nil_iff.mp hb.symm).1 hs.nonempty
  | @char c rest text hrest ih =>
    generalize hb : utf8EncodeChar c ++ rest = bytes at h'
    cases h' with
    | nothing => exact absurd hb utf8EncodeChar_append_ne_nil
    | char hrest' =>
      obtain ⟨rfl, rfl⟩ := utf8EncodeChar_append_inj hb
      rw [ih hrest']
    | replaced hs _ => exact absurd ⟨_, hb⟩ (hs.malformed c)
  | @replaced piece rest text hs hrest ih =>
    generalize hb : piece ++ rest = bytes at h'
    cases h' with
    | nothing => exact absurd (List.append_eq_nil_iff.mp hb).1 hs.nonempty
    | char hrest' => exact absurd ⟨_, hb.symm⟩ (hs.malformed _)
    | replaced hs' hrest' =>
      have hp := (Nat.le_total _ _).elim (hs.eq_of_append_eq hs' hb) fun hle =>
        (hs'.eq_of_append_eq hs hb.symm hle).symm
      subst hp
      rw [ih (List.append_cancel_left hb ▸ hrest')]

/-- Characters that are spelled out are read back. -/
theorem decodes_utf8 (cs : List Char) : Decodes (utf8 cs) cs := by
  induction cs with
  | nil => exact .nothing
  | cons c rest ih =>
    rw [utf8, List.flatMap_cons, utf8Char_eq]
    exact .char ih

/-- The start of a character is a piece if what follows it does not go on with the character. -/
theorem isSubpart_of_begins (hne : piece ≠ []) {more : Bytes} (hmore : more ≠ [])
    (hc : utf8EncodeChar c = piece ++ more)
    (hrest : ∀ b rest', rest = b :: rest' → ¬ Begins (piece ++ [b])) : IsSubpart piece rest := by
  have hmax : ∀ more, more ≠ [] → more <+: rest → ¬ Begins (piece ++ more) := by
    intro more hne hpre hb
    obtain ⟨b, tail, rfl⟩ := List.exists_cons_of_ne_nil hne
    obtain ⟨rest', rfl⟩ := hpre
    have hb : Begins (piece ++ [b] ++ tail) := by rwa [List.append_assoc]
    exact hrest b _ rfl hb.of_append
  refine ⟨fun c' hc' => ?_, hne, .inl ⟨c, more, hc.symm⟩, hmax⟩
  rcases List.prefix_or_prefix_of_prefix hc' (List.prefix_append piece rest) with h | h
  · -- a character that ends within the piece would be spelled at the start of the other one
    obtain ⟨tail, rfl⟩ := h
    rw [List.append_assoc] at hc
    have hnil := (utf8EncodeChar_append_inj ((List.append_nil _).trans hc)).2
    exact hmore (List.append_eq_nil_iff.mp hnil.symm).2
  · obtain ⟨tail, htail⟩ := h
    rw [← htail, List.prefix_append_right_inj] at hc'
    by_cases htnil : tail = []
    · rw [htnil, List.append_nil] at htail
      subst htail
      exact hmore (utf8EncodeChar_append_inj ((List.append_nil _).trans hc)).2.symm
    · exact hmax tail htnil hc' ⟨c', htail ▸ List.prefix_rfl⟩

/-- A byte that begins no character is a piece by itself. -/
theorem isSubpart_singleton (h : ¬ Begins [b]) (rest : Bytes) : IsSubpart [b] rest := by
  refine ⟨fun c hc => ?_, List.cons_ne_nil b [], .inr rfl, fun more _ _ hb => h hb.of_append⟩
  refine h ⟨c, List.prefix_of_prefix_length_le (List.prefix_append [b] rest) hc ?_⟩
  exact List.length_pos_iff.mpr String.utf8EncodeChar_ne_nil

/-! ## What a decoder holds -/

/--
Of a character these bytes were read. So many bytes follow the next one, which lies between two
bounds, and the number of the character begins with the value.
-/
structure Expects (held : Bytes) (more low high value : Nat) : Prop where
  nonempty : held ≠ []
  bounds : 0x80 ≤ low ∧ low ≤ high ∧ high ≤ 0xBF
  goes_on : ∀ c, held <+: utf8EncodeChar c → c.toNat / Nat.pow 64 (more + 1) = value ∧
    low ≤ 0x80 + c.toNat / Nat.pow 64 more % 64 ∧ 0x80 + c.toNat / Nat.pow 64 more % 64 ≤ high ∧
    utf8EncodeChar c = held ++ tails (more + 1) c.toNat
  begins : ∀ n, n / Nat.pow 64 (more + 1) = value →
    low ≤ 0x80 + n / Nat.pow 64 more % 64 → 0x80 + n / Nat.pow 64 more % 64 ≤ high →
    ∃ c : Char, c.toNat = n ∧ held <+: utf8EncodeChar c

variable {held : Bytes} {low high value : Nat} {more : Nat}

/-- A byte between the bounds goes on with the character. -/
theorem Expects.next (h : Expects held (more + 1) low high value)
    (hb : low ≤ b.toNat ∧ b.toNat ≤ high) :
    Expects (held ++ [b]) more 0x80 0xBF (value * 64 + b.toNat % 64) := by
  have hbounds := h.bounds
  have hdiv : ∀ n, n / Nat.pow 64 (more + 2) = n / Nat.pow 64 (more + 1) / 64 := fun n =>
    (Nat.div_div_eq_div_mul ..).symm
  refine ⟨by simp, by omega, fun c hc => ?_, fun n hvalue _ _ => ?_⟩
  · obtain ⟨hvalue, hlow, hhigh, he⟩ := h.goes_on c ((List.prefix_append held [b]).trans hc)
    rw [he, List.prefix_append_right_inj, tails, List.cons_prefix_cons] at hc
    rw [hdiv] at hvalue
    have hbyte : b.toNat = 0x80 + c.toNat / Nat.pow 64 (more + 1) % 64 := by
      rw [hc.1, UInt8.toNat_ofNat']
      omega
    refine ⟨by omega, by omega, by omega, ?_⟩
    rw [he, tails, hc.1, List.append_assoc]
    rfl
  · obtain ⟨c, rfl, hc⟩ := h.begins n (by rw [hdiv]; omega) (by omega) (by omega)
    obtain ⟨-, -, -, he⟩ := h.goes_on c hc
    refine ⟨c, rfl, ?_⟩
    have hbyte : UInt8.ofNat (0x80 + c.toNat / Nat.pow 64 (more + 1) % 64) = b := by
      rw [hvalue, ← UInt8.toNat_inj, UInt8.toNat_ofNat']
      omega
    rw [he, tails, hbyte, List.prefix_append_right_inj]
    exact ⟨_, rfl⟩

/-- The last byte of a character between the bounds completes it. -/
theorem Expects.last (h : Expects held 0 low high value) (hb : low ≤ b.toNat ∧ b.toNat ≤ high) :
    utf8EncodeChar (Char.ofNat (value * 64 + b.toNat % 64)) = held ++ [b] := by
  have hbounds := h.bounds
  have hone : ∀ n, n / Nat.pow 64 0 = n ∧ n / Nat.pow 64 1 = n / 64 := fun n =>
    ⟨Nat.div_one n, rfl⟩
  obtain ⟨c, hn, hc⟩ := h.begins (value * 64 + b.toNat % 64) (by rw [(hone _).2]; omega)
    (by rw [(hone _).1]; omega) (by rw [(hone _).1]; omega)
  obtain ⟨-, -, -, he⟩ := h.goes_on c hc
  rw [← hn, Char.ofNat_toNat, he, tails, tails, (hone _).1, hn]
  congr 2
  rw [← UInt8.toNat_inj, UInt8.toNat_ofNat']
  omega

/-- No character goes on with a byte beyond the bounds. -/
theorem Expects.not_begins (h : Expects held more low high value)
    (hb : ¬ (low ≤ b.toNat ∧ b.toNat ≤ high)) : ¬ Begins (held ++ [b]) := by
  rintro ⟨c, hc⟩
  have hbounds := h.bounds
  obtain ⟨-, hlow, hhigh, he⟩ := h.goes_on c ((List.prefix_append held [b]).trans hc)
  rw [he, List.prefix_append_right_inj, tails, List.cons_prefix_cons] at hc
  refine hb ?_
  rw [hc.1, UInt8.toNat_ofNat']
  omega

/-- A character that is not completed is replaced as one piece. -/
theorem Expects.isSubpart (h : Expects held more low high value)
    (hrest : ∀ b rest', rest = b :: rest' → ¬ (low ≤ b.toNat ∧ b.toNat ≤ high)) :
    IsSubpart held rest := by
  have hbounds := h.bounds
  -- one of the characters that were possible has the least byte next, and only zeros after it
  have hpos : 0 < Nat.pow 64 more := Nat.pow_pos (by omega)
  have hnext : (value * 64 + (low - 0x80)) * Nat.pow 64 more / Nat.pow 64 more =
      value * 64 + (low - 0x80) := Nat.mul_div_cancel _ hpos
  have hvalue : (value * 64 + (low - 0x80)) * Nat.pow 64 more / Nat.pow 64 (more + 1) = value := by
    rw [show Nat.pow 64 (more + 1) = Nat.pow 64 more * 64 from rfl, ← Nat.div_div_eq_div_mul,
      hnext]
    omega
  obtain ⟨c, -, hc⟩ := h.begins _ hvalue (by rw [hnext]; omega) (by rw [hnext]; omega)
  obtain ⟨-, -, -, he⟩ := h.goes_on c hc
  refine isSubpart_of_begins h.nonempty ?_ he fun b rest' hb => h.not_begins (hrest b rest' hb)
  exact List.ne_nil_of_length_eq_add_one (length_tails _ _)

/-! ## First bytes -/

/-- What a first byte says of the rest, if it says so of the numbers of characters. -/
theorem expects_first (hbounds : 0x80 ≤ low ∧ low ≤ high ∧ high ≤ 0xBF)
    (hn : ∀ n : Nat, (n.isValidChar ∧ firstByte n = b.toNat ↔ n / Nat.pow 64 (more + 1) = value ∧
        low ≤ 0x80 + n / Nat.pow 64 more % 64 ∧ 0x80 + n / Nat.pow 64 more % 64 ≤ high) ∧
      (n.isValidChar → firstByte n = b.toNat → following n = more + 1)) :
    Expects [b] more low high value := by
  refine ⟨List.cons_ne_nil b [], hbounds, fun c hc => ?_, fun n hvalue hlow hhigh => ?_⟩
  · have hb := singleton_prefix_iff.mp hc
    have hvalid := isValidChar_toNat c
    obtain ⟨hvalue, hlow, hhigh⟩ := (hn c.toNat).1.mp ⟨hvalid, hb⟩
    refine ⟨hvalue, hlow, hhigh, ?_⟩
    rw [utf8EncodeChar_eq, hb, (hn c.toNat).2 hvalid hb, UInt8.ofNat_toNat]
    rfl
  · obtain ⟨hvalid, hb⟩ := (hn n).1.mpr ⟨hvalue, hlow, hhigh⟩
    obtain ⟨c, rfl⟩ := exists_char hvalid
    exact ⟨c, rfl, singleton_prefix_iff.mpr hb⟩

theorem expects_two (hb : b.toNat = 0xC0 + value) (hvalue : 2 ≤ value ∧ value < 0x20) :
    Expects [b] 0 0x80 0xBF value := by
  refine expects_first (by omega) fun n => ?_
  have hcases := firstByte_cases n
  simp only [Nat.isValidChar, Nat.pow_eq, Nat.reduceAdd, Nat.reducePow]
  omega

/-- The bounds rule out overlong forms and the halves of surrogate pairs. -/
theorem expects_three (hb : b.toNat = 0xE0 + value) (hvalue : value < 0x10)
    (hlow : value = 0 ∧ low = 0xA0 ∨ 0 < value ∧ low = 0x80)
    (hhigh : value = 0xD ∧ high = 0x9F ∨ value ≠ 0xD ∧ high = 0xBF) :
    Expects [b] 1 low high value := by
  refine expects_first (by omega) fun n => ?_
  have hcases := firstByte_cases n
  simp only [Nat.isValidChar, Nat.pow_eq, Nat.reduceAdd, Nat.reducePow]
  omega

/-- The bounds rule out overlong forms and numbers beyond the last character. -/
theorem expects_four (hb : b.toNat = 0xF0 + value) (hvalue : value < 5)
    (hlow : value = 0 ∧ low = 0x90 ∨ 0 < value ∧ low = 0x80)
    (hhigh : value = 4 ∧ high = 0x8F ∨ value ≠ 4 ∧ high = 0xBF) :
    Expects [b] 2 low high value := by
  refine expects_first (by omega) fun n => ?_
  have hcases := firstByte_cases n
  simp only [Nat.isValidChar, Nat.pow_eq, Nat.reduceAdd, Nat.reducePow]
  omega

theorem expects_ED : Expects [0xED] 1 0x80 0x9F 0xD :=
  expects_three rfl (by omega) (by omega) (by omega)

/-- What a decoder holds are the bytes that it has read since it last told a character. -/
def Holds (held : Bytes) : Utf8 → Prop
  | start => held = []
  | inside more low high value => Expects held more low high value
  | afterED => held = [0xED]
  | surrogate => ∃ b : UInt8, 0xA0 ≤ b.toNat ∧ b.toNat ≤ 0xBF ∧ held = [0xED, b]

/-- Bytes that go on with a character, and some others, do not begin any. -/
theorem not_begins_singleton (hb : 0x80 ≤ b.toNat ∧ b.toNat < 0xC2 ∨ 0xF5 ≤ b.toNat) :
    ¬ Begins [b] := by
  rintro ⟨c, hc⟩
  have hfirst := singleton_prefix_iff.mp hc
  have hcases := firstByte_cases c.toNat
  have hvalid := isValidChar_toNat c
  unfold Nat.isValidChar at hvalid
  omega

/-- A byte by itself is a character, begins none, or is held as the first byte of one. -/
theorem lead_cases (b : UInt8) :
    utf8EncodeChar (Char.ofNat b.toNat) = [b] ∧ lead b = ([Char.ofNat b.toNat], start) ∨
    ¬ Begins [b] ∧ lead b = ([replacement], start) ∨
    ∃ d, lead b = ([], d) ∧ Holds [b] d := by
  have hlt := b.toNat_lt
  unfold lead
  dsimp only
  split
  next h =>
    obtain ⟨c, hn⟩ := exists_char (n := b.toNat) (.inl (by omega))
    have hcases := firstByte_cases c.toNat
    refine .inl ⟨?_, rfl⟩
    rw [← hn, Char.ofNat_toNat, utf8EncodeChar_eq, show firstByte c.toNat = b.toNat by omega,
      show following c.toNat = 0 by omega, UInt8.ofNat_toNat]
    rfl
  split
  next => exact .inr (.inl ⟨not_begins_singleton (by omega), rfl⟩)
  split
  next => exact .inr (.inr ⟨_, rfl, expects_two (by omega) (by omega)⟩)
  split
  next => exact .inr (.inr ⟨_, rfl, expects_three (by omega) (by omega) (by omega) (by omega)⟩)
  split
  next h => exact .inr (.inr ⟨_, rfl, congrArg (fun b => [b]) (UInt8.toNat_inj.mp h)⟩)
  split
  next => exact .inr (.inr ⟨_, rfl, expects_three (by omega) (by omega) (by omega) (by omega)⟩)
  split
  next => exact .inr (.inr ⟨_, rfl, expects_four (by omega) (by omega) (by omega) (by omega)⟩)
  split
  next => exact .inr (.inr ⟨_, rfl, expects_four (by omega) (by omega) (by omega) (by omega)⟩)
  split
  next => exact .inr (.inr ⟨_, rfl, expects_four (by omega) (by omega) (by omega) (by omega)⟩)
  next => exact .inr (.inl ⟨not_begins_singleton (by omega), rfl⟩)

/-! ## What a decoder makes of bytes -/

/-- The text that a decoder makes of all bytes that are left. -/
def decodeRest (d : Utf8) (bytes : Bytes) : List Char := (d.feed bytes).1 ++ (d.feed bytes).2.finish

theorem readOnto_eq (read : List Char) (d : Utf8) (bytes : Bytes) :
    readOnto read d bytes = ((readOnto [] d bytes).1 ++ read, (readOnto [] d bytes).2) := by
  induction bytes generalizing read d with
  | nil => rfl
  | cons b rest ih =>
    have hb : ∀ read, readOnto read d (b :: rest) =
        readOnto ((d.step b).1.reverse ++ read) (d.step b).2 rest := fun _ => rfl
    rw [hb, hb, ih, ih ((d.step b).1.reverse ++ [])]
    simp

/-- Bytes can be fed in two parts. -/
theorem feed_append (d : Utf8) (xs ys : Bytes) :
    d.feed (xs ++ ys) =
      ((d.feed xs).1 ++ ((d.feed xs).2.feed ys).1, ((d.feed xs).2.feed ys).2) := by
  have honto : ∀ read : List Char, readOnto read d (xs ++ ys) =
      readOnto (readOnto read d xs).1 (readOnto read d xs).2 ys := by
    induction xs generalizing d with
    | nil => exact fun _ => rfl
    | cons b rest ih => exact fun read => ih _ _
  simp only [feed]
  rw [honto, readOnto_eq (readOnto [] d xs).1, List.reverse_append]

theorem feed_singleton (d : Utf8) (b : UInt8) : d.feed [b] = d.step b := by
  simp [feed, readOnto]

theorem decodeRest_cons (d : Utf8) (b : UInt8) (bytes : Bytes) :
    d.decodeRest (b :: bytes) = (d.step b).1 ++ (d.step b).2.decodeRest bytes := by
  rw [decodeRest, ← List.singleton_append, feed_append, feed_singleton, List.append_assoc]
  rfl

/-- The first two bytes of the half of a surrogate pair are replaced one by one. -/
theorem decodes_surrogate (hlow : 0xA0 ≤ b.toNat) (hhigh : b.toNat ≤ 0xBF)
    (h : Decodes rest text) : Decodes ([0xED, b] ++ rest) (replacement :: replacement :: text) := by
  have hsecond : IsSubpart [b] rest := isSubpart_singleton (not_begins_singleton (by omega)) rest
  have hfirst : IsSubpart [0xED] ([b] ++ rest) := by
    refine expects_ED.isSubpart fun b' rest' hb => ?_
    cases hb
    omega
  have hboth := Decodes.replaced hfirst (.replaced hsecond h)
  exact hboth

/-- **A decoder goes on with what it holds**: what it makes of bytes is what these mean behind the
bytes that it holds. -/
theorem decodes_decodeRest (bytes : Bytes) {d : Utf8} (h : Holds held d) :
    Decodes (held ++ bytes) (d.decodeRest bytes) := by
  induction bytes generalizing d held with
  | nil =>
    cases d with
    | start =>
      rw [show held = [] from h]
      exact .nothing
    | inside more low high value => exact .replaced (Expects.isSubpart h nofun) .nothing
    | afterED =>
      rw [show held = [0xED] from h]
      exact .replaced (expects_ED.isSubpart nofun) .nothing
    | surrogate =>
      obtain ⟨x, hlow, hhigh, rfl⟩ := h
      exact decodes_surrogate hlow hhigh .nothing
  | cons b bytes ih =>
    -- a byte that goes on with nothing is read as the first of all
    have hlead : Decodes (b :: bytes) ((lead b).1 ++ (lead b).2.decodeRest bytes) := by
      rcases lead_cases b with ⟨he, hb⟩ | ⟨hnone, hb⟩ | ⟨d', hb, hd'⟩
      · rw [hb, ← List.singleton_append, ← he]
        exact .char (ih (d := start) rfl)
      · rw [hb]
        exact .replaced (isSubpart_singleton hnone bytes) (ih (d := start) rfl)
      · rw [hb]
        exact ih hd'
    rw [decodeRest_cons]
    cases d with
    | start =>
      rw [show held = [] from h]
      exact hlead
    | inside more low high value =>
      by_cases hb : low ≤ b.toNat ∧ b.toNat ≤ high
      · cases more with
        | zero =>
          rw [step, if_pos hb, List.append_cons, ← Expects.last h hb]
          exact .char (ih (d := start) rfl)
        | succ more =>
          rw [step, if_pos hb, List.append_cons]
          exact ih (Expects.next h hb)
      · rw [step, if_neg hb]
        refine .replaced (Expects.isSubpart h fun b' rest' he => ?_) hlead
        cases he
        exact hb
    | afterED =>
      rw [show held = [0xED] from h, step]
      split
      next hb =>
        have hnext : Holds ([0xED] ++ [b]) (inside 0 0x80 0xBF (0xD * 64 + b.toNat % 64)) :=
          expects_ED.next hb
        exact ih hnext
      split
      next hb =>
        have hnext : Holds ([0xED] ++ [b]) surrogate := ⟨b, hb.1, hb.2, rfl⟩
        exact ih hnext
      next hb _ =>
        refine .replaced (expects_ED.isSubpart fun b' rest' he => ?_) hlead
        cases he
        exact hb
    | surrogate =>
      obtain ⟨x, hlow, hhigh, rfl⟩ := h
      exact decodes_surrogate hlow hhigh hlead

/-- **Decoding gives what the bytes mean**, and nothing else is meant. -/
theorem decodes_iff : Decodes bytes text ↔ text = decode bytes := by
  have h : Decodes bytes (decode bytes) := decodes_decodeRest bytes (d := start) rfl
  exact ⟨fun ht => ht.unique h, fun ht => ht ▸ h⟩

theorem decode_utf8 (cs : List Char) : decode (utf8 cs) = cs :=
  (decodes_iff.mp (decodes_utf8 cs)).symm

end Utf8

end VerifierHost.Text
