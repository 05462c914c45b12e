import Mathlib.Data.List.TakeWhile
import VerifierHost.Location.Uri
import VerifierHost.Proofs.Text.Utf8

/-! # Percent-encoding

An encoded path is spelled with slashes, unreserved characters and escapes only (`IsUnit`), so none
of the delimiters of a URI is in it, and the path of the URI is all that was encoded. Decoding gives
the bytes back, and these the characters whose bytes they were. -/

namespace VerifierHost.Uri

open Text (Bytes)

/-! ## Units -/

/-- The characters that stand for themselves in every part of a URI. -/
def IsUnreserved (c : Char) : Prop :=
  c.isAlphanum = true ∨ c = '-' ∨ c = '.' ∨ c = '_' ∨ c = '~'

def IsHexUpper (c : Char) : Prop := '0' ≤ c ∧ c ≤ '9' ∨ 'A' ≤ c ∧ c ≤ 'F'

/-- The characters that an encoded path is spelled with. -/
def IsPathChar (c : Char) : Prop := c = '/' ∨ c = '%' ∨ IsUnreserved c

instance (c : Char) : Decidable (IsUnreserved c) := inferInstanceAs (Decidable (_ ∨ _))

instance (c : Char) : Decidable (IsHexUpper c) := inferInstanceAs (Decidable (_ ∨ _))

instance (c : Char) : Decidable (IsPathChar c) := inferInstanceAs (Decidable (_ ∨ _))

/-- What one byte of a path is spelled with. -/
inductive IsUnit : List Char → Prop where
  | slash : IsUnit ['/']
  | unreserved {c : Char} : IsUnreserved c → IsUnit [c]
  | escape {high low : Char} : IsHexUpper high → IsHexUpper low → IsUnit ['%', high, low]

theorem IsPathChar.ne {c d : Char} (h : IsPathChar c) (hd : ¬ IsPathChar d) : c ≠ d :=
  fun he => hd (he ▸ h)

theorem IsHexUpper.isUnreserved {c : Char} (h : IsHexUpper c) : IsUnreserved c := by
  refine .inl (Bool.or_eq_true_iff.mpr ?_)
  rcases h with ⟨hfirst, hlast⟩ | ⟨hfirst, hlast⟩
  · exact .inr (Bool.and_eq_true_iff.mpr ⟨decide_eq_true hfirst, decide_eq_true hlast⟩)
  · have hZ : c ≤ 'Z' := Char.le_trans hlast (by decide)
    exact .inl (Bool.or_eq_true_iff.mpr (.inl (decide_eq_true ⟨hfirst, hZ⟩)))

theorem IsUnit.isPathChar {unit : List Char} (h : IsUnit unit) : ∀ c ∈ unit, IsPathChar c := by
  cases h with
  | slash => simp [IsPathChar]
  | unreserved hd => simpa [IsPathChar] using Or.inr (.inr hd)
  | escape hhigh hlow =>
    simp only [List.forall_mem_cons]
    exact ⟨.inr (.inl rfl), .inr (.inr hhigh.isUnreserved), .inr (.inr hlow.isUnreserved), nofun⟩

/-! ## Bytes -/

theorem forall_byte {P : UInt8 → Prop} (h : ∀ n < 256, P (UInt8.ofNat n)) (b : UInt8) : P b := by
  rw [← UInt8.ofNat_toNat (x := b)]
  exact h _ b.toNat_lt

theorem hexUpper_spec : ∀ n < 16, IsHexUpper (hexUpper n) ∧ hexValue? (hexUpper n) = some n := by
  decide

/-- Bytes that are shown as they are are slashes or unreserved. -/
theorem plain_spec (b : UInt8) (h : isPlain b = true) :
    (Char.ofNat b.toNat = '/' ∨ IsUnreserved (Char.ofNat b.toNat)) ∧
      (Char.ofNat b.toNat).toNat = b.toNat ∧ b.toNat < 0x80 := by
  revert b
  exact forall_byte (by decide +kernel)

theorem isUnit_encodeByte (b : UInt8) : IsUnit (encodeByte b) := by
  unfold encodeByte
  split
  next h =>
    rcases (plain_spec b h).1 with hc | hc
    · exact hc ▸ .slash
    · exact .unreserved hc
  next =>
    have hlt := b.toNat_lt
    exact .escape (hexUpper_spec _ (by omega)).1 (hexUpper_spec _ (by omega)).1

theorem isPathChar_of_mem_encode {bytes : Bytes} {c : Char} (h : c ∈ encode bytes) :
    IsPathChar c := by
  obtain ⟨b, -, hc⟩ := List.mem_flatMap.mp h
  exact (isUnit_encodeByte b).isPathChar c hc

theorem length_le_encode (bytes : Bytes) : bytes.length ≤ (encode bytes).length := by
  induction bytes with
  | nil => exact Nat.le_refl 0
  | cons b rest ih =>
    have hunit : encodeByte b ≠ [] := fun he => nomatch he ▸ isUnit_encodeByte b
    have hpos := List.length_pos_iff.mpr hunit
    rw [encode] at ih
    rw [encode, List.flatMap_cons, List.length_append, List.length_cons]
    omega

/-! ## Decoding -/

theorem escaped?_hexUpper (b : UInt8) :
    escaped? (hexUpper (b.toNat / 16)) (hexUpper (b.toNat % 16)) = some b := by
  have hlt := b.toNat_lt
  simp only [escaped?, (hexUpper_spec (b.toNat / 16) (by omega)).2,
    (hexUpper_spec (b.toNat % 16) (by omega)).2]
  show some (UInt8.ofNat (b.toNat / 16 * 16 + b.toNat % 16)) = some b
  rw [Nat.div_add_mod', UInt8.ofNat_toNat]

theorem decodeFrom_encodeByte (fuel : Nat) (run : Bytes) (b : UInt8) (cs : List CodePoint) :
    decodeFrom (fuel + 1) run ((encodeByte b).map .char ++ cs) = decodeFrom fuel (b :: run) cs := by
  unfold encodeByte
  split
  next h =>
    obtain ⟨hc, hn, hlt⟩ := plain_spec b h
    have hpercent : Char.ofNat b.toNat ≠ '%' := fun he => absurd (he ▸ hc) (by decide)
    have hpoint : (CodePoint.char (Char.ofNat b.toNat)).toNat = b.toNat := hn
    rw [List.map_singleton, List.singleton_append, decodeFrom, if_pos (by rwa [hpoint]), hpoint,
      UInt8.ofNat_toNat]
    exact fun _ _ _ he _ => hpercent (CodePoint.char.inj he)
  next =>
    simp only [List.map_cons, List.map_nil, List.cons_append, List.nil_append, decodeFrom,
      escaped?_hexUpper]

theorem decodeFrom_encode (bytes run : Bytes) {fuel : Nat} (hfuel : bytes.length < fuel) :
    decodeFrom fuel run ((encode bytes).map .char) =
      (Text.Utf8.decode (run.reverse ++ bytes)).map .char := by
  induction bytes generalizing run fuel with
  | nil =>
    obtain ⟨fuel, rfl⟩ := Nat.exists_eq_add_of_lt hfuel
    rw [List.append_nil]
    rfl
  | cons b rest ih =>
    obtain ⟨fuel, rfl⟩ : ∃ n, fuel = n + 1 := ⟨fuel - 1, by omega⟩
    rw [encode, List.flatMap_cons, List.map_append, decodeFrom_encodeByte]
    refine (ih (b :: run) (by simpa using hfuel)).trans ?_
    rw [List.reverse_cons, List.append_assoc]
    rfl

/-- What is encoded is decoded, as the text of its bytes. -/
theorem decode_encode (bytes : Bytes) :
    decode ((encode bytes).map .char) = (Text.Utf8.decode bytes).map .char := by
  refine decodeFrom_encode bytes [] ?_
  rw [List.length_map]
  exact Nat.lt_succ_of_le (length_le_encode bytes)

/-! ## The URI of a path -/

/-- A URI of a file as files are spelled: behind the scheme and an empty authority there are units
only. -/
def IsSpelled (uri : Text) : Prop :=
  ∃ units : List (List Char), (∀ unit ∈ units, IsUnit unit) ∧
    uri = "file://" ++ Text.ofChars units.flatten

theorem isSpelled_encode (bytes : Bytes) :
    IsSpelled ("file://" ++ Text.ofChars (encode bytes)) := by
  refine ⟨bytes.map encodeByte, ?_, by rw [← List.flatMap_def]; rfl⟩
  intro unit hunit
  obtain ⟨b, -, rfl⟩ := List.mem_map.mp hunit
  exact isUnit_encodeByte b

theorem cutScheme_file (rest : List CodePoint) :
    cutScheme ((Text.ofString "file:").points ++ rest) = (fileScheme, rest) := rfl

theorem cutAuthority_file (rest : List CodePoint) :
    cutAuthority ((Text.ofString "///").points ++ rest) = ([], .char '/' :: rest) := rfl

section Path

variable {path : List Char}

/-- No line break and no tab is taken out of a URI that is spelled as such. -/
theorem cleaned_file (hpath : ∀ c ∈ path, IsPathChar c) :
    cleaned ((Text.ofString "file://").points ++ path.map .char) =
      (Text.ofString "file://").points ++ path.map .char := by
  have hkept : (path.map CodePoint.char).filter (fun c =>
      !c.isIn fun c => c = '\t' || c = '\r' || c = '\n') = path.map .char := by
    refine List.filter_eq_self.mpr fun p hp => ?_
    obtain ⟨c, hc, rfl⟩ := List.mem_map.mp hp
    have hne := fun d (hd : ¬ IsPathChar d) => (hpath c hc).ne hd
    simp [CodePoint.isIn, hne '\t' (by decide), hne '\r' (by decide), hne '\n' (by decide)]
  exact congrArg ((Text.ofString "file://").points ++ ·) hkept

/-- Nothing is cut off at a delimiter. -/
theorem before_delimiter (hpath : ∀ c ∈ path, IsPathChar c) {d : Char} (hd : ¬ IsPathChar d) :
    Text.before (.char d) (path.map CodePoint.char) = path.map .char := by
  refine List.takeWhile_eq_self_iff.mpr fun p hp => decide_eq_true ?_
  obtain ⟨c, hc, rfl⟩ := List.mem_map.mp hp
  exact fun he => (hpath c hc).ne hd (CodePoint.char.inj he)

/-- A path without delimiters is all that is left of a URI after the scheme and no authority. -/
theorem parts_of_path (hpath : ∀ c ∈ '/' :: path, IsPathChar c) :
    parts ("file://" ++ Text.ofChars ('/' :: path)) =
      .ok ⟨fileScheme, [], ('/' :: path).map .char⟩ := by
  have hpoints : (Text.ofChars ('/' :: path)).points = ('/' :: path).map .char := rfl
  have hscheme : cutScheme ((Text.ofString "file://").points ++ ('/' :: path).map .char) =
      (fileScheme, (Text.ofString "///").points ++ path.map .char) := cutScheme_file _
  unfold parts
  rw [Text.points_append, hpoints, cleaned_file hpath, hscheme]
  dsimp only
  rw [cutAuthority_file]
  dsimp only
  rw [← List.map_cons, before_delimiter hpath (by decide : ¬ IsPathChar '#'),
    before_delimiter hpath (by decide : ¬ IsPathChar '?')]
  rfl

end Path

end VerifierHost.Uri
