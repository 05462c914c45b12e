import VerifierHost.Diagnostic.Located
import VerifierHost.Proofs.Text.Split

/-! # Names that have bytes

A path has a URI if the bytes of its name are known. Every character has bytes, so only the lone
halves of surrogate pairs can be in the way; cutting a path into segments and putting segments
together brings no new ones. -/

namespace VerifierHost

namespace Text

/-- A text that can be the name of a file, as every text without lone halves can. -/
def HasBytes (t : Text) : Prop := t.nameBytes?.isSome

variable {s t : Text}

theorem hasBytes_iff : t.HasBytes ↔ ∀ c ∈ t.points, c.nameBytes?.isSome := by
  unfold HasBytes nameBytes?
  rw [Option.isSome_map]
  induction t.points with
  | nil => simp
  | cons c rest ih =>
    rw [List.mapM_cons, List.forall_mem_cons, ← ih]
    cases c.nameBytes? with
    | none => simp
    | some bytes => cases rest.mapM CodePoint.nameBytes? <;> simp

theorem hasBytes_ofChars (cs : List Char) : (ofChars cs).HasBytes := by
  rw [hasBytes_iff]
  intro c hc
  obtain ⟨char, -, rfl⟩ := List.mem_map.mp hc
  rfl

theorem hasBytes_ofString (s : String) : (ofString s).HasBytes := hasBytes_ofChars _

theorem HasBytes.append (hs : s.HasBytes) (ht : t.HasBytes) : (s ++ t).HasBytes := by
  rw [hasBytes_iff] at hs ht ⊢
  intro c hc
  exact (List.mem_append.mp hc).elim (hs c) (ht c)

theorem hasBytes_join {separator : Text} {parts : List Text} (hs : separator.HasBytes)
    (h : ∀ part ∈ parts, part.HasBytes) : (join separator parts).HasBytes := by
  induction parts with
  | nil => exact hasBytes_ofString _
  | cons part rest ih =>
    have hpart := h part List.mem_cons_self
    have hrest := ih fun p hp => h p (List.mem_cons_of_mem _ hp)
    cases rest with
    | nil => exact hpart
    | cons next rest => exact (hpart.append hs).append hrest

end Text

namespace FilePath

variable {directory p : FilePath} {file name : Text}

/-- A path all of whose segments have bytes. -/
def HasBytes (p : FilePath) : Prop := ∀ segment ∈ p.segments, segment.HasBytes

theorem HasBytes.toText (h : p.HasBytes) : p.toText.HasBytes := by
  unfold FilePath.toText
  split
  next => exact Text.hasBytes_ofString _
  next => exact (Text.hasBytes_ofString _).append (Text.hasBytes_join (Text.hasBytes_ofString _) h)

theorem hasBytes_ofText (h : file.HasBytes) : (ofText file).HasBytes := by
  intro segment hs
  obtain ⟨piece, hp, rfl⟩ := List.mem_map.mp (List.mem_filter.mp hs).1
  rw [Text.hasBytes_iff] at h ⊢
  exact fun c hc => h c (Text.mem_of_mem_splitOn hp hc)

theorem HasBytes.under (hd : directory.HasBytes) (hp : p.HasBytes) :
    (under directory p).HasBytes := by
  unfold FilePath.under
  split
  next => exact hp
  next => exact fun s hs => (List.mem_append.mp hs).elim (hd s) (hp s)

theorem hasBytes_joinText (hf : file.HasBytes) (hn : name.HasBytes) :
    (joinText file name).HasBytes := by
  unfold joinText
  split
  next => exact hn
  next =>
    split
    next => exact hf.append hn
    next => exact (hf.append (Text.hasBytes_ofString _)).append hn

end FilePath

/-- A file has a URI if its name and that of the directory have bytes. -/
theorem uriOf_ok {directory : FilePath} {file : Text} (hd : directory.HasBytes)
    (hf : file.HasBytes) : ∃ uri, uriOf directory file = .ok uri := by
  have hbytes := (hd.under (FilePath.hasBytes_ofText hf)).toText
  obtain ⟨bytes, hb⟩ := Option.isSome_iff_exists.mp hbytes
  exact ⟨_, by rw [uriOf, Uri.ofFile?, hb]; rfl⟩

theorem Origin.hasBytes_resolve {o : Origin} {file : Text} (hr : o.rootPath.HasBytes)
    (hf : file.HasBytes) : (o.resolve file).HasBytes := by
  unfold Origin.resolve
  cases o.mode with
  | crate => exact FilePath.hasBytes_joinText hr hf
  | standalone => exact hf

end VerifierHost
