import VerifierHost.Proofs.Location.Percent
import VerifierHost.Proofs.Text.Split

/-! # From a path to its URI and back

The text of an absolute path in normal form is cut into the very segments that it was joined from,
so the path is read back from it (`ofText_toText`). A URI is the encoded text of such a path and is
decoded to it; so the URI of a file tells the path of the file, in normal form, and nothing else. -/

namespace VerifierHost

namespace Text

/-- A text without lone halves. -/
def IsWhole (t : Text) : Prop := ∃ cs, t = ofChars cs

variable {s t : Text}

theorem isWhole_iff : t.IsWhole ↔ ∀ p ∈ t.points, ∃ c, p = .char c := by
  constructor
  · rintro ⟨cs, rfl⟩ p hp
    obtain ⟨c, -, rfl⟩ := List.mem_map.mp hp
    exact ⟨c, rfl⟩
  · intro h
    refine ⟨t.points.map CodePoint.toChar, ?_⟩
    have hpoints : (t.points.map CodePoint.toChar).map CodePoint.char = t.points := by
      rw [List.map_map]
      refine (List.map_congr_left fun p hp => ?_).trans (List.map_id _)
      obtain ⟨c, rfl⟩ := h p hp
      rfl
    exact congrArg Text.mk hpoints.symm

theorem IsWhole.append (hs : s.IsWhole) (ht : t.IsWhole) : (s ++ t).IsWhole := by
  rw [isWhole_iff] at hs ht ⊢
  exact fun p hp => (List.mem_append.mp hp).elim (hs p) (ht p)

theorem isWhole_ofString (s : String) : (ofString s).IsWhole := ⟨s.toList, rfl⟩

theorem isWhole_join {parts : List Text} (h : ∀ part ∈ parts, part.IsWhole) :
    (join "/" parts).IsWhole := by
  induction parts with
  | nil => exact isWhole_ofString ""
  | cons part rest ih =>
    obtain ⟨hpart, hrest⟩ := List.forall_mem_cons.mp h
    cases rest with
    | nil => exact hpart
    | cons next rest => exact (hpart.append (isWhole_ofString "/")).append (ih hrest)

/-- The bytes of a text without lone halves are those of its characters. -/
theorem nameBytes?_ofChars (cs : List Char) : (ofChars cs).nameBytes? = some (utf8 cs) := by
  have h : ∀ cs : List Char, (cs.map CodePoint.char).mapM CodePoint.nameBytes? =
      some (cs.map utf8Char) := by
    intro cs
    induction cs with
    | nil => rfl
    | cons c rest ih =>
      rw [List.map_cons, List.mapM_cons, ih]
      rfl
  rw [nameBytes?, ofChars, h, Option.map_some, utf8, List.flatMap_def]

end Text

namespace FilePath

open Text (splitOn splitOn_append_cons splitOn_of_not_mem)

variable {directory p : FilePath}

/-! ## Normal form -/

/-- A segment of a path in normal form, without lone halves. -/
structure IsSegment (segment : Text) : Prop where
  named : isNamed segment = true
  uncut : slash ∉ segment.points
  whole : segment.IsWhole

/-- An absolute path in normal form, without lone halves. -/
structure IsPlace (p : FilePath) : Prop where
  absolute : p.isAbsolute = true
  segments : ∀ segment ∈ p.segments, IsSegment segment

/-- The path that a text names, seen from a directory. -/
def seenFrom (directory : FilePath) (path : Text) : FilePath := under directory (ofText path)

/-- Characters that name a place: they are an absolute path, or they are seen from a place. -/
def NamesPlace (directory : FilePath) (path : List Char) : Prop :=
  (ofText (.ofChars path)).isAbsolute = true ∨ directory.IsPlace

theorem isSegment_of_mem_ofText {path : List Char} {segment : Text}
    (h : segment ∈ (ofText (.ofChars path)).segments) : IsSegment segment := by
  obtain ⟨hsegment, hnamed⟩ := List.mem_filter.mp h
  obtain ⟨piece, hpiece, rfl⟩ := List.mem_map.mp hsegment
  obtain ⟨before, after, hp⟩ := Text.exists_isPiece hpiece
  refine ⟨hnamed, hp.plain, Text.isWhole_iff.mpr fun c hc => ?_⟩
  exact Text.isWhole_iff.mp ⟨path, rfl⟩ c (Text.mem_of_mem_splitOn hpiece hc)

theorem NamesPlace.isPlace {path : List Char} (h : NamesPlace directory path) :
    (seenFrom directory (.ofChars path)).IsPlace := by
  have hsegments : ∀ segment ∈ (ofText (.ofChars path)).segments, IsSegment segment :=
    fun _ hs => isSegment_of_mem_ofText hs
  unfold seenFrom under
  split
  next habs => exact ⟨habs, hsegments⟩
  next habs =>
    have hplace : directory.IsPlace := h.resolve_left habs
    refine ⟨hplace.absolute, fun segment hs => ?_⟩
    exact (List.mem_append.mp hs).elim (hplace.segments segment) (hsegments segment)

/-! ## Paths are read back from their texts -/

/-- Segments that are joined are split again. -/
theorem splitOn_join {segments : List Text} (hne : segments ≠ [])
    (h : ∀ segment ∈ segments, slash ∉ segment.points) :
    splitOn slash (Text.join "/" segments).points = segments.map Text.points := by
  induction segments with
  | nil => exact absurd rfl hne
  | cons segment rest ih =>
    obtain ⟨hsegment, hrest⟩ := List.forall_mem_cons.mp h
    cases rest with
    | nil => exact splitOn_of_not_mem hsegment
    | cons next rest =>
      have hpoints : (Text.join "/" (segment :: next :: rest)).points =
          segment.points ++ slash :: (Text.join "/" (next :: rest)).points := by
        show (segment ++ ("/" : Text) ++ Text.join "/" (next :: rest)).points = _
        rw [Text.points_append, Text.points_append, List.append_assoc]
        rfl
      rw [hpoints, splitOn_append_cons, splitOn_of_not_mem hsegment, ih (by simp) hrest]
      rfl

/-- The segments of a place are those of its text after the root. -/
theorem IsPlace.filter_segmentsOf (h : p.IsPlace) :
    (segmentsOf (Text.join "/" p.segments)).filter isNamed = p.segments := by
  by_cases hne : p.segments = []
  · rw [hne]
    rfl
  · have hpieces := splitOn_join hne fun segment hs => (h.segments segment hs).uncut
    rw [slash] at hpieces
    rw [segmentsOf, hpieces, List.map_map]
    exact (congrArg _ (List.map_id _)).trans (List.filter_eq_self.mpr fun segment hs =>
      (h.segments segment hs).named)

theorem IsPlace.toText (h : p.IsPlace) : p.toText = p.root.text ++ Text.join "/" p.segments := by
  have hroot : p.root ≠ .relative := bne_iff_ne.mp h.absolute
  exact if_neg fun hp => hroot hp.1

/-- Joined segments begin with the first of them, so with no slash. -/
theorem IsPlace.head?_join (h : p.IsPlace) :
    (Text.join "/" p.segments).points.head? ≠ some slash := by
  intro hhead
  cases hs : p.segments with
  | nil => exact nomatch hs ▸ hhead
  | cons segment rest =>
    have hmem : segment ∈ p.segments := hs ▸ List.mem_cons_self
    obtain ⟨points⟩ := segment
    cases points with
    | nil => exact nomatch (h.segments _ hmem).named
    | cons c points =>
      have hc : c = slash := by
        rw [hs] at hhead
        cases rest <;> exact Option.some.inj hhead
      exact (h.segments _ hmem).uncut (hc ▸ List.mem_cons_self)

/-- A slash before a text that begins with none makes its segments absolute. -/
theorem ofText_single {t : Text} (h : t.points.head? ≠ some slash) :
    ofText ⟨slash :: t.points⟩ = ⟨.single, (segmentsOf t).filter isNamed⟩ := by
  obtain ⟨points⟩ := t
  -- the piece before the slash is empty and names nothing
  refine congrArg₂ FilePath.mk ?_ rfl
  cases points with
  | nil => rfl
  | cons c rest =>
    have hc : c ≠ .char '/' := fun he => h (he ▸ rfl)
    simp [rootOf, slash, hc]

/-- Two slashes do so too, and are not the same root as one. -/
theorem ofText_double {t : Text} (h : t.points.head? ≠ some slash) :
    ofText ⟨slash :: slash :: t.points⟩ = ⟨.double, (segmentsOf t).filter isNamed⟩ := by
  obtain ⟨points⟩ := t
  refine congrArg₂ FilePath.mk ?_ rfl
  cases points with
  | nil => rfl
  | cons c rest =>
    have hc : c ≠ .char '/' := fun he => h (he ▸ rfl)
    simp [rootOf, slash, hc]

/-- **The text of a place is read back as it.** -/
theorem IsPlace.ofText_toText (h : p.IsPlace) : ofText p.toText = p := by
  have hhead := h.head?_join
  have hsegments := h.filter_segmentsOf
  rw [h.toText]
  obtain ⟨root, segments⟩ := p
  cases root with
  | relative => exact nomatch h.absolute
  | single =>
    have htext : Text.ofString (PathRoot.single.text) ++ Text.join "/" segments =
        ⟨slash :: (Text.join "/" segments).points⟩ := rfl
    exact htext ▸ (ofText_single hhead).trans (congrArg (FilePath.mk .single) hsegments)
  | double =>
    have htext : Text.ofString (PathRoot.double.text) ++ Text.join "/" segments =
        ⟨slash :: slash :: (Text.join "/" segments).points⟩ := rfl
    exact htext ▸ (ofText_double hhead).trans (congrArg (FilePath.mk .double) hsegments)

/-- The text of a place begins with a slash and has no lone halves. -/
theorem IsPlace.exists_toText (h : p.IsPlace) : ∃ cs, p.toText = .ofChars ('/' :: cs) := by
  obtain ⟨cs, hjoin⟩ := Text.isWhole_join fun segment hs => (h.segments segment hs).whole
  have habs := h.absolute
  rw [h.toText, hjoin]
  cases hroot : p.root with
  | relative =>
    rw [isAbsolute, hroot] at habs
    cases habs
  | single => exact ⟨cs, rfl⟩
  | double => exact ⟨'/' :: cs, rfl⟩

/-- A place is named by its text wherever it is seen from. -/
theorem IsPlace.seenFrom_toText (h : p.IsPlace) (directory : FilePath) :
    seenFrom directory p.toText = p := by
  rw [seenFrom, h.ofText_toText]
  exact if_pos h.absolute

theorem IsPlace.toText_inj {q : FilePath} (hp : p.IsPlace) (hq : q.IsPlace) :
    p.toText = q.toText ↔ p = q :=
  ⟨fun h => by rw [← hp.ofText_toText, h, hq.ofText_toText], congrArg FilePath.toText⟩

end FilePath

namespace Uri

open FilePath (seenFrom NamesPlace IsPlace)

/-! ## The URI of a place -/

theorem ofFile?_eq (directory : FilePath) (path : Text) : ofFile? directory path =
    (seenFrom directory path).toText.nameBytes?.map fun bytes =>
      "file://" ++ Text.ofChars (encode bytes) := rfl

/-- The bytes of a place are spelled as a URI, and the name read from it is the text of the
place. -/
theorem exists_uri {p : FilePath} (h : p.IsPlace) : ∃ uri,
    (p.toText.nameBytes?.map fun bytes => "file://" ++ Text.ofChars (encode bytes)) = some uri ∧
      fileName uri = .ok p.toText ∧ IsSpelled uri := by
  obtain ⟨cs, hcs⟩ := h.exists_toText
  have hslash : encode (Text.utf8 ('/' :: cs)) = '/' :: encode (Text.utf8 cs) := rfl
  have hparts : parts ("file://" ++ Text.ofChars (encode (Text.utf8 ('/' :: cs)))) =
      .ok ⟨fileScheme, [], (encode (Text.utf8 ('/' :: cs))).map .char⟩ := by
    rw [hslash]
    exact parts_of_path fun c hc => isPathChar_of_mem_encode (hslash ▸ hc)
  refine ⟨_, by rw [hcs, Text.nameBytes?_ofChars]; rfl, ?_, isSpelled_encode _⟩
  rw [fileName, hparts, hcs]
  show Except.ok (Text.mk (decode _)) = _
  rw [decode_encode, Text.Utf8.decode_utf8]
  rfl

/-- **A file is found again by its URI.** Whatever a path without lone halves is spelled with, it
has a URI; the name and the path that are read from the URI are those of the file, absolute and in
normal form; only slashes, unreserved characters and escapes stand behind the scheme; and two paths
have the same URI just if they come to the same path in normal form. A path that is absolute and in
normal form comes to itself. -/
theorem uri_names_place {directory : FilePath} {path : List Char} (h : NamesPlace directory path) :
    (seenFrom directory (.ofChars path)).IsPlace ∧
      ∃ uri, ofFile? directory (.ofChars path) = some uri ∧
        fileName uri = .ok (seenFrom directory (.ofChars path)).toText ∧
        toPath uri = .ok (seenFrom directory (.ofChars path)) ∧
        IsSpelled uri ∧
        (∀ other, NamesPlace directory other →
          (ofFile? directory (.ofChars other) = some uri ↔
            (seenFrom directory (.ofChars other)).toText =
              (seenFrom directory (.ofChars path)).toText)) ∧
        ∀ place : FilePath, place.IsPlace → seenFrom directory place.toText = place := by
  have hplace := h.isPlace
  obtain ⟨uri, huri, hname, hspelled⟩ := exists_uri hplace
  refine ⟨hplace, uri, huri, hname, ?_, hspelled, fun other hother => ?_,
    fun place hp => hp.seenFrom_toText directory⟩
  · rw [toPath, hname]
    exact congrArg Except.ok hplace.ofText_toText
  refine ⟨fun huri' => ?_, fun hsame => ?_⟩
  · obtain ⟨uri', hof, hname', -⟩ := exists_uri hother.isPlace
    obtain rfl : uri' = uri := Option.some.inj (hof.symm.trans huri')
    exact Except.ok.inj (hname'.symm.trans hname)
  · have hplaces : seenFrom directory (.ofChars other) = seenFrom directory (.ofChars path) :=
      (hother.isPlace.toText_inj hplace).mp hsame
    rwa [ofFile?_eq, hplaces]

/-- A path seen from a directory, with a blank, delimiters, a percent sign that looks like an
escape, a letter outside ASCII, a control character, dot segments and doubled slashes in it, and
another spelling of it. -/
theorem uri_names_place_awkward :
    let directory : FilePath := ⟨.double, ["w"]⟩
    let path := "./a b//?#;%2Fé\n/../".toList
    let other := "//w/a b/./?#;%2Fé\n/..".toList
    let uri : Text := "file:////w/a%20b/%3F%23%3B%252F%C3%A9%0A/.."
    NamesPlace directory path ∧ NamesPlace directory other ∧
      ofFile? directory (.ofChars path) = some uri ∧ ofFile? directory (.ofChars other) = some uri ∧
      fileName uri = .ok ("//w/a b/?#;%2Fé\n/.." : Text) ∧
      toPath uri = .ok ⟨.double, ["w", "a b", "?#;%2Fé\n", ".."]⟩ := by
  intro directory path other uri
  have hdirectory : directory.IsPlace := ⟨rfl, fun segment h =>
    List.mem_singleton.mp h ▸ ⟨by decide, by decide, ['w'], rfl⟩⟩
  have hplace : seenFrom directory (.ofChars path) =
      ⟨.double, ["w", "a b", "?#;%2Fé\n", ".."]⟩ := by decide +kernel
  have hother : seenFrom directory (.ofChars other) = seenFrom directory (.ofChars path) := by
    decide +kernel
  have huri : ofFile? directory (.ofChars path) = some uri := by decide +kernel
  obtain ⟨-, found, hfound, hname, hpath, -, hsame, -⟩ :=
    uri_names_place (.inr hdirectory : NamesPlace directory path)
  obtain rfl : found = uri := Option.some.inj (hfound.symm.trans huri)
  refine ⟨.inr hdirectory, .inl rfl, huri, (hsame other (.inl rfl)).mpr (by rw [hother]), ?_, ?_⟩
  · exact hname.trans (by rw [hplace]; rfl)
  · exact hpath.trans (by rw [hplace])

end Uri

end VerifierHost
