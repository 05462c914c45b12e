import VerifierHost.Proofs.Findings.LastWord

/-! # Clearing a file

To clear a file is to forget the calls that name it. A call about the file leaves nothing that
clearing it would not take away, and any other call can change places with the clearing; so the
findings are those of the other calls alone, up to whether an index has noted a change (`Alike`). -/

namespace VerifierHost

/-! ## Indexes -/

namespace AnnotationIndex

variable {π δ : Type} {kind : AnnotationKind π δ} {x y z : AnnotationIndex π} {file other : Text}
  {c : IndexCall δ}

/-- Two indexes that differ at most in whether they have noted a change. -/
structure Alike (x y : AnnotationIndex π) : Prop where
  entries : x.entries = y.entries
  drawn : x.drawn = y.drawn
  stale : x.stale = y.stale

/-- Two indexes that hold the same of a file. -/
structure SameOn (x y : AnnotationIndex π) (file : Text) : Prop where
  entriesOf : x.entriesOf file = y.entriesOf file
  drawn : x.drawn.get? file = y.drawn.get? file
  stale : file ∈ x.stale ↔ file ∈ y.stale

/-- Two indexes that answer the same about a file. -/
structure AgreeOn (kind : AnnotationKind π δ) (x y : AnnotationIndex π) (file : Text) : Prop where
  entriesOf : x.entriesOf file = y.entriesOf file
  lookup : ∀ p, x.lookup file p = y.lookup file p
  hoverText : ∀ p, x.hoverText kind file p = y.hoverText kind file p
  annotations : (x.render kind file).annotations = (y.render kind file).annotations
  drawnNow : (x.render kind file).drawnNow = (y.render kind file).drawnNow

/-- An index that remembers the annotations of a file. -/
def remembering (x : AnnotationIndex π) (file : Text) (annotations : List Annotation) :
    AnnotationIndex π :=
  { x with drawn := x.drawn.put file annotations, stale := x.stale.filter (· ≠ file) }

theorem Alike.refl (x : AnnotationIndex π) : Alike x x := ⟨rfl, rfl, rfl⟩

theorem Alike.trans (h : Alike x y) (h' : Alike y z) : Alike x z :=
  ⟨h.entries.trans h'.entries, h.drawn.trans h'.drawn, h.stale.trans h'.stale⟩

theorem Alike.sameOn (h : Alike x y) (file : Text) : SameOn x y file :=
  ⟨entriesOf_congr h.entries file, by rw [h.drawn], by rw [h.stale]⟩

/-- A rendering depends on what is held of the file, and so does whether it is remembered. -/
theorem SameOn.render (h : SameOn x y file) (kind : AnnotationKind π δ) :
    (x.render kind file).annotations = (y.render kind file).annotations ∧
    (x.render kind file).drawnNow = (y.render kind file).drawnNow ∧
    ((x.render kind file).index = x ∧ (y.render kind file).index = y ∨
      ∃ annotations, (x.render kind file).index = x.remembering file annotations ∧
        (y.render kind file).index = y.remembering file annotations) := by
  have hstale : decide (file ∈ x.stale) = decide (file ∈ y.stale) := decide_eq_decide.mpr h.stale
  unfold AnnotationIndex.render
  rw [h.drawn, hstale, h.entriesOf]
  split
  next => exact ⟨rfl, rfl, .inl ⟨rfl, rfl⟩⟩
  next =>
    dsimp only
    split
    next => exact ⟨rfl, rfl, .inl ⟨rfl, rfl⟩⟩
    next annotations _ => exact ⟨rfl, rfl, .inr ⟨annotations, rfl, rfl⟩⟩

theorem SameOn.agreeOn (h : SameOn x y file) (kind : AnnotationKind π δ) :
    AgreeOn kind x y file := by
  have hlookup : ∀ p, x.lookup file p = y.lookup file p := fun p => by
    rw [lookup, lookup, h.entriesOf]
  obtain ⟨hannotations, hdrawn, -⟩ := h.render kind
  exact ⟨h.entriesOf, hlookup, fun p => by rw [hoverText, hoverText, hlookup], hannotations, hdrawn⟩

/-! A call does the same to indexes that are alike. -/

theorem Alike.call (h : Alike x y) (kind : AnnotationKind π δ) (c : IndexCall δ) :
    Alike (x.call kind c) (y.call kind c) := by
  cases c with
  | update f range delta =>
    refine ⟨?_, h.drawn, ?_⟩
    · show x.entries.put f _ = y.entries.put f _
      rw [entriesOf, entriesOf, h.entries]
    · show (if f ∈ x.stale then x.stale else x.stale ++ [f]) = _
      rw [h.stale]
      rfl
  | render f =>
    obtain ⟨-, -, ⟨hx, hy⟩ | ⟨annotations, hx, hy⟩⟩ := (h.sameOn f).render kind
    · rwa [AnnotationIndex.call, AnnotationIndex.call, hx, hy]
    · rw [AnnotationIndex.call, AnnotationIndex.call, hx, hy]
      exact ⟨h.entries, congrArg (Table.put · f annotations) h.drawn,
        congrArg (List.filter (· ≠ f)) h.stale⟩
  | clearFile f =>
    exact ⟨congrArg (Table.erase · f) h.entries, congrArg (Table.erase · f) h.drawn,
      congrArg (List.filter (· ≠ f)) h.stale⟩
  | clear => exact ⟨rfl, rfl, rfl⟩
  | takeChanged => exact ⟨h.entries, h.drawn, h.stale⟩
  | entries | files | lookup | hoverText => exact h

/-! What clearing a file leaves -/

theorem files_clearFile (x : AnnotationIndex π) (file : Text) :
    (x.clearFile file).files = x.files.filter (· ≠ file) := by
  show (x.entries.filter fun row => row.1 ≠ file).map Prod.fst = (x.entries.map Prod.fst).filter _
  rw [List.filter_map]
  rfl

theorem sameOn_clearFile_empty (x : AnnotationIndex π) (file : Text) :
    SameOn (x.clearFile file) .empty file := by
  refine ⟨?_, Table.get?_erase_self x.drawn file, ?_⟩
  · rw [entriesOf_clearFile, if_pos rfl]
    rfl
  · show file ∈ x.stale.filter (· ≠ file) ↔ file ∈ []
    simp

theorem sameOn_clearFile_of_ne (x : AnnotationIndex π) (h : other ≠ file) :
    SameOn (x.clearFile file) x other := by
  refine ⟨?_, Table.get?_erase_of_ne x.drawn h.symm, ?_⟩
  · rw [entriesOf_clearFile, if_neg h.symm]
  · show other ∈ x.stale.filter (· ≠ file) ↔ other ∈ x.stale
    simp [h]

theorem alike_clearFile_remembering (x : AnnotationIndex π) (file : Text)
    (annotations : List Annotation) :
    Alike ((x.remembering file annotations).clearFile file) (x.clearFile file) := by
  refine ⟨rfl, Table.erase_put_self _ _ _, ?_⟩
  show (x.stale.filter (· ≠ file)).filter (· ≠ file) = x.stale.filter (· ≠ file)
  simp [List.filter_filter]

theorem alike_clearFile_remembering_of_ne (x : AnnotationIndex π) (h : other ≠ file)
    (annotations : List Annotation) :
    Alike ((x.remembering other annotations).clearFile file)
      ((x.clearFile file).remembering other annotations) :=
  ⟨rfl, Table.erase_put_of_ne _ h _, List.filter_comm ..⟩

/-- Clearing a file takes away what a call about it has done. -/
theorem alike_clearFile_of_isAbout (kind : AnnotationKind π δ) (x : AnnotationIndex π)
    (h : c.isAbout file = true) :
    Alike ((x.call kind c).clearFile file) (x.clearFile file) := by
  cases c with
  | update f range delta =>
    obtain rfl : f = file := of_decide_eq_true h
    refine ⟨Table.erase_put_self _ _ _, rfl, ?_⟩
    show (if f ∈ x.stale then x.stale else x.stale ++ [f]).filter (· ≠ f) = _
    split
    next => rfl
    next => simp [clearFile]
  | render f =>
    obtain rfl : f = file := of_decide_eq_true h
    obtain ⟨-, -, ⟨hx, -⟩ | ⟨annotations, hx, -⟩⟩ := ((Alike.refl x).sameOn f).render kind
    · rw [call, hx]
      exact .refl _
    · rw [call, hx]
      exact alike_clearFile_remembering x f annotations
  | clearFile f =>
    obtain rfl : f = file := of_decide_eq_true h
    refine ⟨Table.erase_erase_self _ _, Table.erase_erase_self _ _, ?_⟩
    show (x.stale.filter (· ≠ f)).filter (· ≠ f) = x.stale.filter (· ≠ f)
    simp [List.filter_filter]
  | entries | lookup | hoverText => exact .refl _
  | files | takeChanged | clear => cases h

/-- Any other call can change places with the clearing. -/
theorem alike_clearFile_of_not_isAbout (kind : AnnotationKind π δ) (x : AnnotationIndex π)
    (h : c.isAbout file = false) :
    Alike ((x.call kind c).clearFile file) ((x.clearFile file).call kind c) := by
  cases c with
  | update f range delta =>
    have hne : f ≠ file := of_decide_eq_false h
    refine ⟨?_, rfl, ?_⟩
    · show (x.entries.put f _).erase file = (x.entries.erase file).put f _
      rw [Table.erase_put_of_ne _ hne, entriesOf_clearFile, if_neg hne.symm]
    · show (if f ∈ x.stale then x.stale else x.stale ++ [f]).filter (· ≠ file) =
        if f ∈ x.stale.filter (· ≠ file) then x.stale.filter (· ≠ file)
        else x.stale.filter (· ≠ file) ++ [f]
      by_cases hf : f ∈ x.stale <;> simp [hf, hne]
  | render f =>
    have hne : f ≠ file := of_decide_eq_false h
    obtain ⟨-, -, ⟨hx, hy⟩ | ⟨annotations, hx, hy⟩⟩ := (sameOn_clearFile_of_ne x hne).render kind
    · rw [call, call, hx, hy]
      exact .refl _
    · rw [call, call, hx, hy]
      exact alike_clearFile_remembering_of_ne x hne annotations
  | clearFile f => exact ⟨Table.erase_comm .., Table.erase_comm .., List.filter_comm ..⟩
  | takeChanged | clear | entries | files | lookup | hoverText => exact ⟨rfl, rfl, rfl⟩

end AnnotationIndex

/-! ## Findings -/

namespace Findings

variable {f g h : Findings} {file other : Text} {c : FindingsCall}

/-- Findings that differ at most in whether their indexes have noted a change. -/
structure Alike (f g : Findings) : Prop where
  instantiations : f.instantiations.Alike g.instantiations
  triggers : f.triggers.Alike g.triggers
  verdicts : f.verdicts = g.verdicts
  methodRanges : f.methodRanges = g.methodRanges

/-- Findings that answer the same about a file. -/
structure AgreeOn (f g : Findings) (file : Text) : Prop where
  instantiations : f.instantiations.AgreeOn instantiationKind g.instantiations file
  triggers : f.triggers.AgreeOn triggerKind g.triggers file
  verdictsOf : f.verdictsOf file = g.verdictsOf file
  rangesOf : f.rangesOf file = g.rangesOf file
  decorations : f.decorations file = g.decorations file

/-- Findings that answer the same whatever they are asked. -/
structure Agree (f g : Findings) : Prop where
  on : ∀ file, f.AgreeOn g file
  instantiated : f.instantiations.files = g.instantiations.files
  triggered : f.triggers.files = g.triggers.files
  verdicts : f.verdicts = g.verdicts
  methodRanges : f.methodRanges = g.methodRanges
  fileOfMethod? : ∀ method, f.fileOfMethod? method = g.fileOfMethod? method

theorem Alike.refl (f : Findings) : Alike f f := ⟨.refl _, .refl _, rfl, rfl⟩

theorem Alike.trans (hfg : Alike f g) (hgh : Alike g h) : Alike f h :=
  ⟨hfg.instantiations.trans hgh.instantiations, hfg.triggers.trans hgh.triggers,
    hfg.verdicts.trans hgh.verdicts, hfg.methodRanges.trans hgh.methodRanges⟩

theorem verdict?_eq (f : Findings) (file method : Text) :
    f.verdict? file method = (f.verdictsOf file).reverse.find? (·.method = method) := by
  rw [verdict?, verdictsOf, ← List.filter_reverse, List.find?_filter]
  simp

/-- The decorations of a file depend on its ranges and its verdicts. -/
theorem decorations_congr (hranges : f.rangesOf file = g.rangesOf file)
    (hverdicts : f.verdictsOf file = g.verdictsOf file) :
    f.decorations file = g.decorations file := by
  rw [decorations_eq, decorations_eq, hranges]
  refine List.map_congr_left fun row _ => decorationOf_congr ?_ row.2
  rw [verdict?_eq, verdict?_eq, hverdicts]

theorem Alike.agree (hfg : Alike f g) : Agree f g where
  on file :=
    { instantiations := (hfg.instantiations.sameOn file).agreeOn instantiationKind
      triggers := (hfg.triggers.sameOn file).agreeOn triggerKind
      verdictsOf := by rw [verdictsOf, verdictsOf, hfg.verdicts]
      rangesOf := by rw [rangesOf, rangesOf, hfg.methodRanges]
      decorations := decorations_congr (by rw [rangesOf, rangesOf, hfg.methodRanges])
        (by rw [verdictsOf, verdictsOf, hfg.verdicts]) }
  instantiated := congrArg Table.keys hfg.instantiations.entries
  triggered := congrArg Table.keys hfg.triggers.entries
  verdicts := hfg.verdicts
  methodRanges := hfg.methodRanges
  fileOfMethod? method := by rw [fileOfMethod?, fileOfMethod?, hfg.methodRanges]

/-! A call does the same to findings that are alike. -/

theorem Alike.call (hfg : Alike f g) (c : FindingsCall) : Alike (f.call c) (g.call c) := by
  obtain ⟨hi, ht, hv, hr⟩ := hfg
  cases c with
  | instantiations c => exact ⟨hi.call _ c, ht, hv, hr⟩
  | triggers c => exact ⟨hi, ht.call _ c, hv, hr⟩
  | recordMethod file method range =>
    exact ⟨hi, ht, hv, congrArg (Table.put · (file, method) range) hr⟩
  | recordVerdict v =>
    refine ⟨hi, ht, ?_, hr⟩
    show f.verdicts.filter _ ++ [v] = g.verdicts.filter _ ++ [v]
    rw [hv]
  | clearFile file =>
    exact ⟨hi.call instantiationKind (.clearFile file), ht.call triggerKind (.clearFile file),
      congrArg (List.filter _) hv, congrArg (List.filter _) hr⟩
  | clear => exact .refl _

theorem Alike.calls (hfg : Alike f g) (calls : List FindingsCall) :
    Alike (calls.foldl Findings.call f) (calls.foldl Findings.call g) := by
  induction calls generalizing f g with
  | nil => exact hfg
  | cons c rest ih => exact ih (hfg.call c)

/-- Clearing a file takes away what a call about it has done. -/
theorem alike_clearFile_of_isAbout (f : Findings) (hc : c.isAbout file = true) :
    Alike ((f.call c).clearFile file) (f.clearFile file) := by
  cases c with
  | instantiations c =>
    exact ⟨f.instantiations.alike_clearFile_of_isAbout _ hc, .refl _, rfl, rfl⟩
  | triggers c => exact ⟨.refl _, f.triggers.alike_clearFile_of_isAbout _ hc, rfl, rfl⟩
  | recordMethod g method range =>
    obtain rfl : g = file := of_decide_eq_true hc
    refine ⟨.refl _, .refl _, rfl, ?_⟩
    refine (Table.filter_put (fun key : Text × Text => decide (key.1 ≠ g)) ..).trans ?_
    rw [if_neg (by simp)]
    rfl
  | recordVerdict v =>
    obtain rfl : v.file = file := of_decide_eq_true hc
    refine ⟨.refl _, .refl _, ?_, rfl⟩
    show (f.verdicts.filter _ ++ [v]).filter _ = f.verdicts.filter _
    rw [List.filter_append, List.filter_filter, List.filter_cons_of_neg (by simp), List.filter_nil,
      List.append_nil]
    refine List.filter_congr fun w _ => ?_
    by_cases hw : w.file = v.file <;> simp [hw]
  | clearFile g =>
    obtain rfl : g = file := of_decide_eq_true hc
    have hindex : ∀ {δ : Type}, (IndexCall.clearFile g : IndexCall δ).isAbout g = true := hc
    refine ⟨f.instantiations.alike_clearFile_of_isAbout instantiationKind hindex,
      f.triggers.alike_clearFile_of_isAbout triggerKind hindex, ?_, ?_⟩
    · exact List.filter_filter.trans (List.filter_congr fun v _ => Bool.and_self _)
    · exact List.filter_filter.trans (List.filter_congr fun v _ => Bool.and_self _)
  | clear => cases hc

/-- Any other call can change places with the clearing. -/
theorem alike_clearFile_of_not_isAbout (f : Findings) (hc : c.isAbout file = false) :
    Alike ((f.call c).clearFile file) ((f.clearFile file).call c) := by
  cases c with
  | instantiations c =>
    exact ⟨f.instantiations.alike_clearFile_of_not_isAbout _ hc, .refl _, rfl, rfl⟩
  | triggers c => exact ⟨.refl _, f.triggers.alike_clearFile_of_not_isAbout _ hc, rfl, rfl⟩
  | recordMethod g method range =>
    have hne : g ≠ file := of_decide_eq_false hc
    refine ⟨.refl _, .refl _, rfl, ?_⟩
    refine (Table.filter_put (fun key : Text × Text => decide (key.1 ≠ file)) ..).trans ?_
    rw [if_pos (by simpa using hne)]
    rfl
  | recordVerdict v =>
    have hne : v.file ≠ file := of_decide_eq_false hc
    refine ⟨.refl _, .refl _, ?_, rfl⟩
    show (f.verdicts.filter _ ++ [v]).filter _ = (f.verdicts.filter _).filter _ ++ [v]
    rw [List.filter_append, List.filter_cons_of_pos (by simpa using hne), List.filter_nil,
      List.filter_comm]
  | clearFile g =>
    have hindex : ∀ {δ : Type}, (IndexCall.clearFile g : IndexCall δ).isAbout file = false := hc
    exact ⟨f.instantiations.alike_clearFile_of_not_isAbout instantiationKind hindex,
      f.triggers.alike_clearFile_of_not_isAbout triggerKind hindex,
      List.filter_comm .., List.filter_comm ..⟩
  | clear => exact .refl _

/-- Clearing a file at the end is as good as leaving out all calls about it. -/
theorem alike_clearFile_after (calls : List FindingsCall) (file : Text) :
    Alike ((after calls).clearFile file) (after (calls.filter fun c => !c.isAbout file)) := by
  induction calls using List.reverseRecOn with
  | nil => exact .refl _
  | append_singleton calls c ih =>
    rw [after_concat, List.filter_append]
    cases hc : c.isAbout file with
    | true =>
      rw [List.filter_cons_of_neg (by simp [hc]), List.filter_nil, List.append_nil]
      exact (alike_clearFile_of_isAbout _ hc).trans ih
    | false =>
      rw [List.filter_cons_of_pos (by simp [hc]), List.filter_nil, after_concat]
      exact (alike_clearFile_of_not_isAbout _ hc).trans (ih.call c)

theorem verdictsOf_clearFile (f : Findings) (file other : Text) :
    (f.clearFile file).verdictsOf other = if file = other then [] else f.verdictsOf other := by
  show (f.verdicts.filter fun v => v.file ≠ file).filter _ = _
  rw [List.filter_filter]
  by_cases hf : file = other
  · subst hf
    simp
  · rw [if_neg hf, verdictsOf]
    refine List.filter_congr fun v _ => ?_
    by_cases hv : v.file = other <;> simp [hv, Ne.symm hf]

/-- Nothing is left of a file that was cleared. -/
theorem agreeOn_clearFile_empty (f : Findings) (file : Text) :
    (f.clearFile file).AgreeOn .empty file := by
  have hranges : (f.clearFile file).rangesOf file = [] :=
    (rangesOf_clearFile f file file).trans (if_pos rfl)
  have hverdicts : (f.clearFile file).verdictsOf file = [] :=
    (verdictsOf_clearFile f file file).trans (if_pos rfl)
  exact
    { instantiations := (f.instantiations.sameOn_clearFile_empty file).agreeOn instantiationKind
      triggers := (f.triggers.sameOn_clearFile_empty file).agreeOn triggerKind
      verdictsOf := hverdicts
      rangesOf := hranges
      decorations := decorations_congr hranges hverdicts }

/-- The other files are left as they were. -/
theorem agreeOn_clearFile_of_ne (f : Findings) (hne : other ≠ file) :
    (f.clearFile file).AgreeOn f other := by
  have hranges : (f.clearFile file).rangesOf other = f.rangesOf other :=
    (rangesOf_clearFile f file other).trans (if_neg hne.symm)
  have hverdicts : (f.clearFile file).verdictsOf other = f.verdictsOf other :=
    (verdictsOf_clearFile f file other).trans (if_neg hne.symm)
  exact
    { instantiations := (f.instantiations.sameOn_clearFile_of_ne hne).agreeOn instantiationKind
      triggers := (f.triggers.sameOn_clearFile_of_ne hne).agreeOn triggerKind
      verdictsOf := hverdicts
      rangesOf := hranges
      decorations := decorations_congr hranges hverdicts }

/-- **Clearing a file erases exactly that file.** From then on, whatever is called, the findings
answer as if no call before had been about the file. Of the file nothing is left; the other files
are as they were, and so is their order, that of the verdicts and that of the methods. -/
theorem clearFile_erases (calls : List FindingsCall) (file : Text) :
    (∀ later, (after (calls ++ .clearFile file :: later)).Agree
      (after (calls.filter (fun c => !c.isAbout file) ++ later))) ∧
    ((after calls).clearFile file).AgreeOn .empty file ∧
    (∀ other, other ≠ file → ((after calls).clearFile file).AgreeOn (after calls) other) ∧
    ((after calls).clearFile file).instantiations.files =
      (after calls).instantiations.files.filter (· ≠ file) ∧
    ((after calls).clearFile file).triggers.files =
      (after calls).triggers.files.filter (· ≠ file) ∧
    ((after calls).clearFile file).verdicts = (after calls).verdicts.filter (·.file ≠ file) ∧
    ((after calls).clearFile file).methodRanges =
      (after calls).methodRanges.filter (·.1.1 ≠ file) := by
  refine ⟨fun later => ?_, agreeOn_clearFile_empty _ file,
    fun other hne => agreeOn_clearFile_of_ne _ hne,
    AnnotationIndex.files_clearFile _ file, AnnotationIndex.files_clearFile _ file, rfl, rfl⟩
  rw [after_append, after_append]
  exact ((alike_clearFile_after calls file).calls later).agree

/-! Two files with a method of one name; one of them is drawn and the other is cleared. -/

def twoFiles : List FindingsCall :=
  [.triggers (.update "a.rs" .dummy ⟨"q", "t"⟩), .triggers (.update "b.rs" .dummy ⟨"q", "t"⟩),
    .recordMethod "a.rs" "f" .dummy, .recordMethod "b.rs" "f" .dummy,
    .recordVerdict ⟨"b.rs", "f", true, none, false⟩, .triggers (.render "b.rs")]

theorem clearFile_erases_drawn :
    ("b.rs" : Text) ≠ "a.rs" ∧
    (((after twoFiles).clearFile "a.rs").triggers.render triggerKind "b.rs").drawnNow = [] ∧
    ((after twoFiles).clearFile "a.rs").decorations "b.rs" =
      [⟨Range.dummy.restOfLine, .success, none, some false⟩] ∧
    (after twoFiles).fileOfMethod? "f" = some "a.rs" ∧
    (after (twoFiles ++ [.clearFile "a.rs"])).fileOfMethod? "f" = some "b.rs" := by
  have hne : ("b.rs" : Text) ≠ "a.rs" := by decide
  obtain ⟨hlater, -, hothers, -⟩ := clearFile_erases twoFiles "a.rs"
  have hother := hothers "b.rs" hne
  refine ⟨hne, ?_, ?_, rfl, ?_⟩
  · rw [hother.triggers.drawnNow]
    rfl
  · rw [hother.decorations]
    rfl
  · rw [(hlater []).fileOfMethod?]
    rfl

end Findings

end VerifierHost
