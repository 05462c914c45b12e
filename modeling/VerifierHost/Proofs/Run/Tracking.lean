import VerifierHost.Proofs.Run.Chronicle

/-! # Findings are noted, strays apart

A run may forget a file only if the file was noted. `Board.Tracks` says that every file with an
annotation or a verdict was, and that the ranges of methods in files that were not are exactly the
strays. Each kind of line keeps it, whether it is taken in, passed over or stops halfway. -/

namespace VerifierHost

open Wire

/-! ## Lists of names -/

@[simp] theorem mem_insertName {names : List Text} {name file : Text} :
    file ∈ insertName names name ↔ file ∈ names ∨ file = name := by
  unfold insertName
  split
  next h => exact ⟨Or.inl, fun hf => hf.elim id (· ▸ h)⟩
  next => simp

theorem mem_foldl_insertName {names seen : List Text} {file : Text} :
    file ∈ names.foldl insertName seen ↔ file ∈ seen ∨ file ∈ names := by
  induction names generalizing seen with
  | nil => simp
  | cons name rest ih =>
    rw [List.foldl_cons, ih, mem_insertName, List.mem_cons]
    exact or_assoc

@[simp] theorem Engine.mem_sortedNames {names : List Text} {file : Text} :
    file ∈ Engine.sortedNames names ↔ file ∈ names := by
  simp [Engine.sortedNames, List.mem_mergeSort, mem_foldl_insertName]

/-- What two lists have in common after a selection they have after any narrower one. -/
theorem filter_eq_of_imp {α : Type} {p q : α → Bool} {xs ys : List α}
    (h : xs.filter p = ys.filter p) (hqp : ∀ x, q x = true → p x = true) :
    xs.filter q = ys.filter q := by
  have hq : ∀ zs : List α, zs.filter q = (zs.filter p).filter q := by
    intro zs
    rw [List.filter_filter]
    apply List.filter_congr
    intro x _
    cases hx : q x with
    | false => rfl
    | true => simp [hqp x hx]
  rw [hq xs, hq ys, h]

/-! ## Annotations, ranges and verdicts -/

theorem AnnotationIndex.mem_files_update {π δ : Type} {kind : AnnotationKind π δ}
    {x : AnnotationIndex π} {file f : Text} {range : Range} {delta : δ} :
    f ∈ (x.update kind file range delta).files ↔ f = file ∨ f ∈ x.files :=
  Table.mem_keys_put

/-- Procedures are recorded as far as their places are on the map, and noted if all of them are. -/
theorem recordProcedures_eq (o : Origin) (procedures : List Procedure) (f : Findings)
    (files : List Text) :
    Board.recordProcedures o f files procedures =
      ({ f with methodRanges := f.methodRanges.putAll (procedureRows o procedures) },
        if onMap procedures then
          some (files ++ (procedureRows o procedures).map fun row => row.1.1)
        else none) := by
  induction procedures generalizing f files with
  | nil => simp [Board.recordProcedures, procedureRows, onMap]
  | cons p rest ih =>
    cases hr : p.span.callSite.range with
    | error e => simp [Board.recordProcedures, procedureRows, onMap, hr, Except.toOption]
    | ok range =>
      have hon : onMap (p :: rest) = onMap rest := by simp [onMap, hr, Except.toOption]
      simp [Board.recordProcedures, procedureRows, hr, ih, hon, Findings.recordMethod]

/-! ## The invariant -/

/-- Files with annotations or verdicts are noted; ranges elsewhere are the strays. -/
structure Board.Tracks (b : Board) (strays : Table (Text × Text) Range) : Prop where
  instantiations : ∀ file ∈ b.findings.instantiations.files, file ∈ b.annotated
  triggers : ∀ file ∈ b.findings.triggers.files, file ∈ b.annotated
  verdicts : ∀ v ∈ b.findings.verdicts, v.file ∈ b.annotated
  ranges : b.findings.methodRanges.filter (fun row => row.1.1 ∉ b.annotated) =
    strays.filter fun row => row.1.1 ∉ b.annotated
  touched : ∀ file ∈ b.annotated, file ∈ b.touched

namespace Board

theorem Tracks.of_eq {b c : Board} {strays : Table (Text × Text) Range} (h : Tracks b strays)
    (findings : c.findings = b.findings) (annotated : c.annotated = b.annotated)
    (touched : ∀ file ∈ b.touched, file ∈ c.touched) : Tracks c strays := by
  constructor
  · rw [findings, annotated]; exact h.instantiations
  · rw [findings, annotated]; exact h.triggers
  · rw [findings, annotated]; exact h.verdicts
  · rw [findings, annotated]; exact h.ranges
  · rw [annotated]; exact fun file hf => touched file (h.touched file hf)

@[simp] theorem mem_annotated_annotate {b : Board} {file f : Text} :
    f ∈ (b.annotate file).annotated ↔ f ∈ b.annotated ∨ f = file :=
  mem_insertName

@[simp] theorem mem_touched_touch {b : Board} {file f : Text} :
    f ∈ (b.touch file).touched ↔ f ∈ b.touched ∨ f = file :=
  mem_insertName

theorem Tracks.annotate {b : Board} {strays : Table (Text × Text) Range} (h : Tracks b strays)
    (file : Text) : Tracks (b.annotate file) strays := by
  constructor
  · exact fun f hf => mem_annotated_annotate.mpr (.inl (h.instantiations f hf))
  · exact fun f hf => mem_annotated_annotate.mpr (.inl (h.triggers f hf))
  · exact fun v hv => mem_annotated_annotate.mpr (.inl (h.verdicts v hv))
  · apply filter_eq_of_imp h.ranges
    intro row hrow
    simp only [mem_annotated_annotate, decide_eq_true_eq, not_or] at hrow ⊢
    exact hrow.1
  · intro f hf
    rw [mem_annotated_annotate] at hf
    exact mem_touched_touch.mpr (hf.imp_left (h.touched f))

theorem annotate_findings (b : Board) (file : Text) : (b.annotate file).findings = b.findings := rfl

/-! Many files are noted at once after an event about procedures. -/

theorem mem_annotated_annotateAll {b : Board} {files : List Text} {file : Text} :
    file ∈ (files.foldl Board.annotate b).annotated ↔ file ∈ b.annotated ∨ file ∈ files := by
  induction files generalizing b with
  | nil => simp
  | cons f rest ih =>
    rw [List.foldl_cons, ih, mem_annotated_annotate, List.mem_cons]
    exact or_assoc

theorem mem_touched_annotateAll {b : Board} {files : List Text} {file : Text} :
    file ∈ (files.foldl Board.annotate b).touched ↔ file ∈ b.touched ∨ file ∈ files := by
  induction files generalizing b with
  | nil => simp
  | cons f rest ih =>
    rw [List.foldl_cons, ih, List.mem_cons]
    exact (or_congr_left mem_touched_touch).trans or_assoc

theorem annotateAll_findings (b : Board) (files : List Text) :
    (files.foldl Board.annotate b).findings = b.findings := by
  induction files generalizing b with
  | nil => rfl
  | cons f rest ih => rw [List.foldl_cons, ih, annotate_findings]

/-! ## Lines -/

variable {b : Board} {strays : Table (Text × Text) Range}

theorem Tracks.addInstantiations (h : Tracks b strays) (file : Text) (range : Range)
    (method : Text) (n : Int) : Tracks (b.addInstantiations file range method n) strays := by
  have ha := h.annotate file
  refine ⟨?_, ha.triggers, ha.verdicts, ha.ranges, ha.touched⟩
  intro f hf
  rcases AnnotationIndex.mem_files_update.mp hf with rfl | hf
  · exact mem_annotated_annotate.mpr (.inr rfl)
  · exact ha.instantiations f hf

theorem Tracks.addTriggers (h : Tracks b strays) (file : Text) (range : Range)
    (t : ChosenTriggers) : Tracks (b.addTriggers file range t) strays := by
  have ha := h.annotate file
  refine ⟨ha.instantiations, ?_, ha.verdicts, ha.ranges, ha.touched⟩
  intro f hf
  rcases AnnotationIndex.mem_files_update.mp hf with rfl | hf
  · exact mem_annotated_annotate.mpr (.inr rfl)
  · exact ha.triggers f hf

theorem Tracks.readQuantifier (h : Tracks b strays) (o : Origin) (kind : EventKind) (text : Text)
    (spans : List Span) : Tracks (b.readQuantifier o kind text spans) strays := by
  unfold Board.readQuantifier
  split
  next => exact h
  next =>
    split
    next => exact h
    next =>
      dsimp only
      split <;> split
      · exact h.addTriggers ..
      · exact h
      · exact h.addInstantiations ..
      · exact h
      · exact h.addInstantiations ..
      · exact h

theorem Tracks.readMethodResult (h : Tracks b strays) (o : Origin) (r : MethodResult) :
    Tracks (b.readMethodResult o r) strays := by
  have ha := h.annotate (b.fileOfResult o r.method)
  refine ⟨ha.instantiations, ha.triggers, ?_, ha.ranges, ha.touched⟩
  intro v hv
  rcases List.mem_append.mp hv with hv | hv
  · exact ha.verdicts v (List.mem_filter.mp hv).1
  · rw [List.mem_singleton.mp hv]
    exact mem_annotated_annotate.mpr (.inr rfl)

/-- If all places are on the map the files of the rows are noted, so none of them is a stray. -/
theorem Tracks.noteProcedures (h : Tracks b strays) (rows : Table (Text × Text) Range) :
    Tracks ((rows.map fun row => row.1.1).foldl Board.annotate
      { b with findings := { b.findings with
        methodRanges := b.findings.methodRanges.putAll rows } }) strays := by
  have noted : ∀ {file}, file ∈ b.annotated → file ∈ ((rows.map fun row => row.1.1).foldl
      Board.annotate { b with findings := { b.findings with
        methodRanges := b.findings.methodRanges.putAll rows } }).annotated :=
    fun hf => mem_annotated_annotateAll.mpr (.inl hf)
  constructor
  · rw [annotateAll_findings]
    exact fun file hf => noted (h.instantiations file hf)
  · rw [annotateAll_findings]
    exact fun file hf => noted (h.triggers file hf)
  · rw [annotateAll_findings]
    exact fun v hv => noted (h.verdicts v hv)
  · rw [annotateAll_findings]
    refine (Table.filter_putAll_of_false (p := fun key => decide (key.1 ∉ (_ : List Text))) _
      ?_).trans (filter_eq_of_imp h.ranges ?_)
    · intro row hrow
      have hf := List.mem_map_of_mem (f := fun row => row.1.1) hrow
      simpa using mem_annotated_annotateAll.mpr (.inr hf)
    · intro row hrow
      simp only [decide_eq_true_eq] at hrow ⊢
      exact fun hf => hrow (noted hf)
  · intro file hf
    exact mem_touched_annotateAll.mpr ((mem_annotated_annotateAll.mp hf).imp_left (h.touched file))

/-- A place off the map leaves the rows before it behind, as strays. -/
theorem Tracks.leaveProcedures (h : Tracks b strays) (rows : Table (Text × Text) Range) :
    Tracks { b with findings := { b.findings with
      methodRanges := b.findings.methodRanges.putAll rows } } (strays.putAll rows) := by
  refine ⟨h.instantiations, h.triggers, h.verdicts, ?_, h.touched⟩
  have hp := fun t => Table.filter_putAll (fun key : Text × Text => key.1 ∉ b.annotated) t rows
  exact (hp _).trans (h.ranges ▸ (hp _).symm)

theorem Tracks.readCompilerInfo (h : Tracks b strays) (o : Origin) (info : CompilerInfo) :
    Tracks (b.readCompilerInfo o info) (strays.putAll
      (if onMap info.procedures then [] else procedureRows o info.procedures)) := by
  unfold Board.readCompilerInfo
  rw [recordProcedures_eq]
  cases hon : onMap info.procedures with
  | false => exact h.leaveProcedures _
  | true => exact h.noteProcedures _

theorem Tracks.readDiagnostic (h : Tracks b strays) (directory : FilePath) (o : Origin)
    (m : Message) : Tracks (b.readDiagnostic directory o m).1 strays := by
  unfold Board.readDiagnostic
  split
  next => exact h
  next =>
    split
    next =>
      dsimp only
      split
      next => exact h.of_eq rfl rfl fun _ hf => hf
      next => exact h.of_eq rfl rfl fun _ hf => mem_touched_touch.mpr (.inl hf)
    next => exact h.of_eq rfl rfl fun _ hf => mem_touched_touch.mpr (.inl hf)

/-- **Every line keeps track**: whatever it holds, only its stray rows go unnoted. -/
theorem Tracks.readLine (h : Tracks b strays) (directory : FilePath) (o : Origin) (line : Text) :
    Tracks (b.readLine directory o line).1 (strays.putAll (strayRows o line)) := by
  unfold Board.readLine strayRows
  cases parseLine o line with
  | error e => exact h
  | ok parsed =>
    cases parsed with
    | none => exact h
    | some message =>
      obtain ⟨m, o'⟩ := message
      dsimp only
      cases EventKind.ofText? m.message with
      | none => exact h.readDiagnostic ..
      | some event =>
        obtain ⟨kind, text⟩ := event
        cases kind with
        | compilerInfo =>
          dsimp only [Board.readEvent]
          cases payload? CompilerInfo.read text with
          | none => exact h
          | some info => exact h.readCompilerInfo o' info
        | methodResult =>
          dsimp only [Board.readEvent]
          cases payload? MethodResult.read text with
          | none => exact h
          | some r => exact h.readMethodResult o' r
        | legacyInstantiations | instantiations | chosenTriggers =>
          dsimp only [Board.readEvent]
          exact h.readQuantifier ..

end Board

end VerifierHost
