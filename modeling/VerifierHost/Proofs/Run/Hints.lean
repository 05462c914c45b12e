import VerifierHost.Proofs.Run.Annotations

/-! # When hints have changed

An index notes that it changed, and keeps what it has drawn until it does. What it would draw for a
file depends on nothing but the payloads of the file (`Current`). Lines change the index of
instantiations exactly if they report counts, and a new run does if the index holds any; each of
that is noted (`Goes`). -/

namespace VerifierHost

namespace AnnotationIndex

variable {π δ : Type} {x y z : AnnotationIndex π} {kind : AnnotationKind π δ} {file : Text}
  {altered more : Prop}

/-! ## What is drawn -/

/-- All that is drawn and not stale is what would be drawn now. -/
def Current (kind : AnnotationKind π δ) (x : AnnotationIndex π) : Prop :=
  ∀ file annotations, x.drawn.get? file = some annotations → file ∉ x.stale →
    draw? kind (x.entriesOf file) = some annotations

theorem entriesOf_clearFile (x : AnnotationIndex π) (file other : Text) :
    (x.clearFile file).entriesOf other = if file = other then [] else x.entriesOf other := by
  unfold clearFile entriesOf
  by_cases h : file = other
  · subst h
    simp
  · rw [if_neg h, Table.get?_erase_of_ne _ h]

theorem entriesOf_congr (he : y.entries = x.entries) (file : Text) :
    y.entriesOf file = x.entriesOf file := by
  rw [entriesOf, entriesOf, he]

namespace Current

theorem empty : Current kind (.empty : AnnotationIndex π) := fun _ _ h => nomatch h

theorem update (h : x.Current kind) (file : Text) (range : Range) (delta : δ) :
    (x.update kind file range delta).Current kind := by
  intro other annotations hdrawn hstale
  have hmem : ∀ name, name ∈ (x.update kind file range delta).stale ↔
      name ∈ x.stale ∨ name = file := by
    intro name
    dsimp only [AnnotationIndex.update]
    split
    next hf => exact ⟨.inl, fun hn => hn.elim id (· ▸ hf)⟩
    next => simp
  obtain ⟨hold, hne⟩ := not_or.mp (mt (hmem other).mpr hstale)
  rw [entriesOf_update, if_neg (Ne.symm hne)]
  exact h other annotations hdrawn hold

theorem clearFile (h : x.Current kind) (file : Text) : (x.clearFile file).Current kind := by
  intro other annotations hdrawn hstale
  have hdrawn : (x.drawn.erase file).get? other = some annotations := hdrawn
  by_cases hne : file = other
  · subst hne
    rw [Table.get?_erase_self] at hdrawn
    cases hdrawn
  · rw [Table.get?_erase_of_ne _ hne] at hdrawn
    rw [entriesOf_clearFile, if_neg hne]
    refine h other annotations hdrawn fun hs => hstale (List.mem_filter.mpr ⟨hs, ?_⟩)
    exact decide_eq_true (Ne.symm hne)

theorem takeChanged (h : x.Current kind) : x.takeChanged.2.Current kind := h

/-- What is drawn for a file depends on its payloads only. -/
theorem annotations_render (h : x.Current kind) (file : Text) :
    (x.render kind file).annotations = draw? kind (x.entriesOf file) := by
  unfold AnnotationIndex.render
  split
  next annotations hdrawn hstale =>
    exact (h file annotations hdrawn (of_decide_eq_false hstale)).symm
  next =>
    dsimp only
    cases draw? kind (x.entriesOf file) <;> rfl

theorem render (h : x.Current kind) (file : Text) : (x.render kind file).index.Current kind := by
  unfold AnnotationIndex.render
  split
  next => exact h
  next =>
    dsimp only
    split
    next => exact h
    next annotations hnow =>
      intro other drawn hdrawn hstale
      have hdrawn : (x.drawn.put file annotations).get? other = some drawn := hdrawn
      have hstale : other ∉ x.stale.filter (· ≠ file) := hstale
      by_cases hne : file = other
      · subst hne
        rw [Table.get?_put_self] at hdrawn
        cases hdrawn
        exact hnow
      · rw [Table.get?_put_of_ne _ _ hne] at hdrawn
        refine h other drawn hdrawn fun hs => hstale (List.mem_filter.mpr ⟨hs, ?_⟩)
        exact decide_eq_true (Ne.symm hne)

end Current

/-! ## Changes -/

/-- From one index to another there was a change, and that is noted, or there was none. -/
def Goes (altered : Prop) (x y : AnnotationIndex π) : Prop :=
  altered ∧ y.changed = true ∨
    ¬ altered ∧ (∀ file, y.entriesOf file = x.entriesOf file) ∧ y.changed = x.changed

namespace Goes

theorem of_same (h : ¬ altered) (hentries : y.entries = x.entries)
    (hchanged : y.changed = x.changed) : Goes altered x y :=
  .inr ⟨h, entriesOf_congr hentries, hchanged⟩

theorem congr (h : Goes altered x y) (hiff : altered ↔ more) : Goes more x y :=
  h.imp (fun h => ⟨hiff.mp h.1, h.2⟩) fun h => ⟨mt hiff.mpr h.1, h.2⟩

/-- What was noted stays so. -/
theorem trans (h : Goes altered x y) (h' : Goes more y z) : Goes (altered ∨ more) x z := by
  rcases h' with ⟨hmore, hchanged⟩ | ⟨hno, hentries, hsame⟩
  · exact .inl ⟨.inr hmore, hchanged⟩
  · rcases h with ⟨halters, hchanged⟩ | ⟨hnot, hold, hstill⟩
    · exact .inl ⟨.inl halters, hsame.trans hchanged⟩
    · exact .inr ⟨not_or.mpr ⟨hnot, hno⟩, fun file => (hentries file).trans (hold file),
        hsame.trans hstill⟩

theorem changed (h : Goes altered x y) (hy : y.changed = true) : altered ∨ x.changed = true :=
  h.imp And.left fun h => h.2.2.symm.trans hy

theorem same (h : Goes altered x y) (hy : y.changed = false) :
    ¬ altered ∧ x.changed = false ∧ ∀ file, y.entriesOf file = x.entriesOf file := by
  rcases h with ⟨-, hchanged⟩ | ⟨hno, hentries, hsame⟩
  · cases hchanged.symm.trans hy
  · exact ⟨hno, hsame.symm.trans hy, hentries⟩

end Goes

/-- Forgetting a file is a change if there is anything to forget. -/
theorem goes_clearFile (x : AnnotationIndex π) (file : Text) :
    Goes (x.entriesOf file ≠ []) x (x.clearFile file) := by
  by_cases h : x.entriesOf file = []
  · refine .inr ⟨not_not_intro h, fun other => ?_, ?_⟩
    · rw [entriesOf_clearFile]
      split
      next he => rw [← he, h]
      next => rfl
    · simp [clearFile, h]
  · exact .inl ⟨h, by simp [clearFile, h]⟩

end AnnotationIndex

/-- A count is reported on a line. -/
def CountsOn (line : Origin × Text) : Prop :=
  ∃ place method count, reportOf? line.1 line.2 = some (place, .instantiated method count)

namespace Engine

variable {e : Engine}

/-- The index of instantiations. -/
def index (e : Engine) : AnnotationIndex (Table Text Int) := e.board.findings.instantiations

theorem goes_readLine (b : Board) (directory : FilePath) (o : Origin) (line : Text) :
    AnnotationIndex.Goes (CountsOn (o, line)) b.findings.instantiations
      (b.readLine directory o line).1.findings.instantiations := by
  have hf := b.readLine_follows directory o line
  unfold CountsOn
  dsimp only
  cases hr : reportOf? o line with
  | none =>
    rw [hr] at hf
    exact .of_same (fun ⟨_, _, _, he⟩ => nomatch he) (congrArg _ hf.1) (congrArg _ hf.1)
  | some found =>
    rw [hr] at hf
    obtain ⟨place, report⟩ := found
    cases report with
    | instantiated method count => exact .inl ⟨⟨place, method, count, rfl⟩, by rw [hf.1]; rfl⟩
    | triggered t =>
      exact .of_same (fun ⟨_, _, _, he⟩ => nomatch he) (congrArg _ hf.1) (congrArg _ hf.1)

theorem goes_readAll (b : Board) (directory : FilePath) (lines : List (Origin × Text)) :
    AnnotationIndex.Goes (∃ line ∈ lines, CountsOn line) b.findings.instantiations
      (b.readAll directory lines).findings.instantiations := by
  induction lines generalizing b with
  | nil => exact .of_same (fun ⟨_, hm, _⟩ => List.not_mem_nil hm) rfl rfl
  | cons line rest ih =>
    have hline := goes_readLine b directory line.1 line.2
    exact (hline.trans (ih _)).congr (by simp)

/-- Lines change the hints if they report counts and somebody listens. -/
theorem goes_takeLines (e : Engine) (number : Nat) (o : Origin) (lines : List Text) :
    AnnotationIndex.Goes (number = e.runCount ∧ ∃ line ∈ lines, CountsOn (o, line)) e.index
      (e.takeLines number o lines).1.index := by
  unfold index
  rw [board_takeLines]
  refine (goes_readAll e.board e.directory _).congr ?_
  by_cases hn : number = e.runCount <;> simp [hn]

theorem goes_clearAll (files : List Text) (f : Findings) :
    AnnotationIndex.Goes (∃ file ∈ files, f.instantiations.entriesOf file ≠ []) f.instantiations
      (files.foldl Findings.clearFile f).instantiations := by
  induction files generalizing f with
  | nil => exact .of_same (fun ⟨_, hm, _⟩ => List.not_mem_nil hm) rfl rfl
  | cons file rest ih =>
    refine ((f.instantiations.goes_clearFile file).trans (ih (f.clearFile file))).congr ?_
    have hcleared : ∀ other, (f.clearFile file).instantiations.entriesOf other =
        if file = other then [] else f.instantiations.entriesOf other :=
      AnnotationIndex.entriesOf_clearFile f.instantiations file
    constructor
    · rintro (hne | ⟨other, hm, hne⟩)
      · exact ⟨file, List.mem_cons_self, hne⟩
      · rw [hcleared] at hne
        split at hne
        next => exact absurd rfl hne
        next => exact ⟨other, List.mem_cons_of_mem _ hm, hne⟩
    · rintro ⟨other, hm, hne⟩
      by_cases hsame : file = other
      · exact .inl (hsame ▸ hne)
      · refine .inr ⟨other, (List.mem_cons.mp hm).resolve_left (Ne.symm hsame), ?_⟩
        rw [hcleared, if_neg hsame]
        exact hne

/-- A new run changes the hints if there are any. -/
theorem goes_startRun {strays : Table (Text × Text) Range} (h : e.board.Tracks strays)
    (target : VerificationTarget) (name : Text) :
    AnnotationIndex.Goes (∃ file, e.index.entriesOf file ≠ []) e.index
      (e.startRun target name).1.index := by
  refine (goes_clearAll e.knownFiles e.board.findings).congr ⟨fun ⟨file, _, hne⟩ => ⟨file, hne⟩, ?_⟩
  rintro ⟨file, hne⟩
  refine ⟨file, mem_knownFiles.mpr (.inr (h.instantiations file ?_)), hne⟩
  refine Table.mem_keys_of_get? ?_
  cases hg : e.board.findings.instantiations.entries.get? file with
  | some payloads => rfl
  | none =>
    refine absurd ?_ hne
    show (e.board.findings.instantiations.entries.get? file).getD [] = []
    rw [hg]
    rfl

/-! ## Every history -/

theorem current_readLine {b : Board} (h : b.findings.instantiations.Current instantiationKind)
    (directory : FilePath) (o : Origin) (line : Text) :
    (b.readLine directory o line).1.findings.instantiations.Current instantiationKind := by
  have hf := b.readLine_follows directory o line
  cases hr : reportOf? o line with
  | none =>
    rw [hr] at hf
    rw [hf.1]
    exact h
  | some found =>
    rw [hr] at hf
    obtain ⟨place, report⟩ := found
    cases report with
    | instantiated method count =>
      rw [hf.1]
      exact h.update _ _ _
    | triggered t =>
      rw [hf.1]
      exact h

theorem current_readAll {b : Board} (h : b.findings.instantiations.Current instantiationKind)
    (directory : FilePath) (lines : List (Origin × Text)) :
    (b.readAll directory lines).findings.instantiations.Current instantiationKind := by
  induction lines generalizing b with
  | nil => exact h
  | cons line rest ih => exact ih (current_readLine h directory line.1 line.2)

theorem current_startRun (h : e.index.Current instantiationKind) (target : VerificationTarget)
    (name : Text) : (e.startRun target name).1.index.Current instantiationKind := by
  have hfold : ∀ (files : List Text) (f : Findings), f.instantiations.Current instantiationKind →
      (files.foldl Findings.clearFile f).instantiations.Current instantiationKind := by
    intro files
    induction files with
    | nil => exact fun _ hf => hf
    | cons file rest ih => exact fun f hf => ih _ (hf.clearFile file)
  exact hfold e.knownFiles e.board.findings h

theorem current_play (h : e.index.Current instantiationKind) (m : Move) :
    (e.play m).engine.index.Current instantiationKind := by
  unfold index at h ⊢
  cases m with
  | launch target name => exact current_startRun h target name
  | abort target name => exact current_startRun h target name
  | refuse target name =>
    rw [board_refuse]
    exact current_startRun h target name
  | output pid stream chunks closed =>
    rw [board_output]
    exact current_readAll h e.directory _
  | exit pid code moment =>
    rw [board_exit]
    exact current_readAll h e.directory _
  | awaitNews => exact h
  | drawHints file => exact h.render file
  | takeChanged => exact h

end Engine

/-- Whatever an engine goes through, the hints that are drawn and not stale are what they should
be. -/
theorem Chronicle.current (directory : FilePath) (settings : Settings) (decorating : Bool)
    (moves : List Move) :
    ((start (.idle directory settings decorating)).addAll moves).engine.index.Current
      instantiationKind :=
  addAll_induction (P := fun c => c.engine.index.Current instantiationKind) _ .empty
    (fun _ m h => Engine.current_play h m) moves

end VerifierHost
