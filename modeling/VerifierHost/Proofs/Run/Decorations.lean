import VerifierHost.Proofs.Run.Completion
import VerifierHost.Proofs.Run.Endings

/-! # What is displayed after a run

A host displays for each file the decorations that came last. A run that completes sets those of
the files that it has touched or cleared and of no others, so a file that only a superseded run has
cleared keeps what it was displayed with. -/

namespace VerifierHost

open Wire

/-! ## The display -/

/-- The decorations that an effect sets for a file. -/
def Effect.decorationsOf? (file : Text) : Effect → Option (List Decoration)
  | .decorations f shown => if f = file then some shown else none
  | _ => none

/-- What is displayed for a file after some effects. -/
def displayed (shown : List Effect) (file : Text) : List Decoration :=
  (shown.filterMap (Effect.decorationsOf? file)).getLast?.getD []

/-- No effect sets decorations. -/
def Undecorated (effects : List Effect) : Prop :=
  ∀ effect ∈ effects, ∀ file, effect.decorationsOf? file = none

theorem Undecorated.append {xs ys : List Effect} (hx : Undecorated xs) (hy : Undecorated ys) :
    Undecorated (xs ++ ys) := by
  intro effect he
  rcases List.mem_append.mp he with he | he
  · exact hx effect he
  · exact hy effect he

theorem Undecorated.cons {effect : Effect} {effects : List Effect}
    (he : ∀ file, effect.decorationsOf? file = none) (h : Undecorated effects) :
    Undecorated (effect :: effects) := by
  intro e hmem
  rcases List.mem_cons.mp hmem with rfl | hmem
  · exact he
  · exact h e hmem

theorem Undecorated.nil : Undecorated [] := fun _ he => absurd he List.not_mem_nil

theorem displayed_append_undecorated {effects : List Effect} (h : Undecorated effects)
    (shown : List Effect) (file : Text) :
    displayed (shown ++ effects) file = displayed shown file := by
  have hnil : effects.filterMap (Effect.decorationsOf? file) = [] :=
    List.filterMap_eq_nil_iff.mpr fun effect he => h effect he file
  rw [displayed, List.filterMap_append, hnil, List.append_nil, displayed]

theorem displayed_concat_decorations (shown : List Effect) (f file : Text)
    (decorations : List Decoration) :
    displayed (shown ++ [.decorations f decorations]) file =
      if f = file then decorations else displayed shown file := by
  unfold displayed
  by_cases h : f = file
  · simp [Effect.decorationsOf?, h]
  · simp [Effect.decorationsOf?, h]

/-- After the decorations of some files were set, these are displayed and the others as before. -/
theorem displayed_append_decorations (shown : List Effect) (files : List Text)
    (decorations : Text → List Decoration) (file : Text) :
    displayed (shown ++ files.map fun f => .decorations f (decorations f)) file =
      if file ∈ files then decorations file else displayed shown file := by
  induction files generalizing shown with
  | nil => simp
  | cons f rest ih =>
    rw [List.map_cons, List.append_cons, ih, displayed_concat_decorations]
    by_cases hr : file ∈ rest
    · simp [hr]
    · by_cases hf : f = file
      · subst hf; simp
      · simp [hr, hf, Ne.symm hf]

/-! ## Which moves set decorations -/

theorem OnlyDiagnostics.undecorated {effects : List Effect} (h : OnlyDiagnostics effects) :
    Undecorated effects := by
  intro effect he file
  obtain ⟨uri, shown, rfl⟩ := h effect he
  rfl

namespace Engine

theorem undecorated_startRun (e : Engine) (target : VerificationTarget) (name : Text) :
    Undecorated (e.startRun target name).2 :=
  .cons (fun _ => rfl) (.cons (fun _ => rfl) .nil)

/-- What a run shows that completes: among other things the decorations of the changed files. -/
theorem conclude_ended {e : Engine} {number : Nat} {target : VerificationTarget} {name : Text}
    {status : RunStatus} {seconds : Option Float} {outcome : RunOutcome}
    (h : (e.conclude number target name status seconds).2.ending = .ended outcome) :
    ∃ before after, Undecorated before ∧ Undecorated after ∧
      (e.conclude number target name status seconds).2.effects =
        before ++ (e.conclude number target name status seconds).1.showDecorations ++ after := by
  unfold conclude at h ⊢
  by_cases hn : number = e.runCount
  · rw [if_pos hn] at h ⊢
    have hshow : Undecorated e.showStore.1 :=
      (onlyDiagnostics_showFiles e.directory e.board.store.entries).undecorated.cons fun _ => rfl
    cases hs : e.showStore with
    | mk effects stuck =>
      rw [hs] at hshow
      cases stuck with
      | some file => simp [hs] at h
      | none =>
        refine ⟨.busy false :: effects, _, hshow.cons fun _ => rfl, ?_, List.append_assoc ..⟩
        refine Undecorated.append ?_ (.cons (fun _ => rfl) .nil)
        split
        next => exact .cons (fun _ => rfl) .nil
        next => exact .nil
  · simp [hn] at h

/-- No move changes where an engine works, how it is set up or what its host shows. -/
theorem play_eq (e : Engine) (m : Move) : ∃ board cleared updates runCount runs,
    (e.play m).engine = { e with board, cleared, updates, runCount, runs } := by
  cases m with
  | launch | abort | awaitNews | drawHints | takeChanged => exact ⟨_, _, _, _, _, rfl⟩
  | refuse target name =>
    obtain ⟨updates, hu, -⟩ := (e.startRun target name).1.conclude_spec
      (e.startRun target name).1.runCount target name .crash none
    exact ⟨_, _, updates, _, _, hu⟩
  | output pid stream chunks closed =>
    dsimp only [play]
    split
    · split
      · exact ⟨_, _, _, _, _, rfl⟩
      · obtain ⟨board, hb⟩ := e.takeOutput_spec _ stream chunks closed
        exact ⟨board, _, _, _, _, hb⟩
    · exact ⟨_, _, _, _, _, rfl⟩
  | exit pid code moment =>
    dsimp only [play]
    split
    · obtain ⟨board, updates, hf, -⟩ := e.finish_spec _ code moment
      exact ⟨board, _, updates, _, _, hf⟩
    · exact ⟨_, _, _, _, _, rfl⟩

theorem decorating_play (e : Engine) (m : Move) :
    (e.play m).engine.decorating = e.decorating := by
  obtain ⟨board, cleared, updates, runCount, runs, h⟩ := e.play_eq m
  rw [h]

/-- A move by which a run completes sets the decorations of the changed files and no others. -/
theorem play_completes {e : Engine} {m : Move} (h : (e.play m).Completes) :
    ∃ before after, Undecorated before ∧ Undecorated after ∧
      (e.play m).effects = before ++ (e.play m).engine.showDecorations ++ after := by
  obtain ⟨outcome, h⟩ := h
  obtain ⟨front, e', number, j, seconds, hc⟩ := exists_concludes (Option.isSome_of_mem h)
  obtain ⟨before, after, hbefore, hafter, heffects⟩ :=
    conclude_ended (Option.some.inj (hc.ending.symm.trans h))
  have hfront : Undecorated front := by
    rcases hc.shown with honly | rfl
    · exact honly.undecorated
    · exact undecorated_startRun e j.target j.name
  refine ⟨front ++ before, after, hfront.append hbefore, hafter, ?_⟩
  rw [hc.effects, hc.engine, heffects]
  simp only [List.append_assoc]

end Engine

/-! ## After a run -/

/-- The decorations of strays: nothing was ever said about how their methods fared. -/
def strayDecorations (strays : Table (Text × Text) Range) (file : Text) : List Decoration :=
  (strays.filter fun row => row.1.1 = file).map fun row =>
    ⟨row.2.restOfLine, .notVerified, none, none⟩

/-- A file that is not noted has the decorations of its strays. -/
theorem Board.Tracks.decorations {b : Board} {strays : Table (Text × Text) Range}
    (h : b.Tracks strays) {file : Text} (hf : file ∉ b.annotated) :
    b.findings.decorations file = strayDecorations strays file := by
  have hrows : b.findings.methodRanges.filter (fun row => row.1.1 = file) =
      strays.filter fun row => row.1.1 = file := by
    apply filter_eq_of_imp h.ranges
    intro row hrow
    simp only [decide_eq_true_eq] at hrow ⊢
    exact hrow ▸ hf
  have hverdict : ∀ method, b.findings.verdict? file method = none := by
    intro method
    apply List.find?_eq_none.mpr
    intro v hv
    have hne : v.file ≠ file := fun he => hf (he ▸ h.verdicts v (List.mem_reverse.mp hv))
    simp [hne]
  rw [Findings.decorations, hrows, strayDecorations]
  apply List.map_congr_left
  intro row _
  simp [Findings.decorationOf, hverdict]

namespace Chronicle

theorem decorating (directory : FilePath) (settings : Settings) (decorating : Bool)
    (moves : List Move) :
    ((start (.idle directory settings decorating)).addAll moves).engine.decorating = decorating :=
  addAll_induction (P := fun c => c.engine.decorating = decorating) _ rfl
    (fun c m h => (c.engine.decorating_play m).trans h) moves

/-- **What is displayed once a run completes.** The run sets the decorations of the files that it
has touched or cleared. So what is displayed for a file are the decorations of the findings exactly
if it is such a file, or was displayed before with nothing but the strays that it still has. -/
theorem displayed_eq_decorations_iff (directory : FilePath) (settings : Settings)
    (moves : List Move) (m : Move)
    (h : (((start (.idle directory settings true)).addAll moves).engine.play m).Completes)
    (file : Text) :
    let c := (start (.idle directory settings true)).addAll moves
    let d := c.add m
    displayed d.shown file = d.engine.board.findings.decorations file ↔
      file ∈ d.engine.changedFiles ∨ displayed c.shown file = strayDecorations d.strays file := by
  intro c d
  obtain ⟨before, after, hb, ha, hf⟩ := Engine.play_completes h
  have hdec : d.engine.decorating = true :=
    (c.engine.decorating_play m).trans (decorating directory settings true moves)
  have hshow : d.engine.showDecorations = d.engine.changedFiles.map fun file =>
      .decorations file (d.engine.board.findings.decorations file) := by
    rw [Engine.showDecorations, if_pos hdec]
  have hdisplayed : displayed d.shown file =
      if file ∈ d.engine.changedFiles then d.engine.board.findings.decorations file
      else displayed c.shown file := by
    have hshown : d.shown = ((c.shown ++ before) ++ d.engine.showDecorations) ++ after := by
      show c.shown ++ (c.engine.play m).effects = _
      rw [hf]
      simp only [List.append_assoc]
      rfl
    rw [hshown, displayed_append_undecorated ha, hshow, displayed_append_decorations,
      displayed_append_undecorated hb]
  by_cases hc : file ∈ d.engine.changedFiles
  · simp [hdisplayed, hc]
  · have htracks : d.engine.board.Tracks d.strays := by
      have := tracks directory settings true (moves ++ [m])
      rwa [addAll_concat] at this
    have hfree : file ∉ d.engine.board.annotated := by
      intro hm
      apply hc
      rw [Engine.changedFiles, Engine.mem_sortedNames, List.mem_append]
      exact .inl (htracks.touched file hm)
    rw [hdisplayed, if_neg hc, htracks.decorations hfree]
    simp [hc]

/-! A file is decorated by its run. The next run clears the file and is superseded by a third one,
which neither touches nor clears it, and so the decoration stays. -/

/-- A call that verifies one file. -/
def fileInvocation (file : Text) : Invocation where
  command := "rustc"
  args := [file]
  directory := "/w"
  environment := []
  jsonStream := .stderr
  origin := ⟨"/w", .standalone, file, none⟩

/-- A line that tells where a method is defined. -/
def procedureLine : Text.Bytes :=
  Text.utf8 <| String.toList <|
    "\x7b\"message\":\"compilerInfo\x7b\\\"procedure_defs\\\":[\x7b\\\"name\\\":\\\"f\\\"," ++
    "\\\"span\\\":\x7b\\\"file_name\\\":\\\"/w/a.rs\\\",\\\"line_start\\\":1,\\\"line_end\\\":2," ++
    "\\\"column_start\\\":1,\\\"column_end\\\":2,\\\"is_primary\\\":true\x7d\x7d]\x7d\"\x7d\n"

def coveringMoves : List Move :=
  [.launch .file "a.rs" (fileInvocation "/w/a.rs") 1 .zero,
   .output 1 .stderr [procedureLine] true,
   .exit 1 (some 0) .zero,
   .launch .file "b.rs" (fileInvocation "/w/b.rs") 2 .zero,
   .launch .file "c.rs" (fileInvocation "/w/c.rs") 3 .zero]

def covered : Chronicle := (start (.idle (.ofText "/w") .default true)).addAll coveringMoves

theorem displayed_covered :
    (covered.engine.play (.exit 3 (some 0) .zero)).Completes ∧
      displayed (covered.add (.exit 3 (some 0) .zero)).shown "/w/a.rs" ≠
        (covered.add (.exit 3 (some 0) .zero)).engine.board.findings.decorations "/w/a.rs" := by
  obtain ⟨h, hchanged, hbefore⟩ :
      (covered.engine.play (.exit 3 (some 0) .zero)).Completes ∧
      ("/w/a.rs" : Text) ∉ (covered.add (.exit 3 (some 0) .zero)).engine.changedFiles ∧
      displayed covered.shown "/w/a.rs" ≠
        strayDecorations (covered.add (.exit 3 (some 0) .zero)).strays "/w/a.rs" := by
    decide +kernel
  have hiff := displayed_eq_decorations_iff (.ofText "/w") .default coveringMoves
    (.exit 3 (some 0) .zero) h "/w/a.rs"
  dsimp only at hiff
  rw [← covered] at hiff
  exact ⟨h, fun he => (hiff.mp he).elim hchanged hbefore⟩

end Chronicle

end VerifierHost
