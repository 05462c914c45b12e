import VerifierHost.Proofs.Run.Hints
import VerifierHost.Proofs.Session.Deeds
import VerifierHost.Proofs.Session.Moves

/-! # No change of the hints goes unannounced

The index of instantiations notes that it changed, and every request to verify takes the note when
it has been served. So as long as there is a note somebody still owes a refresh (`Hinting`); when
nobody does, the hints are what they were at the last refresh, and a refresh is never asked for
without a change since the one before (`hints_announced`). -/

namespace VerifierHost

/-- A request to verify that is being served, or that failed and left without looking for news. -/
def Task.Owes (k : Task) : Prop :=
  k.request.Verifies ∧ (k.standing.runs?.isSome ∨
    ∃ answer, k.standing = .ended answer ∧ ∀ reply, answer ≠ .verified reply)

theorem Task.Owes.underway {k : Task} (h : k.Owes) : k.Underway :=
  h.2.imp id fun ⟨answer, hs, _⟩ => by rw [hs]; trivial

theorem Task.GoesOn.owes {k k' : Task} (h : k.GoesOn k') (hk : k.Owes) : k'.Owes := by
  refine ⟨h.request ▸ hk.1, ?_⟩
  rcases hk.2 with hrun | ⟨answer, hs, hno⟩
  · exact .inl (h.runs ▸ hrun)
  · exact .inr ⟨answer, (h.ended (by rw [hs]; trivial)).trans hs, hno⟩

/-! ## Who asks for a refresh -/

theorem OnlyDiagnostics.not_refreshing {effects : List Effect} (h : OnlyDiagnostics effects) :
    .refreshHints ∉ effects := by
  intro hm
  obtain ⟨uri, shown, he⟩ := h _ hm
  cases he

namespace Engine

theorem conclude_not_refreshing (e : Engine) (number : Nat) (target : VerificationTarget)
    (name : Text) (status : RunStatus) (seconds : Option Float) :
    .refreshHints ∉ (e.conclude number target name status seconds).2.effects := by
  have hfiles := (onlyDiagnostics_showFiles e.directory e.board.store.entries).not_refreshing
  have hdecorations : .refreshHints ∉ e.showDecorations := by
    unfold showDecorations
    split <;> simp
  unfold conclude
  split
  next =>
    dsimp only [showStore]
    cases hs : showFiles e.directory e.board.store.entries with
    | mk effects stuck =>
      rw [hs] at hfiles
      cases stuck with
      | some file => simpa using hfiles
      | none =>
        dsimp only at hfiles ⊢
        split <;> simp [hfiles, hdecorations]
  next => exact List.not_mem_nil

theorem finish_not_refreshing (e : Engine) (r : ActiveRun) (code : ExitCode) (stop : Millis) :
    .refreshHints ∉ (e.finish r code stop).2.effects := by
  unfold finish
  dsimp only
  rw [List.mem_append, not_or]
  exact ⟨OnlyDiagnostics.not_refreshing (onlyDiagnostics_takeLines _ _ _ _),
    conclude_not_refreshing _ _ _ _ _ _⟩

end Engine

namespace Session

open AnnotationIndex (Goes)

variable {s t u : Session} {n : Notice} {ns : List Notice} {id : TaskId} {k : Task}
  {altered : Prop}

/-- How often the hints were asked for anew. -/
def refreshes (s : Session) : Nat := s.shown.count .refreshHints

/-- Somebody has yet to look whether the hints have changed. -/
def HintsOwed (s : Session) : Prop := ∃ id k, s.task? id = some k ∧ k.Owes

/-- The lines of the latest run that a notice brings. -/
def heardBy (s : Session) : Notice → List (Origin × Text)
  | .wake (.output pid stream) =>
    let (_, chunks, closed) := s.world.collect pid stream
    s.engine.heard (.output pid stream chunks closed)
  | .wake (.exit pid) | .outputEnded pid =>
    match (s.world.awaitExit pid).2 with
    | some code => s.engine.heard (.exit pid code s.world.clock)
    | none => []
  | _ => []

/-- The lines of the latest run that an action brings. -/
def heard (s : Session) : Action → List (Origin × Text)
  | .step => s.queue.head?.elim [] s.heardBy
  | _ => []

/-- Lines that report counts, or a new run, have changed the index of instantiations. -/
def Alters (s : Session) (lines : List (Origin × Text)) (t : Session) : Prop :=
  (∃ line ∈ lines, CountsOn line) ∨
    t.engine.runCount ≠ s.engine.runCount ∧ ∃ file, s.engine.index.entriesOf file ≠ []

/-- An action changes the index of instantiations. -/
def AltersHints (s : Session) (a : Action) : Prop := s.Alters (s.heard a) (s.act a)

theorem refreshes_append {effects : List Effect} (h : t.shown = s.shown ++ effects)
    (hno : .refreshHints ∉ effects) : t.refreshes = s.refreshes := by
  rw [refreshes, h, List.count_append, List.count_eq_zero_of_not_mem hno]
  rfl

theorem refreshHints_takes (s : Session) :
    s.refreshHints.engine.index = s.engine.index.takeChanged.2 ∧
      s.refreshHints.refreshes = s.refreshes + s.engine.index.changed.toNat := by
  unfold refreshHints
  dsimp only
  split
  next h =>
    have hchanged : s.engine.index.changed = true := h
    rw [hchanged]
    exact ⟨rfl, (congrArg _ (showAll_shown ..)).trans List.count_append⟩
  next h =>
    have hchanged : s.engine.index.changed = false := Bool.not_eq_true _ ▸ h
    rw [hchanged]
    exact ⟨rfl, rfl⟩

/-! ## One step -/

/-- The hints change or not, and somebody owes a refresh then; or the note is taken, and the hints
are asked for anew if there was one. -/
inductive Hinting (altered : Prop) (s t : Session) : Prop
  | keeps (goes : Goes altered s.engine.index t.engine.index)
      (refreshes : t.refreshes = s.refreshes) (owed : altered ∨ s.HintsOwed → t.HintsOwed)
  | takes {x : AnnotationIndex (Table Text Int)} (goes : Goes altered s.engine.index x)
      (index : t.engine.index = x.takeChanged.2)
      (refreshes : t.refreshes = s.refreshes + x.changed.toNat)

theorem Hinting.congr {more : Prop} (h : Hinting altered s t) (hiff : altered ↔ more) :
    Hinting more s t := by
  cases h with
  | keeps goes refreshes owed =>
    exact .keeps (goes.congr hiff) refreshes fun ho => owed (ho.imp_left hiff.mpr)
  | takes goes index refreshes => exact .takes (goes.congr hiff) index refreshes

/-- As long as no run ends, whoever owes a refresh goes on owing it. -/
theorem Deed.owed {who : Option TaskId} (h : Deed s t who)
    (hruns : s.engine.runs.length ≤ t.engine.runs.length) (hs : s.HintsOwed) : t.HintsOwed := by
  obtain ⟨i, k, hk, howes⟩ := hs
  cases h with
  | keeps tasks =>
    obtain ⟨k', hk', hgoes⟩ := tasks i k hk howes.underway
    exact ⟨i, k', hk', hgoes.owes howes⟩
  | @begins id k' _ _ _ _ task idle _ _ _ _ others =>
    have hi : i ≠ id := by
      rintro rfl
      cases hk.symm.trans task
      exact idle howes.underway
    exact ⟨i, k, (others i hi).trans hk, howes⟩
  | @ends _ _ r _ run _ _ _ _ runs =>
    rw [runs] at hruns
    refine absurd hruns (Nat.not_le_of_lt (List.length_filter_lt_length_iff_exists.mpr ⟨r, run, ?_⟩))
    simp

/-- Nothing has happened to the hints, nor to runs. -/
theorem Hinting.of_same {who : Option TaskId} (h : Deed s t who)
    (hruns : t.engine.runs = s.engine.runs)
    (hentries : t.engine.index.entries = s.engine.index.entries)
    (hchanged : t.engine.index.changed = s.engine.index.changed) (hshown : t.shown = s.shown) :
    Hinting False s t :=
  .keeps (.of_same id hentries hchanged) (congrArg (List.count Effect.refreshHints) hshown)
    fun ho => h.owed (Nat.le_of_eq (congrArg _ hruns.symm)) (ho.resolve_left id)

theorem Hinting.of_engine {who : Option TaskId} (h : Deed s t who) (hengine : t.engine = s.engine)
    (hshown : t.shown = s.shown) : Hinting False s t :=
  .of_same h (congrArg _ hengine) (congrArg (·.index.entries) hengine)
    (congrArg (·.index.changed) hengine) hshown

/-- A request whose run has ended takes the note; one that fails does not. -/
theorem answerRun_owes (hk : s.task? id = some k) (hver : k.request.Verifies) (ending : Ending) :
    ∃ answer, s.answerRun id ending = s.refreshHints.endTask id answer ∨
      s.answerRun id ending = s.endTask id answer ∧ ∀ reply, answer ≠ .verified reply := by
  obtain ⟨request, standing⟩ := k
  unfold answerRun
  cases ending with
  | stuck file => exact ⟨_, .inr ⟨rfl, fun _ => nofun⟩⟩
  | superseded =>
    dsimp only
    rw [hk]
    cases request with
    | verify => exact ⟨_, .inl rfl⟩
    | run => exact ⟨_, .inr ⟨rfl, fun _ => nofun⟩⟩
    | _ => cases hver
  | ended o =>
    dsimp only
    rw [hk]
    cases request with
    | verify => exact ⟨_, .inl rfl⟩
    | run => exact ⟨_, .inr ⟨rfl, fun _ => nofun⟩⟩
    | _ => cases hver

/-- The note is taken when a run is concluded, unless its request fails. -/
theorem Hinting.concludes {c : Conclusion} (hk : u.task? id = some k) (hver : k.request.Verifies)
    (hgoes : Goes altered s.engine.index u.engine.index) (hshown : u.refreshes = s.refreshes)
    (hno : .refreshHints ∉ c.effects) : Hinting altered s (u.conclude id c) := by
  have hsame : ((u.showAll c.effects).noticeNews c.released).refreshes = s.refreshes :=
    (refreshes_append (showAll_shown ..) hno).trans hshown
  have hku : ((u.showAll c.effects).noticeNews c.released).task? id = some k := hk
  obtain ⟨answer, he | ⟨he, hanswer⟩⟩ := answerRun_owes hku hver c.ending
  · obtain ⟨hindex, hcount⟩ := ((u.showAll c.effects).noticeNews c.released).refreshHints_takes
    rw [conclude, he]
    exact .takes hgoes hindex (hcount.trans (congrArg (· + _) hsame))
  · have htask : (Session.endTask _ id answer).task? id = _ := task?_setStanding_self hku rfl
    rw [conclude, he]
    exact .keeps hgoes hsame fun _ => ⟨id, _, htask, hver, .inr ⟨answer, rfl, hanswer⟩⟩

theorem Hinting.finishes {r : ActiveRun} (hk : s.task? id = some k) (hver : k.request.Verifies)
    (code : ExitCode) :
    Hinting (r.number = s.engine.runCount ∧ ∃ line ∈ r.lastLine, CountsOn (r.origin, line)) s
      (s.finishRun id r code) := by
  refine Hinting.concludes (u := { s with engine := (s.engine.finish r code s.world.clock).1 }) hk
    hver ?_ rfl (Engine.finish_not_refreshing _ _ _ _)
  have hgoes := (s.engine.dropRun r.pid).goes_takeLines r.number r.origin r.lastLine
  dsimp only [Engine.finish, Engine.index] at hgoes ⊢
  rw [Engine.board_conclude]
  exact hgoes

/-- A run that begins forgets all counts, and its request owes a refresh. -/
theorem Hinting.launches {path address : Text} {target : VerificationTarget}
    {strays : Table (Text × Text) Range} (htracks : s.engine.board.Tracks strays)
    (hk : s.task? id = some k) (hver : k.request.Verifies) :
    Hinting (∃ file, s.engine.index.entriesOf file ≠ []) s (s.launch id path target address) := by
  have hgoes := Engine.goes_startRun htracks target (shownName path)
  have hbegun : ∀ {u : Session}, u.shown =
      s.shown ++ (s.engine.startRun target (shownName path)).2 → u.refreshes = s.refreshes :=
    fun h => refreshes_append h (by simp [Engine.startRun])
  have hlaunch := launch_spec s id path target address
  generalize s.launch id path target address = t at hlaunch
  cases hlaunch with
  | @spawned _ invocation pid start engine tasks fresh length shown =>
    refine .keeps ?_ (hbegun shown) fun _ => ⟨id, _, task?_setStanding_self hk tasks, hver, .inl rfl⟩
    rw [engine]
    exact hgoes
  | @refused u engine tasks length shown =>
    refine Hinting.concludes (u := { u with engine := (u.engine.conclude u.engine.runCount target
      (shownName path) .crash none).1 }) ((task?_congr tasks id).trans hk) hver ?_ (hbegun shown)
      (Engine.conclude_not_refreshing _ _ _ _ _ _)
    dsimp only [Engine.index] at hgoes ⊢
    rw [Engine.board_conclude, engine]
    exact hgoes
  | @aborted u fault engine tasks length shown =>
    have htasks := setStanding_tasks_congr tasks id (.ended (.failed (.badPath fault)))
    refine .keeps ?_ (hbegun shown) fun _ =>
      ⟨id, _, task?_setStanding_self hk htasks, hver, .inr ⟨_, rfl, fun _ => nofun⟩⟩
    show Goes _ _ u.engine.index
    rw [engine]
    exact hgoes

/-- To answer what is known leaves what is known. -/
theorem answerNews_hints (s : Session) (id : TaskId) :
    (s.answerNews id).engine.index.entries = s.engine.index.entries ∧
      (s.answerNews id).engine.index.changed = s.engine.index.changed ∧
      (s.answerNews id).shown = s.shown := by
  unfold answerNews
  split
  next => exact ⟨rfl, rfl, rfl⟩
  next file _ _ =>
    have hentries := AnnotationIndex.entries_render instantiationKind s.engine.index file
    have hchanged : (s.engine.index.render instantiationKind file).index.changed =
        s.engine.index.changed := by
      unfold AnnotationIndex.render
      split
      next => rfl
      next =>
        dsimp only
        split <;> rfl
    unfold hints
    dsimp only
    cases (s.findings.instantiations.render instantiationKind file).annotations with
    | none => exact ⟨hentries, hchanged, rfl⟩
    | some annotations => exact ⟨hentries, hchanged, rfl⟩
  next => exact ⟨rfl, rfl, rfl⟩

theorem Hinting.reads (h : Runners ns s) {r : ActiveRun} {stream : Stream}
    (hr : r ∈ s.engine.runs) (hopen : (r.tap stream).ended = false)
    (howed : s.HintsOwed → (s.readVerifier r stream).HintsOwed) :
    Hinting (∃ line ∈ s.heardBy (.wake (.output r.pid stream)), CountsOn line) s
      (s.readVerifier r stream) := by
  obtain ⟨w, chunks, closed, hcollect, -, -, hengine, hshown⟩ := readVerifier_spec h hr hopen
  have hheard : s.heardBy (.wake (.output r.pid stream)) =
      if r.number = s.engine.runCount then
        (r.read stream chunks closed).2.map (r.origin, ·) else [] := by
    simp only [heardBy, hcollect, Engine.heard, h.run?_eq hr, hopen, and_true]
  have hgoes := (s.engine.putRun (r.read stream chunks closed).1).goes_takeLines
    (r.read stream chunks closed).1.number (r.read stream chunks closed).1.origin
    (r.read stream chunks closed).2
  have hserved : s.HintsOwed := by
    obtain ⟨id, k, hk, hprogress⟩ := h.running r hr
    have hrun := hprogress.runs?
    exact ⟨id, k, hk, (h.tasks id k r.pid hk hrun).1, .inl (by rw [hrun]; rfl)⟩
  refine .keeps ?_ ?_ fun _ => howed hserved
  · rw [hengine]
    refine hgoes.congr ?_
    rw [hheard, ActiveRun.read_number, ActiveRun.read_origin]
    show r.number = s.engine.runCount ∧ _ ↔ _
    by_cases hn : r.number = s.engine.runCount
    · simp [hn]
    · simp [hn]
  · exact refreshes_append hshown
      (OnlyDiagnostics.not_refreshing (Engine.onlyDiagnostics_takeOutput _ _ _ _ _))

/-- Nobody hears what a spent notice brings. -/
theorem heardBy_spent (h : n.Spent s t) : s.heardBy n = [] := by
  have hexit : ∀ {pid : Pid}, pid ∉ s.engine.pids → ∀ code : Option ExitCode,
      (match code with
      | some code => s.engine.heard (.exit pid code s.world.clock)
      | none => []) = [] := by
    intro pid hp code
    cases code with
    | none => rfl
    | some code =>
      dsimp only [Engine.heard]
      split
      next r hr =>
        obtain ⟨hmem, rfl⟩ := mem_runs_of_run? hr
        exact absurd (List.mem_map_of_mem hmem) hp
      next => rfl
  cases n with
  | wake wake =>
    cases wake with
    | output pid stream =>
      dsimp only [heardBy, Engine.heard]
      split
      next r hr =>
        obtain ⟨hmem, hp⟩ := mem_runs_of_run? hr
        rw [if_neg fun hlatest => Bool.false_ne_true (hlatest.2.symm.trans (h r hmem hp))]
      next => rfl
    | exit pid => exact hexit h _
  | outputEnded pid => exact hexit h _
  | _ => rfl

/-- A run ends only when its process has. -/
theorem awaitExit_of_finishes {r : ActiveRun} {code : ExitCode} (hr : r ∈ s.engine.runs)
    (hn : n = .wake (.exit r.pid) ∨ n = .outputEnded r.pid)
    (ht : s.react n = s.finishRun id r code) : ∃ code, (s.world.awaitExit r.pid).2 = some code := by
  have hreact : s.react n = s.awaitExit r.pid := by rcases hn with rfl | rfl <;> rfl
  have hruns := (s.finishRun_same id r code).2.1
  rw [← ht, hreact] at hruns
  unfold awaitExit at hruns
  cases hw : s.world.awaitExit r.pid with
  | mk w code =>
    cases code with
    | some code => exact ⟨code, rfl⟩
    | none =>
      rw [hw] at hruns
      have hsame : s.engine.runs = (s.engine.dropRun r.pid).runs := by
        rw [← hruns]
        split <;> first | rfl | simp_all
      exact absurd (List.mem_map_of_mem (hsame ▸ hr)) (s.engine.not_mem_pids_dropRun r.pid)

/-- **What a notice does to the hints.** -/
theorem react_hinting {strays : Table (Text × Text) Range} (h : Sound (n :: ns) s)
    (htracks : s.engine.board.Tracks strays) :
    Hinting (s.Alters (s.heardBy n) (s.react n)) s (s.react n) := by
  obtain ⟨who, hdeed⟩ : ∃ who, Deed s (s.react n) who :=
    (react_deed h).elim (⟨_, ·⟩) fun ⟨_, _, hd⟩ => ⟨_, hd⟩
  have hcourse := react_course h
  generalize ht : s.react n = t at hcourse hdeed
  have hstill : s.heardBy n = [] → t.engine.runCount = s.engine.runCount →
      (False ↔ s.Alters (s.heardBy n) t) := by
    intro hheard hcount
    rw [Alters, hheard, hcount]
    simp
  have hlines : t.engine.runCount = s.engine.runCount →
      ((∃ line ∈ s.heardBy n, CountsOn line) ↔ s.Alters (s.heardBy n) t) := by
    intro hcount
    rw [Alters, hcount]
    simp
  cases hcourse with
  | aside ha hs =>
    exact (Hinting.of_engine hdeed ha.engine ha.shown).congr
      (hstill (heardBy_spent hs) (by rw [ha.engine]))
  | waits notice =>
    subst notice
    exact (Hinting.of_same hdeed rfl rfl rfl rfl).congr (hstill rfl rfl)
  | @answers id k hk hasks hn =>
    obtain ⟨findings, answer, he⟩ := s.answerNews_eq id
    obtain ⟨hentries, hchanged, hshown⟩ := s.answerNews_hints id
    have hengine : (s.answerNews id).engine.runs = s.engine.runs ∧
        (s.answerNews id).engine.runCount = s.engine.runCount := by rw [he]; exact ⟨rfl, rfl⟩
    refine (Hinting.of_same hdeed hengine.1 hentries hchanged hshown).congr (hstill ?_ hengine.2)
    rcases hn with ⟨rfl, -⟩ | ⟨rfl, -⟩
    · rfl
    · rfl
  | @launches id k path target address hk hver hn =>
    have hcount := (launch_spec s id path target address).runCount
    refine (Hinting.launches htracks hk hver).congr ?_
    have hheard : s.heardBy n = [] := by rcases hn with ⟨rfl, -⟩ | ⟨rfl, -⟩ <;> rfl
    rw [Alters, hheard, hcount]
    simp
  | @reads r stream notice hr hopen =>
    subst notice
    obtain ⟨w, chunks, closed, -, -, -, hengine, -⟩ := readVerifier_spec h.runners hr hopen
    obtain ⟨board, hboard⟩ := s.engine.takeOutput_spec r stream chunks closed
    rw [hboard] at hengine
    refine (Hinting.reads h.runners hr hopen (hdeed.owed ?_)).congr (hlines (by rw [hengine]; rfl))
    rw [hengine]
    exact Nat.le_of_eq (List.length_map _).symm
  | @counts id k pid m notice hk hs =>
    subst notice
    obtain ⟨hengine, hshown, -⟩ := s.counts_same id pid m
    exact (Hinting.of_engine hdeed hengine hshown).congr (hstill rfl (by rw [hengine]))
  | @awaits r id k w notice hr hk hs alive =>
    have hheard : s.heardBy n = [] := by
      rcases notice with rfl | rfl
      · simp only [heardBy, alive]
      · simp only [heardBy, alive]
    exact (Hinting.of_engine hdeed rfl rfl).congr (hstill hheard rfl)
  | @finishes r id k code notice hr hk hs =>
    obtain ⟨code', hcode⟩ := awaitExit_of_finishes hr notice ht
    have hheard : s.heardBy n =
        if r.number = s.engine.runCount then r.lastLine.map (r.origin, ·) else [] := by
      rcases notice with rfl | rfl
      · simp only [heardBy, hcode, Engine.heard, h.runners.run?_eq hr]
      · simp only [heardBy, hcode, Engine.heard, h.runners.run?_eq hr]
    have hver := (h.runners.tasks id k _ hk hs).1
    refine ((Hinting.finishes hk hver code).congr ?_).congr
      (hlines (s.finishRun_same id r code).2.2.1)
    rw [hheard]
    by_cases hn : r.number = s.engine.runCount
    · simp [hn]
    · simp [hn]

/-- **What an action does to the hints.** -/
theorem act_hinting {strays : Table (Text × Text) Range} (h : Sound s.queue s)
    (htracks : s.engine.board.Tracks strays) (a : Action) :
    Hinting (s.AltersHints a) s (s.act a) := by
  have hdeed := act_deed h a
  have hsame : s.heard a = [] → (s.act a).engine = s.engine → (s.act a).shown = s.shown →
      Hinting (s.AltersHints a) s (s.act a) := by
    intro hheard hengine hshown
    refine (Hinting.of_engine hdeed hengine hshown).congr ?_
    rw [AltersHints, Alters, hheard, hengine]
    simp
  cases a with
  | ask | feed | exit => exact hsame rfl rfl rfl
  | step =>
    cases hq : s.queue with
    | nil =>
      have hstep : s.act .step = s := step_nil hq
      exact hsame (by rw [heard, hq]; rfl) (by rw [hstep]) (by rw [hstep])
    | cons n rest =>
      rw [hq] at h
      have htaken : Sound (n :: rest) { s with queue := rest } := h.congr rfl rfl rfl rfl
      have hreact := react_hinting htaken htracks
      rw [AltersHints, heard, hq, act, step_cons hq]
      cases hreact with
      | keeps goes refreshes owed => exact .keeps goes refreshes owed
      | takes goes index refreshes => exact .takes goes index refreshes

namespace Hinting

theorem refreshes_le (h : Hinting altered s t) : s.refreshes ≤ t.refreshes := by
  cases h with
  | keeps _ refreshes => exact Nat.le_of_eq refreshes.symm
  | takes _ _ refreshes => exact refreshes ▸ Nat.le_add_right ..

/-- Without a refresh every change stays noted. -/
theorem goes (h : Hinting altered s t) (hquiet : t.refreshes = s.refreshes) :
    Goes altered s.engine.index t.engine.index := by
  cases h with
  | keeps goes => exact goes
  | @takes x goes index refreshes =>
    have hx : x.changed = false := by
      cases hx : x.changed with
      | false => rfl
      | true =>
        rw [hquiet, hx] at refreshes
        exact absurd refreshes.symm (Nat.succ_ne_self _)
    obtain ⟨hno, hs, hentries⟩ := goes.same hx
    rw [index]
    exact .inr ⟨hno, hentries, hs.symm⟩

/-- A refresh comes of a change, and takes the note of it. -/
theorem refreshed (h : Hinting altered s t) (hrefresh : s.refreshes < t.refreshes) :
    (altered ∨ s.engine.index.changed = true) ∧ t.engine.index.changed = false := by
  cases h with
  | keeps _ refreshes => exact absurd hrefresh (refreshes ▸ Nat.lt_irrefl _)
  | @takes x goes index refreshes =>
    refine ⟨goes.changed ?_, by rw [index]; rfl⟩
    cases hx : x.changed with
    | true => rfl
    | false =>
      rw [refreshes, hx] at hrefresh
      exact absurd hrefresh (Nat.lt_irrefl _)

/-- As long as a change is noted, somebody owes a refresh. -/
theorem noted (h : Hinting altered s t) (hs : s.engine.index.changed = true → s.HintsOwed)
    (ht : t.engine.index.changed = true) : t.HintsOwed := by
  cases h with
  | keeps goes _ owed => exact owed ((goes.changed ht).imp_right hs)
  | takes goes index =>
    rw [index] at ht
    cases ht

end Hinting

/-! ## Histories -/

/-- Nothing has happened yet, or what happened last has asked for the hints anew. -/
def JustRefreshed (s : Session) (before : List Action) : Prop :=
  before = [] ∨ ∃ earlier a, before = earlier ++ [a] ∧
    (s.after earlier).refreshes < (s.after before).refreshes

/-- Some action of a history changes the index of instantiations. -/
def AltersWithin (s : Session) (actions : List Action) : Prop :=
  ∃ before a later, actions = before ++ a :: later ∧ (s.after before).AltersHints a

theorem not_altersWithin_nil (s : Session) : ¬ s.AltersWithin [] :=
  fun ⟨_, _, _, he, _⟩ => by simp at he

theorem altersWithin_concat {actions : List Action} {a : Action} :
    s.AltersWithin (actions ++ [a]) ↔ s.AltersWithin actions ∨ (s.after actions).AltersHints a := by
  constructor
  · rintro ⟨before, b, later, he, halters⟩
    rcases List.eq_nil_or_concat later with rfl | ⟨later, last, rfl⟩
    · obtain ⟨rfl, hb⟩ := List.append_inj' he rfl
      cases hb
      exact .inr halters
    · rw [List.concat_eq_append, ← List.cons_append, ← List.append_assoc] at he
      exact .inl ⟨before, b, later, (List.append_inj' he rfl).1, halters⟩
  · rintro (⟨before, b, later, rfl, halters⟩ | halters)
    · exact ⟨before, b, later ++ [a], by simp, halters⟩
    · exact ⟨actions, a, [], rfl, halters⟩

namespace Fresh

variable (h : s.Fresh)

include h

theorem idle_index : s.engine.index = .empty := by
  obtain ⟨_, _, _, _, _, _, _, _, _, rfl⟩ := h
  rfl

theorem hinting (actions : List Action) (a : Action) :
    Hinting ((s.after actions).AltersHints a) (s.after actions) (s.after (actions ++ [a])) := by
  obtain ⟨moves, hfollows⟩ := h.chronicled actions
  have hidle : ∃ directory settings decorating, s.engine = .idle directory settings decorating := by
    obtain ⟨_, _, directory, settings, decorating, _, _, _, _, rfl⟩ := h
    exact ⟨directory, settings, decorating, rfl⟩
  obtain ⟨directory, settings, decorating, hengine⟩ := hidle
  have htracks := Chronicle.tracks directory settings decorating moves
  dsimp only at htracks
  rw [← hengine, hfollows.engine] at htracks
  rw [after_concat]
  exact act_hinting (h.sound_after actions) htracks a

theorem current (actions : List Action) :
    (s.after actions).engine.index.Current instantiationKind := by
  obtain ⟨moves, hfollows⟩ := h.chronicled actions
  rw [← hfollows.engine]
  obtain ⟨_, _, directory, settings, decorating, _, _, _, _, rfl⟩ := h
  exact Chronicle.current directory settings decorating moves

/-- The hints of a file go by the counts alone. -/
theorem hints_eq (actions : List Action) (file : Text) : ((s.after actions).hints file).2 =
    AnnotationIndex.draw? instantiationKind ((s.after actions).engine.index.entriesOf file) :=
  (h.current actions).annotations_render file

/-- A change that is noted is owed to somebody. -/
theorem noted (actions : List Action) (hchanged : (s.after actions).engine.index.changed = true) :
    (s.after actions).HintsOwed := by
  induction actions using List.reverseRecOn with
  | nil =>
    rw [after_nil, h.idle_index] at hchanged
    cases hchanged
  | append_singleton actions a ih => exact (h.hinting actions a).noted ih hchanged

theorem unnoted {before : List Action} (hjust : s.JustRefreshed before) :
    (s.after before).engine.index.changed = false := by
  rcases hjust with rfl | ⟨earlier, a, rfl, hrefresh⟩
  · rw [after_nil, h.idle_index]
    rfl
  · exact ((h.hinting earlier a).refreshed hrefresh).2

/-- What was counted so far is at most what will have been. -/
theorem refreshes_le (before later : List Action) :
    (s.after before).refreshes ≤ (s.after (before ++ later)).refreshes := by
  induction later using List.reverseRecOn with
  | nil => exact Nat.le_of_eq (by rw [List.append_nil])
  | append_singleton later a ih =>
    rw [← List.append_assoc]
    exact Nat.le_trans ih (h.hinting (before ++ later) a).refreshes_le

/-- As long as nobody asks for the hints anew, every change stays noted. -/
theorem goes_after (before later : List Action)
    (hquiet : (s.after (before ++ later)).refreshes = (s.after before).refreshes) :
    Goes ((s.after before).AltersWithin later) (s.after before).engine.index
      (s.after (before ++ later)).engine.index := by
  induction later using List.reverseRecOn with
  | nil =>
    rw [List.append_nil]
    exact .of_same (not_altersWithin_nil _) rfl rfl
  | append_singleton later a ih =>
    rw [← List.append_assoc] at hquiet ⊢
    have hlast := h.hinting (before ++ later) a
    have hstill : (s.after (before ++ later)).refreshes = (s.after before).refreshes :=
      Nat.le_antisymm (hquiet ▸ hlast.refreshes_le) (h.refreshes_le before later)
    refine ((ih hstill).trans (hlast.goes (hquiet.trans hstill.symm))).congr ?_
    rw [altersWithin_concat, after_append]

/-- Every history has come by its last refresh. -/
theorem exists_justRefreshed (actions : List Action) : ∃ before later,
    actions = before ++ later ∧ s.JustRefreshed before ∧
      (s.after actions).refreshes = (s.after before).refreshes := by
  induction actions using List.reverseRecOn with
  | nil => exact ⟨[], [], rfl, .inl rfl, rfl⟩
  | append_singleton actions a ih =>
    rcases Nat.eq_or_lt_of_le (h.hinting actions a).refreshes_le with hsame | hmore
    · obtain ⟨before, later, rfl, hjust, hquiet⟩ := ih
      exact ⟨before, later ++ [a], List.append_assoc .., hjust, hsame.symm.trans hquiet⟩
    · exact ⟨actions ++ [a], [], (List.append_nil _).symm, .inr ⟨actions, a, rfl, hmore⟩, rfl⟩

end Fresh

/-- **No change of the hints goes unannounced.** When all requests to verify have been answered, the
hints of every file are what they were at the last refresh, and there are none if there was no
refresh yet. And no refresh is asked for unless, since the one before, lines of the latest run
reported counts or a run began when there were some. -/
theorem hints_announced (h : s.Fresh) :
    (∀ actions, (∀ id k, (s.after actions).task? id = some k → k.request.Verifies →
        ∃ reply, k.standing = .ended (.verified reply)) →
      (∃ before later, actions = before ++ later ∧ s.JustRefreshed before ∧
        (s.after actions).refreshes = (s.after before).refreshes ∧
        ∀ file, ((s.after actions).hints file).2 = ((s.after before).hints file).2) ∧
      ((s.after actions).refreshes = 0 → ∀ file, ((s.after actions).hints file).2 = some [])) ∧
    ∀ before later a, s.JustRefreshed before →
      (s.after (before ++ later)).refreshes = (s.after before).refreshes →
      (s.after (before ++ later)).refreshes < (s.after (before ++ later ++ [a])).refreshes →
      (s.after before).AltersWithin (later ++ [a]) := by
  refine ⟨fun actions hanswered => ?_, fun before later a hjust hquiet hrefresh => ?_⟩
  · have hunchanged : (s.after actions).engine.index.changed = false := by
      by_contra hchanged
      obtain ⟨id, k, hk, hver, howes⟩ := h.noted actions (Bool.not_eq_false _ ▸ hchanged)
      obtain ⟨reply, hs⟩ := hanswered id k hk hver
      rcases howes with hrun | ⟨answer, hended, hno⟩
      · rw [hs] at hrun
        cases hrun
      · exact hno reply (Standing.ended.inj (hended.symm.trans hs))
    obtain ⟨before, later, rfl, hjust, hquiet⟩ := h.exists_justRefreshed actions
    have hentries := ((h.goes_after before later hquiet).same hunchanged).2.2
    have hsame : ∀ file, ((s.after (before ++ later)).hints file).2 =
        ((s.after before).hints file).2 := fun file => by
      rw [h.hints_eq, h.hints_eq, hentries]
    refine ⟨⟨before, later, rfl, hjust, hquiet, hsame⟩, fun hnone file => ?_⟩
    rcases hjust with rfl | ⟨earlier, a, rfl, hrefresh⟩
    · rw [hsame, h.hints_eq, after_nil, h.idle_index]
      rfl
    · rw [← hquiet, hnone] at hrefresh
      exact absurd hrefresh (Nat.not_lt_zero _)
  · have hnoted := ((h.hinting (before ++ later) a).refreshed hrefresh).1
    rw [altersWithin_concat]
    rcases hnoted with halters | hchanged
    · rw [after_append] at halters
      exact .inr halters
    · have hgoes := (h.goes_after before later hquiet).changed hchanged
      exact .inl (hgoes.resolve_right (by rw [h.unnoted hjust]; exact Bool.false_ne_true))

/-! A verifier reports a count, and the next one reports none. -/

/-- A line that reports a count. -/
def countLine : Text.Bytes :=
  Text.utf8 <| String.toList <|
    "\x7b\"message\":\"quantifierInstantiationsMessage" ++
    "\x7b\\\"method\\\":\\\"m\\\",\\\"instantiations\\\":4\x7d\"," ++
    "\"level\":\"note\",\"spans\":[\x7b\"file_name\":\"/w/a.rs\"," ++
    "\"line_start\":1,\"line_end\":1,\"column_start\":1,\"column_end\":2," ++
    "\"is_primary\":true\x7d]\x7d\n"

def counting : List Action :=
  .ask (.verify "/w/a.rs" .file (some "localhost:1")) :: .step :: .feed 1 .stderr countLine ::
    .exit 1 (some 0) .zero :: List.replicate 5 .step

def recounting : List Action :=
  .ask (.verify "/w/a.rs" .file (some "localhost:1")) :: .step :: .exit 2 (some 0) .zero ::
    List.replicate 4 .step

def hasReply (k : Task) : Bool :=
  match k.standing with
  | .ended (.verified _) => true
  | _ => false

theorem hints_announced_twice :
    (∀ id k, (quiet.after (counting ++ recounting ++ [.step])).task? id = some k →
      k.request.Verifies → ∃ reply, k.standing = .ended (.verified reply)) ∧
    quiet.JustRefreshed counting ∧
    (quiet.after (counting ++ recounting)).refreshes = (quiet.after counting).refreshes ∧
    (quiet.after (counting ++ recounting)).refreshes <
      (quiet.after (counting ++ recounting ++ [.step])).refreshes ∧
    ((quiet.after counting).hints "/w/a.rs").2 ≠ some [] ∧
    (quiet.after counting).AltersWithin (recounting ++ [.step]) ∧
    ∃ before later, counting ++ recounting ++ [.step] = before ++ later ∧
      quiet.JustRefreshed before ∧ (quiet.after before).refreshes = 2 ∧
      ((quiet.after before).hints "/w/a.rs").2 = some [] := by
  obtain ⟨hall, hfirst, hquiet, hrefresh, hcounted, hnone, htwice⟩ :
      (quiet.after (counting ++ recounting ++ [.step])).tasks.all hasReply = true ∧
      (quiet.after counting.dropLast).refreshes < (quiet.after counting).refreshes ∧
      (quiet.after (counting ++ recounting)).refreshes = (quiet.after counting).refreshes ∧
      (quiet.after (counting ++ recounting)).refreshes <
        (quiet.after (counting ++ recounting ++ [.step])).refreshes ∧
      ((quiet.after counting).hints "/w/a.rs").2 ≠ some [] ∧
      ((quiet.after (counting ++ recounting ++ [.step])).hints "/w/a.rs").2 = some [] ∧
      (quiet.after (counting ++ recounting ++ [.step])).refreshes = 2 := by
    decide +kernel
  have hanswered : ∀ id k, (quiet.after (counting ++ recounting ++ [.step])).task? id = some k →
      k.request.Verifies → ∃ reply, k.standing = .ended (.verified reply) := by
    intro id k hk _
    have hmem := List.all_eq_true.mp hall k (List.mem_of_getElem? hk)
    unfold hasReply at hmem
    split at hmem
    next reply hs => exact ⟨reply, hs⟩
    next => cases hmem
  have hjust : quiet.JustRefreshed counting := .inr ⟨counting.dropLast, .step, rfl, hfirst⟩
  obtain ⟨hannounced, hchanged⟩ := hints_announced fresh_quiet
  obtain ⟨before, later, he, hbefore, hcount, hhints⟩ := (hannounced _ hanswered).1
  exact ⟨hanswered, hjust, hquiet, hrefresh, hcounted, hchanged _ _ _ hjust hquiet hrefresh,
    before, later, he, hbefore, hcount.symm.trans htwice, (hhints _).symm.trans hnone⟩

end Session

end VerifierHost
