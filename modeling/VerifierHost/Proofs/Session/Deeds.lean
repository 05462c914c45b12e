import VerifierHost.Proofs.Session.Unobserved

/-! # What becomes of runs

Whatever happens to a session, a run begins, a run ends, or all runs go on (`act_deed`). With each
comes what is said on the status line, and how far the task of the run has come. The tasks that
began runs, in the order of their runs, are the starters of a history. -/

namespace VerifierHost

/-- What the beginning of a run tells. -/
def beginningTold (target : VerificationTarget) (name : Text) : List Effect :=
  [.busy true, .status (.verifying target name)]

/-- What is answered to a request whose run has ended. -/
def Request.answerTo (request : Request) : Ending → Answer
  | .stuck file => .failed (.noUri file)
  | .superseded => request.supersededAnswer
  | .ended o =>
    match request with
    | .verify .. => .verified (.ofOutcome o)
    | _ => .outcome (some o)

/-- What a request is to verify. -/
def Request.subject? : Request → Option (Text × VerificationTarget)
  | .verify path target _ | .run path target _ => some (path, target)
  | _ => none

theorem Request.verifies_of_subject? {request : Request} {path : Text} {target : VerificationTarget}
    (h : request.subject? = some (path, target)) : request.Verifies := by
  cases request with
  | verify | run => trivial
  | _ => cases h

/-- How far the run of a task has come. -/
inductive RunFate where
  | runs
  /-- The path of the crate was too long to look for metadata. -/
  | aborted
  | closed (ending : Ending)

/-- What has been told about a run, by how far it has come. -/
def RunFate.told (target : VerificationTarget) (name : Text) : RunFate → List Effect
  | .runs | .aborted => beginningTold target name
  | .closed ending => beginningTold target name ++ ending.told

/-- How far the run of a task has come goes by its standing. -/
def Task.Meets (k : Task) : RunFate → Prop
  | .runs => k.standing.runs?.isSome
  | .aborted => ∃ fault, k.standing = .ended (.failed (.badPath fault))
  | .closed ending => k.standing = .ended (k.request.answerTo ending)

/-- A task whose request is being served or has been. -/
def Task.Underway (k : Task) : Prop := k.standing.runs?.isSome ∨ k.standing.IsEnded

theorem Task.Meets.underway {k : Task} {fate : RunFate} (h : k.Meets fate) : k.Underway := by
  cases fate with
  | runs => exact .inl h
  | aborted =>
    obtain ⟨fault, hs⟩ := h
    exact .inr (by rw [hs]; trivial)
  | closed ending => exact .inr (by rw [show k.standing = _ from h]; trivial)

theorem Standing.IsEnded.runs?_eq_none {standing : Standing} (h : standing.IsEnded) :
    standing.runs? = none := by
  cases standing <;> first | rfl | cases h

theorem Task.Underway.not_free {k : Task} (h : k.Underway) :
    ¬ (k.standing = .queued ∨ k.standing.OnServer) := by
  rintro (hq | ho)
  · rw [Task.Underway, hq] at h
    exact h.elim Bool.false_ne_true id
  · rcases h with hr | he
    · rw [ho.runs?_eq_none] at hr
      cases hr
    · cases hs : k.standing <;> rw [hs] at ho he <;> first | exact ho | exact he

/-- A task goes on with its run or stays ended. -/
structure Task.GoesOn (k k' : Task) : Prop where
  request : k'.request = k.request
  runs : k'.standing.runs? = k.standing.runs?
  ended : k.standing.IsEnded → k'.standing = k.standing

theorem Task.GoesOn.refl (k : Task) : k.GoesOn k := ⟨rfl, rfl, fun _ => rfl⟩

/-- A run as far as its place among the runs goes. -/
def ActiveRun.key (r : ActiveRun) : Nat × Pid := (r.number, r.pid)

namespace Session

/-- What has been told on the status line so far. -/
def statusLine (s : Session) : List Effect := s.shown.filter Effect.onStatusLine

variable {s t u : Session} {n : Notice} {ns : List Notice} {id : TaskId} {k : Task}

/-! ## How runs are answered -/

theorem conclude_answerTo (hk : s.task? id = some k) (hver : k.request.Verifies) (c : Conclusion) :
    (s.conclude id c).tasks =
      (s.setStanding id (.ended (k.request.answerTo c.ending))).tasks := by
  have hsame : ((s.showAll c.effects).noticeNews c.released).task? id = some k := hk
  obtain ⟨request, standing⟩ := k
  unfold conclude answerRun
  cases c.ending with
  | stuck file => rfl
  | superseded =>
    dsimp only
    rw [hsame]
    cases request with
    | verify => exact setStanding_tasks_congr (refreshHints_tasks _) id _
    | run => rfl
    | _ => cases hver
  | ended o =>
    dsimp only
    rw [hsame]
    cases request with
    | verify => exact setStanding_tasks_congr (refreshHints_tasks _) id _
    | run => rfl
    | _ => cases hver

/-- Hints that are asked for anew are no matter of the status line. -/
theorem statusLine_conclude (s : Session) (id : TaskId) (c : Conclusion) :
    (s.conclude id c).statusLine = s.statusLine ++ c.effects.filter Effect.onStatusLine := by
  obtain ⟨more, hshown, hmore⟩ := s.conclude_shown id c
  unfold statusLine
  rw [hshown, List.filter_append, List.filter_append]
  rcases hmore with rfl | rfl
  · exact List.append_nil _
  · exact List.append_nil _

/-! ## Who begins a run -/

/-- A task either begins no run or launches the one it was asked for. -/
def Launches (s : Session) (id : TaskId) (t : Session) : Prop :=
  t.engine.runCount = s.engine.runCount ∨ ∃ k path target address, s.task? id = some k ∧
    k.request.subject? = some (path, target) ∧ t = s.launch id path target address

theorem Launches.of_engine (h : t.engine = s.engine) : Launches s id t :=
  .inl (congrArg Engine.runCount h)

theorem useServer_starts (s : Session) (id : TaskId) (answer : Answer) :
    Launches s id (s.useServer id answer) := by
  unfold useServer
  split
  next ht => exact .inr ⟨_, _, _, _, ht, rfl, rfl⟩
  next =>
    split
    next => exact .of_engine rfl
    next => exact .of_engine rfl
  next => exact .of_engine rfl

theorem requireServer_starts (s : Session) (id : TaskId) : Launches s id (s.requireServer id) := by
  unfold requireServer
  split
  next => exact useServer_starts s id _
  next => exact .of_engine (Deals.joinStartup s).engine

theorem answerNews_starts (s : Session) (id : TaskId) : Launches s id (s.answerNews id) := by
  obtain ⟨findings, answer, he⟩ := s.answerNews_eq id
  rw [he]
  exact .inl rfl

theorem engine_awaitPhase (s : Session) (id : TaskId) : (s.awaitPhase id).engine = s.engine := by
  unfold awaitPhase
  split <;> rfl

theorem engine_concludePhase (s : Session) (id : TaskId) (ready crashed : WaitId) :
    (s.concludePhase id ready crashed).engine = s.engine := by
  unfold concludePhase
  dsimp only
  split <;> rfl

theorem begin_starts (s : Session) (id : TaskId) : Launches s id (s.begin id) := by
  have hend : ∀ result : Session × Except Failure Unit, result.1.engine = s.engine →
      Launches s id (endStart id result) := by
    rintro ⟨u, why | _⟩ hu
    · exact .of_engine hu
    · exact .of_engine hu
  unfold begin
  split
  next request hk =>
    split
    next => exact .of_engine rfl
    next =>
      split
      next =>
        split
        next =>
          split
          · exact requireServer_starts s id
          · exact .inr ⟨_, _, _, _, hk, rfl, rfl⟩
        next => exact requireServer_starts s id
      next => exact .of_engine rfl
    next => exact .inr ⟨_, _, _, _, hk, rfl, rfl⟩
    next =>
      split
      next => exact .inl rfl
      next => exact answerNews_starts s id
    next =>
      split
      next => exact .inl rfl
      next => exact answerNews_starts s id
    next => exact requireServer_starts s id
    next => exact .of_engine (engine_awaitPhase s id)
    next => exact hend _ (Aside.startServer s).engine
    next => exact hend _ (Aside.superviseCall s ..).engine
    next =>
      have hstart := (Aside.startServer s).engine
      split
      next u hu =>
        rw [hu] at hstart
        exact .of_engine ((engine_awaitPhase u id).trans hstart)
      next u why hu =>
        rw [hu] at hstart
        exact .of_engine hstart
    next => exact .inl rfl
  next => exact .of_engine rfl

theorem resume_starts (s : Session) (id : TaskId) : Launches s id (s.resume id) := by
  unfold resume
  split
  next w _ =>
    unfold concludeNews
    split
    next => exact answerNews_starts s id
    next => exact .of_engine rfl
  next => exact .of_engine (engine_concludePhase ..)
  next => exact useServer_starts s id _
  next => exact .of_engine rfl

/-! ## Deeds -/

/-- What happens to runs from one session to another: all go on, a task begins one, or one ends. -/
inductive Deed (s t : Session) : Option TaskId → Prop
  | keeps (tasks : ∀ i k, s.task? i = some k → k.Underway →
        ∃ k', t.task? i = some k' ∧ k.GoesOn k')
      (runs : t.engine.runs.map ActiveRun.key = s.engine.runs.map ActiveRun.key)
      (count : t.engine.runCount = s.engine.runCount)
      (line : t.statusLine = s.statusLine) : Deed s t none
  | begins {id : TaskId} {k k' : Task} {path : Text} {target : VerificationTarget}
      {fate : RunFate} (task : s.task? id = some k) (idle : ¬ k.Underway)
      (task' : t.task? id = some k') (subject : k'.request.subject? = some (path, target))
      (meets : k'.Meets fate) (latest : fate ≠ .closed .superseded)
      (others : ∀ i, i ≠ id → t.task? i = s.task? i)
      (runs : t.engine.runs.map ActiveRun.key = s.engine.runs.map ActiveRun.key ∨
        ∃ pid, k'.standing.runs? = some pid ∧ t.engine.runs.map ActiveRun.key =
          s.engine.runs.map ActiveRun.key ++ [(t.engine.runCount, pid)])
      (count : t.engine.runCount = s.engine.runCount + 1)
      (line : t.statusLine = s.statusLine ++ fate.told target (shownName path)) :
      Deed s t (some id)
  | ends {id : TaskId} {k : Task} {r : ActiveRun} {ending : Ending} (run : r ∈ s.engine.runs)
      (task : s.task? id = some k) (serves : k.standing.runs? = some r.pid)
      (task' : t.task? id = some { k with standing := .ended (k.request.answerTo ending) })
      (others : ∀ i, i ≠ id → t.task? i = s.task? i)
      (runs : t.engine.runs = s.engine.runs.filter fun q => q.pid ≠ r.pid)
      (count : t.engine.runCount = s.engine.runCount)
      (superseded : ending = .superseded ↔ r.number ≠ s.engine.runCount)
      (line : t.statusLine = s.statusLine ++ ending.told) : Deed s t none

theorem Deed.of_queue {queue : List Notice} {who : Option TaskId}
    (h : Deed { s with queue } t who) : Deed s t who := by
  cases h with
  | keeps tasks runs count line => exact .keeps tasks runs count line
  | begins task idle task' subject meets latest others runs count line =>
    exact .begins task idle task' subject meets latest others runs count line
  | ends run task serves task' others runs count superseded line =>
    exact .ends run task serves task' others runs count superseded line

/-- A session in which no task and no run is another one. -/
theorem Deed.of_same (htasks : ∀ i k, s.task? i = some k → t.task? i = some k)
    (hengine : t.engine = s.engine) (hshown : t.shown = s.shown) : Deed s t none :=
  .keeps (fun i k hk _ => ⟨k, htasks i k hk, .refl k⟩) (by rw [hengine]) (by rw [hengine])
    (congrArg (List.filter Effect.onStatusLine) hshown)

/-- A task that is not underway gets another standing, and nobody else does. -/
theorem Deed.of_idle {standing : Standing} (hk : s.task? id = some k) (hidle : ¬ k.Underway)
    (htasks : t.tasks = (s.setStanding id standing).tasks)
    (hruns : t.engine.runs = s.engine.runs) (hcount : t.engine.runCount = s.engine.runCount)
    (hshown : t.shown = s.shown) : Deed s t none := by
  refine .keeps (fun i k' hk' hunderway => ?_) (by rw [hruns]) hcount
    (congrArg (List.filter Effect.onStatusLine) hshown)
  have hi : i ≠ id := by
    rintro rfl
    cases hk.symm.trans hk'
    exact hidle hunderway
  exact ⟨k', (task?_setStanding_of_ne htasks i hi).trans hk', .refl k'⟩

/-- A task that runs a verifier goes on with it, and nobody else does anything. -/
theorem Deed.of_running {standing : Standing} (hk : s.task? id = some k)
    (hrun : k.standing.runs?.isSome) (hstanding : standing.runs? = k.standing.runs?)
    (htasks : t.tasks = (s.setStanding id standing).tasks) (hengine : t.engine = s.engine)
    (hshown : t.shown = s.shown) : Deed s t none := by
  refine .keeps (fun i k' hk' _ => ?_) (by rw [hengine]) (by rw [hengine])
    (congrArg (List.filter Effect.onStatusLine) hshown)
  by_cases hi : i = id
  · subst hi
    cases hk.symm.trans hk'
    refine ⟨_, task?_setStanding_self hk htasks, rfl, hstanding, fun he => ?_⟩
    rw [he.runs?_eq_none] at hrun
    cases hrun
  · exact ⟨k', (task?_setStanding_of_ne htasks i hi).trans hk', .refl k'⟩

theorem answerTo_ne_superseded {request : Request} {ending : Ending} (h : ending ≠ .superseded) :
    request.answerTo ending ≠ request.supersededAnswer := by
  cases ending with
  | superseded => exact absurd rfl h
  | stuck file => cases request <;> exact nofun
  | ended o => cases request <;> exact nofun

/-- A launch begins a run of what was asked for. -/
theorem Launch.deed {path : Text} {target : VerificationTarget}
    (h : Launch id target (shownName path) s t) (hk : s.task? id = some k) (hidle : ¬ k.Underway)
    (hsubject : k.request.subject? = some (path, target)) : Deed s t (some id) := by
  have hver := Request.verifies_of_subject? hsubject
  have hcount := h.runCount
  have hbegun : (s.engine.startRun target (shownName path)).2.filter Effect.onStatusLine =
      beginningTold target (shownName path) := rfl
  cases h with
  | @spawned _ invocation pid start engine tasks fresh length shown =>
    refine .begins hk hidle (task?_setStanding_self hk tasks) hsubject
      (show Task.Meets _ .runs from rfl) nofun (task?_setStanding_of_ne tasks)
      (.inr ⟨pid, rfl, ?_⟩) hcount ?_
    · rw [engine]
      exact List.map_append
    · rw [statusLine, shown, List.filter_append, hbegun]
      rfl
  | @refused u engine tasks length shown =>
    have hku : u.task? id = some k := (task?_congr tasks id).trans hk
    obtain ⟨-, -, -, hruns, -⟩ := conclude_same
      { u with engine := (u.engine.conclude u.engine.runCount target (shownName path) .crash
        none).1 } id (u.engine.conclude u.engine.runCount target (shownName path) .crash none).2
    obtain ⟨updates, hupdates, -⟩ := u.engine.conclude_spec u.engine.runCount target
      (shownName path) .crash none
    have htasks := (conclude_answerTo
      (s := { u with engine := (u.engine.conclude u.engine.runCount target (shownName path) .crash
        none).1 }) hku hver
      (u.engine.conclude u.engine.runCount target (shownName path) .crash none).2).trans
        (setStanding_tasks_congr tasks id _)
    refine .begins hk hidle (task?_setStanding_self hk htasks) hsubject
      (show Task.Meets _ (.closed _) from rfl)
      (fun he => (Engine.conclude_superseded_iff ..).mp (RunFate.closed.inj he) rfl)
      (task?_setStanding_of_ne htasks) (.inl ?_) hcount ?_
    · rw [hruns, hupdates, engine]
      rfl
    · rw [statusLine_conclude, Engine.told_conclude]
      show u.statusLine ++ _ = _
      rw [statusLine, shown, List.filter_append, hbegun, List.append_assoc]
      rfl
  | @aborted u fault engine tasks length shown =>
    have htasks := setStanding_tasks_congr tasks id (.ended (.failed (.badPath fault)))
    refine .begins hk hidle (task?_setStanding_self hk htasks) hsubject
      (show Task.Meets _ .aborted from ⟨fault, rfl⟩) nofun (task?_setStanding_of_ne htasks)
      (.inl ?_) hcount ?_
    · show u.engine.runs.map _ = _
      rw [engine]
      rfl
    · show u.statusLine = _
      rw [statusLine, shown, List.filter_append, hbegun]
      rfl

/-- The end of a run answers the request for it. -/
theorem finishRun_deed {r : ActiveRun} (hr : r ∈ s.engine.runs) (hk : s.task? id = some k)
    (hver : k.request.Verifies) (hrun : k.standing.runs? = some r.pid) (code : ExitCode) :
    Deed s (s.finishRun id r code) none := by
  obtain ⟨-, hruns, hcount, -⟩ := s.finishRun_same id r code
  have htasks := conclude_answerTo
    (s := { s with engine := (s.engine.finish r code s.world.clock).1 }) hk hver
    (s.engine.finish r code s.world.clock).2
  refine .ends hr hk hrun (task?_setStanding_self hk htasks) (task?_setStanding_of_ne htasks) hruns
    hcount (Engine.finish_superseded_iff ..) ?_
  unfold finishRun
  dsimp only
  rw [statusLine_conclude, Engine.told_finish]
  rfl

/-- It is the turn of a task to begin its run. -/
def RunTurn (s : Session) (n : Notice) (id : TaskId) : Prop :=
  ∃ k, s.task? id = some k ∧ (n = .begin id ∧ k.standing = .queued ∨
    n = .resume id ∧ ∃ answer, k.standing = .startupCame answer)

theorem RunTurn.notice (h : s.RunTurn n id) : n = .begin id ∨ n = .resume id := by
  obtain ⟨k, -, hn⟩ := h
  exact hn.imp And.left And.left

/-- **What a notice does to runs.** -/
theorem react_deed (h : Sound (n :: ns) s) : Deed s (s.react n) none ∨
    ∃ id, s.RunTurn n id ∧ Deed s (s.react n) (some id) := by
  have hcourse := react_course h
  generalize ht : s.react n = t at hcourse
  cases hcourse with
  | aside ha _ =>
    refine .inl (.keeps (fun i k hk hunderway => ?_) (by rw [ha.engine]) (by rw [ha.engine])
      (congrArg (List.filter Effect.onStatusLine) ha.shown))
    obtain ⟨k', hk', rfl | ⟨-, hfree, -⟩⟩ := ha.old i k hk
    · exact ⟨_, hk', .refl _⟩
    · exact absurd hfree hunderway.not_free
  | @waits id k file _ hk hq _ _ =>
    exact .inl (.of_idle hk (fun hunder => hunder.not_free (.inl hq)) rfl rfl rfl rfl)
  | @answers id k hk hasks hn =>
    obtain ⟨findings, answer, he⟩ := s.answerNews_eq id
    rw [he]
    refine .inl (.of_idle hk ?_ rfl rfl rfl rfl)
    rcases hn with ⟨-, hq⟩ | ⟨-, w, hw, -⟩
    · exact fun hunder => hunder.not_free (.inl hq)
    · rintro (hr | hended)
      · rw [hw] at hr
        cases hr
      · rw [hw] at hended
        cases hended
  | @launches id k path target address hk hver hn =>
    have hlaunch := (launch_spec s id path target address).runCount
    have hstarts : Launches s id (s.launch id path target address) := by
      rw [← ht]
      rcases hn with ⟨rfl, -⟩ | ⟨rfl, -⟩
      · exact begin_starts s id
      · exact resume_starts s id
    rcases hstarts with hsame | ⟨k', path', target', address', hk', hsubject, he⟩
    · exact absurd (hlaunch.symm.trans hsame) (Nat.succ_ne_self _)
    · cases hk.symm.trans hk'
      refine .inr ⟨id, ⟨k, hk, hn⟩, ?_⟩
      rw [he]
      refine (launch_spec ..).deed hk (fun hunder => hunder.not_free ?_) hsubject
      rcases hn with ⟨-, hq⟩ | ⟨-, a, hs⟩
      · exact .inl hq
      · exact .inr (hs ▸ trivial)
  | @reads r stream _ hr hopen =>
    obtain ⟨w, chunks, closed, -, -, htasks, hengine, hshown⟩ :=
      readVerifier_spec h.runners hr hopen
    obtain ⟨board, hboard⟩ := s.engine.takeOutput_spec r stream chunks closed
    refine .inl (.keeps (fun i k hk _ => ⟨k, (task?_congr htasks i).trans hk, .refl k⟩) ?_ ?_ ?_)
    · rw [hengine, hboard]
      refine (List.map_map ..).trans (List.map_congr_left fun q hq => ?_)
      by_cases hp : q.pid = r.pid
      · rw [h.runners.eq_of_pid hq hr hp]
        simp [ActiveRun.key]
      · simp [ActiveRun.key, hp]
    · rw [hengine, hboard]
      rfl
    · rw [statusLine, hshown, List.filter_append,
        Engine.onStatusLine_diagnostics (s.engine.onlyDiagnostics_takeOutput r stream chunks closed)]
      exact List.append_nil _
  | @counts id k pid m _ hk hs =>
    obtain ⟨hengine, hshown, -⟩ := s.counts_same id pid m
    exact .inl (.of_running hk (by rw [hs]; rfl) (by rw [hs]; rfl) (s.counts_tasks id pid m)
      hengine hshown)
  | @awaits r id k w _ _ hk hs _ =>
    exact .inl (.of_running hk (by rw [hs]; rfl) (by rw [hs]; rfl) rfl rfl rfl)
  | @finishes r id k code _ hr hk hs =>
    exact .inl (finishRun_deed hr hk (h.runners.tasks id k _ hk hs).1 hs code)

/-! ## Histories -/

/-- The task that begins a run by an action, if one does. -/
def starter (s : Session) : Action → Option TaskId
  | .step =>
    if s.step.engine.runCount = s.engine.runCount then none
    else
      match s.queue with
      | .begin id :: _ | .resume id :: _ => some id
      | _ => none
  | _ => none

/-- The tasks that begin runs in a history, in the order of their runs. -/
def starters (s : Session) : List Action → List TaskId
  | [] => []
  | a :: rest => (s.starter a).toList ++ (s.act a).starters rest

theorem starters_append (s : Session) (before later : List Action) :
    s.starters (before ++ later) = s.starters before ++ (s.after before).starters later := by
  induction before generalizing s with
  | nil => rfl
  | cons a rest ih =>
    rw [List.cons_append, starters, ih, starters, List.append_assoc]
    rfl

theorem Deed.runCount {who : Option TaskId} (h : Deed s t who) :
    t.engine.runCount = s.engine.runCount ↔ who = none := by
  cases h with
  | keeps _ _ count => exact ⟨fun _ => rfl, fun _ => count⟩
  | begins _ _ _ _ _ _ _ _ count =>
    rw [count]
    exact ⟨fun he => absurd he (Nat.succ_ne_self _), nofun⟩
  | ends _ _ _ _ _ _ count => exact ⟨fun _ => rfl, fun _ => count⟩

/-- Who begins a run by an action, and what happens to runs by it. -/
theorem act_deed_turn (h : Sound s.queue s) (a : Action) : Deed s (s.act a) (s.starter a) ∧
    ∀ id, s.starter a = some id → a = .step ∧ ∃ n rest, s.queue = n :: rest ∧ s.RunTurn n id := by
  cases a with
  | ask request =>
    exact ⟨.of_same (fun i k hk => task?_addTask hk request) rfl rfl, nofun⟩
  | feed | exit => exact ⟨.of_same (fun i k hk => hk) rfl rfl, nofun⟩
  | step =>
    unfold starter
    dsimp only [act]
    cases hq : s.queue with
    | nil =>
      rw [step_nil hq, if_pos rfl]
      exact ⟨.of_same (fun i k hk => hk) rfl rfl, nofun⟩
    | cons n rest =>
      rw [hq] at h
      have htaken : Sound (n :: rest) { s with queue := rest } := h.congr rfl rfl rfl rfl
      rw [step_cons hq]
      rcases react_deed htaken with hd | ⟨id, hturn, hd⟩
      · rw [if_pos (hd.of_queue.runCount.mpr rfl)]
        exact ⟨hd.of_queue, nofun⟩
      · have hstarter : (match n :: rest with
            | .begin id :: _ | .resume id :: _ => some id
            | _ => none) = some id := by
          rcases hturn.notice with rfl | rfl <;> rfl
        rw [if_neg fun he => Option.some_ne_none id (hd.of_queue.runCount.mp he), hstarter]
        refine ⟨hd.of_queue, fun i hi => ⟨rfl, n, rest, rfl, ?_⟩⟩
        cases hi
        exact hturn

/-- **What can happen to runs**, and who begins one. -/
theorem act_deed (h : Sound s.queue s) (a : Action) : Deed s (s.act a) (s.starter a) :=
  (act_deed_turn h a).1

theorem starter_turn (h : Sound s.queue s) {a : Action} (hstarter : s.starter a = some id) :
    a = .step ∧ ∃ n rest, s.queue = n :: rest ∧ s.RunTurn n id :=
  (act_deed_turn h a).2 id hstarter

end Session

end VerifierHost
