import VerifierHost.Proofs.Run.Endings
import VerifierHost.Proofs.Session.Sound

/-! # The larger steps, part by part

What concluding, finishing, answering and reading leave unchanged, as equations and
specifications that later proofs use in place of the definitions. -/

namespace VerifierHost

namespace Session

variable {s t : Session} {id : TaskId} {k : Task} {r : ActiveRun} {stream : Stream}

/-! ## Answers -/

/-- Asking for hints anew changes what the index of instantiations has to say about changes. -/
theorem refreshHints_eq (s : Session) : ∃ instantiations effects,
    s.refreshHints =
      (s.setFindings { s.findings with instantiations }).showAll effects ∧
    instantiations.entries = s.findings.instantiations.entries ∧
    (effects = [] ∨ effects = [.refreshHints]) := by
  unfold refreshHints
  dsimp only
  split
  next => exact ⟨_, _, rfl, rfl, .inr rfl⟩
  next =>
    exact ⟨s.findings.instantiations.takeChanged.2, [], (showAll_nil _).symm, rfl, .inl rfl⟩

/-- The request for a run is answered, for an editor after hints were asked for anew. -/
theorem answerRun_eq (s : Session) (id : TaskId) (ending : Ending) : ∃ u answer,
    s.answerRun id ending = u.endTask id answer ∧ (u = s ∨ u = s.refreshHints) := by
  unfold answerRun
  split
  next => exact ⟨s, _, rfl, .inl rfl⟩
  next =>
    split
    next => exact ⟨_, _, rfl, .inr rfl⟩
    next => exact ⟨s, _, rfl, .inl rfl⟩
  next =>
    split
    next => exact ⟨_, _, rfl, .inr rfl⟩
    next => exact ⟨s, _, rfl, .inl rfl⟩

/-- A request for what is known is answered; hints are drawn anew if need be. -/
theorem answerNews_eq (s : Session) (id : TaskId) : ∃ findings answer,
    s.answerNews id = (s.setFindings findings).endTask id answer := by
  unfold answerNews
  split
  next => exact ⟨s.findings, _, rfl⟩
  next =>
    unfold hints
    dsimp only
    cases (s.findings.instantiations.render instantiationKind _).annotations with
    | none => exact ⟨_, _, rfl⟩
    | some annotations => exact ⟨_, _, rfl⟩
  next => exact ⟨s.findings, _, rfl⟩

theorem noticeNews_queue (s : Session) (waits : List WaitId) : ∃ more,
    (s.noticeNews waits).queue = s.queue ++ more ∧ ∀ n ∈ more, ∃ i, n = .resume i := by
  refine ⟨_, rfl, fun n hn => ?_⟩
  obtain ⟨w, -, hn⟩ := List.mem_flatMap.mp hn
  obtain ⟨i, -, rfl⟩ := List.mem_map.mp hn
  exact ⟨i, rfl⟩

/-- What concluding a run changes in a session: its task ends, and notices come on top. -/
theorem conclude_same (s : Session) (id : TaskId) (c : Conclusion) :
    (s.conclude id c).world = s.world ∧ (s.conclude id c).server = s.server ∧
      (s.conclude id c).attached = s.attached ∧
      (s.conclude id c).engine.runs = s.engine.runs ∧
      (s.conclude id c).engine.runCount = s.engine.runCount ∧
      (s.conclude id c).engine.updates = s.engine.updates ∧
      (∃ answer, (s.conclude id c).tasks = (s.setStanding id (.ended answer)).tasks) ∧
      ∃ more, (s.conclude id c).queue = s.queue ++ more ∧
        ∀ n ∈ more, (∃ i, n = .resume i) ∨ ∃ i, n = .startupEnded i := by
  obtain ⟨news, hnews, hresume⟩ := (s.showAll c.effects).noticeNews_queue c.released
  obtain ⟨u, answer, hu, hcases⟩ := ((s.showAll c.effects).noticeNews c.released).answerRun_eq id
    c.ending
  have hmore : ∀ n ∈ news ++ (((s.showAll c.effects).noticeNews c.released).tasksWhere
      (awaitsStartup id)).map .startupEnded, (∃ i, n = .resume i) ∨ ∃ i, n = .startupEnded i := by
    intro n hn
    rcases List.mem_append.mp hn with hn | hn
    · exact .inl (hresume n hn)
    · obtain ⟨i, -, rfl⟩ := List.mem_map.mp hn
      exact .inr ⟨i, rfl⟩
  have hconclude : s.conclude id c = u.endTask id answer := hu
  rw [hconclude]
  rcases hcases with rfl | rfl
  · refine ⟨rfl, rfl, rfl, rfl, rfl, rfl, ⟨answer, rfl⟩, _, ?_, hmore⟩
    rw [← List.append_assoc]
    exact congrArg (· ++ _) hnews
  · obtain ⟨instantiations, effects, he, -, -⟩ :=
      ((s.showAll c.effects).noticeNews c.released).refreshHints_eq
    rw [he]
    refine ⟨rfl, rfl, rfl, rfl, rfl, rfl, ⟨answer, rfl⟩, _, ?_, hmore⟩
    rw [← List.append_assoc]
    exact congrArg (· ++ _) hnews

/-- What is shown when a run is concluded; the hints may be asked for anew after that. -/
theorem conclude_shown (s : Session) (id : TaskId) (c : Conclusion) : ∃ more,
    (s.conclude id c).shown = s.shown ++ c.effects ++ more ∧
      (more = [] ∨ more = [.refreshHints]) := by
  obtain ⟨u, answer, hu, hcases⟩ := ((s.showAll c.effects).noticeNews c.released).answerRun_eq id
    c.ending
  have hconclude : s.conclude id c = u.endTask id answer := hu
  have hshown : ((s.showAll c.effects).noticeNews c.released).shown = s.shown ++ c.effects :=
    showAll_shown ..
  rw [hconclude]
  rcases hcases with rfl | rfl
  · exact ⟨[], hshown.trans (List.append_nil _).symm, .inl rfl⟩
  · obtain ⟨instantiations, effects, he, -, heffects⟩ :=
      ((s.showAll c.effects).noticeNews c.released).refreshHints_eq
    rw [he]
    refine ⟨effects, ?_, heffects⟩
    exact (showAll_shown ..).trans (congrArg (· ++ effects) hshown)

theorem conclude_stuck {c : Conclusion} {file : Text} (s : Session) (id : TaskId)
    (h : c.ending = .stuck file) :
    (s.conclude id c).tasks = (s.setStanding id (.ended (.failed (.noUri file)))).tasks := by
  unfold conclude answerRun
  rw [h]
  rfl

theorem answerNews_tasks (s : Session) (id : TaskId) : ∃ answer,
    (s.answerNews id).tasks = (s.setStanding id (.ended answer)).tasks := by
  obtain ⟨findings, answer, h⟩ := s.answerNews_eq id
  exact ⟨answer, by rw [h]; rfl⟩

theorem counts_tasks (s : Session) (id : TaskId) (pid : Pid) (m : Nat) :
    (if m = 0 then s.setStanding id (.awaitingOutput pid 1)
      else (s.setStanding id (.awaitingOutput pid (m + 1))).enqueue [.outputEnded pid]).tasks =
      (s.setStanding id (.awaitingOutput pid (m + 1))).tasks := by
  split
  next h => rw [h]
  next => rfl

/-- An end of a stream that is counted is nothing to anybody but its task. -/
theorem counts_same (s : Session) (id : TaskId) (pid : Pid) (m : Nat) :
    let t := if m = 0 then s.setStanding id (.awaitingOutput pid 1)
      else (s.setStanding id (.awaitingOutput pid (m + 1))).enqueue [.outputEnded pid]
    t.engine = s.engine ∧ t.shown = s.shown ∧ t.world = s.world ∧
      t.queue = s.queue ++ if m = 0 then [] else [.outputEnded pid] := by
  split
  next => exact ⟨rfl, rfl, rfl, (List.append_nil _).symm⟩
  next => exact ⟨rfl, rfl, rfl, rfl⟩

/-- What is left of a session when a run ends: its task has ended, and the run is gone. -/
theorem finishRun_same (s : Session) (id : TaskId) (r : ActiveRun) (code : ExitCode) :
    (s.finishRun id r code).world = s.world ∧
      (s.finishRun id r code).engine.runs = (s.engine.dropRun r.pid).runs ∧
      (s.finishRun id r code).engine.runCount = s.engine.runCount ∧
      (s.finishRun id r code).engine.updates =
        (s.engine.finish r code s.world.clock).1.updates ∧
      ∃ answer, (s.finishRun id r code).tasks = (s.setStanding id (.ended answer)).tasks := by
  obtain ⟨board, updates, he, -⟩ := s.engine.finish_spec r code s.world.clock
  obtain ⟨hw, -, -, hr, hc, hu, ht, -⟩ := conclude_same
    { s with engine := (s.engine.finish r code s.world.clock).1 } id
    (s.engine.finish r code s.world.clock).2
  have hruns : (s.engine.finish r code s.world.clock).1.runs = (s.engine.dropRun r.pid).runs := by
    rw [he]
  have hcount : (s.engine.finish r code s.world.clock).1.runCount = s.engine.runCount := by
    rw [he]; rfl
  exact ⟨hw, hr.trans hruns, hc.trans hcount, hu, ht⟩

/-! ## Reading -/

theorem readVerifier_eq {notices : List Notice} (h : Runners notices s)
    (hr : r ∈ s.engine.runs) (hopen : (r.tap stream).ended = false) :
    s.readVerifier r stream =
      let (world, chunks, closed) := s.world.collect r.pid stream
      let (engine, effects) := s.engine.takeOutput r stream chunks closed
      ({ s with world, engine }.showAll effects).enqueue
        (if closed || chunks.any List.isEmpty then [.streamEnded r.pid] else []) := by
  unfold readVerifier
  rw [hopen]
  dsimp only
  obtain ⟨board, hb⟩ := s.engine.takeOutput_spec r stream (s.world.collect r.pid stream).2.1
    (s.world.collect r.pid stream).2.2
  have hrun : (s.engine.takeOutput r stream (s.world.collect r.pid stream).2.1
      (s.world.collect r.pid stream).2.2).1.run? r.pid =
      some (r.read stream (s.world.collect r.pid stream).2.1
        (s.world.collect r.pid stream).2.2).1 := by
    rw [hb]
    refine (s.engine.run?_putRun _ r.pid).trans ?_
    rw [ActiveRun.read_pid, if_pos rfl, h.run?_eq hr]
    rfl
  rw [if_neg Bool.false_ne_true, hrun, Option.any_some, ActiveRun.ended_tap_read]
  split
  next => rfl
  next => exact (enqueue_nil _).symm

/-- What a reader changes, as the engine sees it. -/
theorem readVerifier_spec {notices : List Notice} (h : Runners notices s)
    (hr : r ∈ s.engine.runs) (hopen : (r.tap stream).ended = false) : ∃ w chunks closed,
    s.world.collect r.pid stream = (w, chunks, closed) ∧
      (s.readVerifier r stream).world = w ∧ (s.readVerifier r stream).tasks = s.tasks ∧
      (s.readVerifier r stream).engine = (s.engine.takeOutput r stream chunks closed).1 ∧
      (s.readVerifier r stream).shown =
        s.shown ++ (s.engine.takeOutput r stream chunks closed).2 := by
  obtain ⟨w, chunks, closed, hc⟩ : ∃ w chunks closed,
    s.world.collect r.pid stream = (w, chunks, closed) := ⟨_, _, _, rfl⟩
  refine ⟨w, chunks, closed, hc, ?_⟩
  rw [readVerifier_eq h hr hopen, hc]
  exact ⟨rfl, rfl, rfl, showAll_shown ..⟩

/-! ## Launching -/

theorem killRuns_induction {P : Session → Prop} (h : P s) (hkill : ∀ s pid, P s → P (s.kill pid)) :
    P s.killRuns := by
  have hfold : ∀ (pids : List Pid) (u : Session), P u → P (pids.foldl kill u) := by
    intro pids
    induction pids with
    | nil => exact fun u hu => hu
    | cons pid rest ih => exact fun u hu => ih _ (hkill u pid hu)
  exact hfold s.engine.pids s h

theorem kill_shown (s : Session) (pid : Pid) : (s.kill pid).shown = s.shown :=
  (record_shown ..).trans (List.append_nil _)

/-- Killing verifiers is nothing but that. -/
theorem killRuns_same (s : Session) : s.killRuns.engine = s.engine ∧ s.killRuns.tasks = s.tasks ∧
    s.killRuns.server = s.server ∧ s.killRuns.attached = s.attached ∧
    s.killRuns.shown = s.shown := by
  apply killRuns_induction (P := fun t => t.engine = s.engine ∧ t.tasks = s.tasks ∧
    t.server = s.server ∧ t.attached = s.attached ∧ t.shown = s.shown)
  · exact ⟨rfl, rfl, rfl, rfl, rfl⟩
  · rintro u pid ⟨he, ht, hs, ha, hsh⟩
    exact ⟨he, ht, hs, ha, (kill_shown u pid).trans hsh⟩

/-- A start changes the world, whether it succeeds or not, and is seen. -/
theorem spawn_eq (s : Session) (call : Call) : ∃ event : Event, event.effect? = none ∧
    s.spawn call = ({ s with world := s.world.spawn.1 }.record [event], s.world.spawn.2) := by
  unfold spawn
  split
  next w pid h => exact ⟨.spawned pid call, rfl, by rw [h]⟩
  next w fault h => exact ⟨.refused call, rfl, by rw [h]⟩

/-- The verifier is started, or the run is concluded at once. -/
theorem startVerifier_cases (s : Session) (id : TaskId) (invocation : Invocation)
    (target : VerificationTarget) (name : Text) :
    (∃ w pid event, s.world.spawn = (w, .ok pid) ∧ event.effect? = none ∧
      s.startVerifier id invocation target name =
        ({ { s with world := w }.record [event] with
            engine := s.engine.launched invocation target name pid s.world.clock }.setStanding id
          (.awaitingOutput pid 0)).enqueue
            [.wake (.output pid .stdout), .wake (.output pid .stderr)]) ∨
    ∃ t, Aside s t ∧ t.tasks = s.tasks ∧ t.queue = s.queue ∧
      s.startVerifier id invocation target name =
        { t with engine := (t.engine.conclude t.engine.runCount target name .crash none).1 }.conclude
          id (t.engine.conclude t.engine.runCount target name .crash none).2 := by
  have haside := Aside.spawn s invocation.call
  obtain ⟨event, hevent, hspawn⟩ := s.spawn_eq invocation.call
  rw [hspawn] at haside
  unfold startVerifier
  rw [hspawn]
  cases hw : s.world.spawn with
  | mk w result =>
    rw [hw] at haside
    cases result with
    | ok pid => exact .inl ⟨w, pid, event, rfl, hevent, rfl⟩
    | error fault => exact .inr ⟨_, haside, rfl, rfl, rfl⟩

/-- A run has begun that has no process yet. -/
structure Begun (target : VerificationTarget) (name : Text) (s u : Session) : Prop where
  engine : u.engine = (s.engine.startRun target name).1
  tasks : u.tasks = s.tasks
  world : u.world = s.killRuns.world
  server : u.server = s.server
  attached : u.attached = s.attached
  queue : u.queue = s.killRuns.queue
  shown : u.shown = s.shown ++ (s.engine.startRun target name).2

theorem forgetCrate_ok {path : Text} (h : s.forgetCrate path = .ok t) :
    ∃ files, t = { s with files }.record [.metadataDeleted path] := by
  unfold forgetCrate at h
  cases hr : s.files.removeMetadata s.engine.directory path with
  | error fault => rw [hr] at h; cases h
  | ok files => rw [hr] at h; cases h; exact ⟨files, rfl⟩

/-- A run begins; then its verifier is started, unless the path of a crate is too long. -/
theorem launch_build (s : Session) (id : TaskId) (path : Text) (target : VerificationTarget)
    (address : Text) : ∃ u, Begun target (shownName path) s u ∧
      ((∃ tools settings inherited, s.launch id path target address =
          u.startVerifier id (.build tools settings inherited address path target) target
            (shownName path)) ∨
        ∃ fault, s.launch id path target address = u.endTask id (.failed (.badPath fault))) := by
  obtain ⟨hengine, htasks, hserver, hattached, hshown⟩ := s.killRuns_same
  have hbegun : Begun target (shownName path) s
      ({ s.killRuns with
          engine := (s.killRuns.engine.startRun target (shownName path)).1 }.showAll
        (s.killRuns.engine.startRun target (shownName path)).2) := by
    refine ⟨by rw [hengine]; rfl, htasks, rfl, hserver, hattached, rfl, ?_⟩
    rw [showAll_shown, hengine]
    exact congrArg (· ++ _) hshown
  unfold launch
  cases target with
  | file => exact ⟨_, hbegun, .inl ⟨_, _, _, rfl⟩⟩
  | crate =>
    dsimp only at hbegun ⊢
    split
    next v hv =>
      refine ⟨v, ?_, .inl ⟨_, _, _, rfl⟩⟩
      obtain ⟨files, rfl⟩ := forgetCrate_ok hv
      refine ⟨hbegun.engine, hbegun.tasks, hbegun.world, hbegun.server, hbegun.attached,
        hbegun.queue, ?_⟩
      exact (record_shown ..).trans ((List.append_nil _).trans hbegun.shown)
    next fault _ => exact ⟨_, hbegun, .inr ⟨fault, rfl⟩⟩

/-- The same, however the verifier is called. -/
theorem launch_cases (s : Session) (id : TaskId) (path : Text) (target : VerificationTarget)
    (address : Text) : ∃ u, Begun target (shownName path) s u ∧
      ((∃ invocation, s.launch id path target address =
          u.startVerifier id invocation target (shownName path)) ∨
        ∃ fault, s.launch id path target address = u.endTask id (.failed (.badPath fault))) := by
  obtain ⟨u, hbegun, ⟨_, _, _, he⟩ | hfault⟩ := s.launch_build id path target address
  · exact ⟨u, hbegun, .inl ⟨_, he⟩⟩
  · exact ⟨u, hbegun, .inr hfault⟩

/-- What comes of a launch: the verifier runs, or the run is over at once. -/
inductive Launch (id : TaskId) (target : VerificationTarget) (name : Text) (s : Session) :
    Session → Prop
  | spawned {t : Session} {invocation : Invocation} {pid : Pid} {start : Millis}
      (engine : t.engine =
        (s.engine.startRun target name).1.launched invocation target name pid start)
      (tasks : t.tasks = (s.setStanding id (.awaitingOutput pid 0)).tasks)
      (fresh : s.world.processes.length < pid)
      (length : s.world.processes.length ≤ t.world.processes.length)
      (shown : t.shown = s.shown ++ (s.engine.startRun target name).2) : Launch id target name s t
  | refused {u : Session} (engine : u.engine = (s.engine.startRun target name).1)
      (tasks : u.tasks = s.tasks)
      (length : s.world.processes.length ≤ u.world.processes.length)
      (shown : u.shown = s.shown ++ (s.engine.startRun target name).2) :
      Launch id target name s
        ({ u with engine := (u.engine.conclude u.engine.runCount target name .crash none).1 }.conclude
          id (u.engine.conclude u.engine.runCount target name .crash none).2)
  | aborted {u : Session} {fault : FilePath.Fault}
      (engine : u.engine = (s.engine.startRun target name).1) (tasks : u.tasks = s.tasks)
      (length : s.world.processes.length ≤ u.world.processes.length)
      (shown : u.shown = s.shown ++ (s.engine.startRun target name).2) :
      Launch id target name s (u.endTask id (.failed (.badPath fault)))

theorem Launch.tasks {target : VerificationTarget} {name : Text}
    (h : Launch id target name s t) : ∃ standing,
    t.tasks = (s.setStanding id standing).tasks ∧ (standing.IsEnded ∨ standing.runs?.isSome) := by
  cases h with
  | spawned engine tasks fresh length shown => exact ⟨_, tasks, .inr rfl⟩
  | @refused u engine tasks length shown =>
    obtain ⟨-, -, -, -, -, -, ⟨answer, ht⟩, -⟩ := conclude_same
      { u with engine := (u.engine.conclude u.engine.runCount target name .crash none).1 } id
      (u.engine.conclude u.engine.runCount target name .crash none).2
    exact ⟨_, ht.trans (setStanding_tasks_congr tasks id _), .inl trivial⟩
  | aborted engine tasks length shown =>
    exact ⟨_, setStanding_tasks_congr tasks id _, .inl trivial⟩

theorem length_killRuns (s : Session) :
    s.killRuns.world.processes.length = s.world.processes.length :=
  killRuns_induction (P := fun t => t.world.processes.length = s.world.processes.length) rfl
    fun u pid hu => (World.touches_kill u.world pid).length.trans hu

theorem launch_spec (s : Session) (id : TaskId) (path : Text) (target : VerificationTarget)
    (address : Text) : Launch id target (shownName path) s (s.launch id path target address) := by
  obtain ⟨u, hb, hcases⟩ := s.launch_cases id path target address
  have hlength : u.world.processes.length = s.world.processes.length := by
    rw [hb.world, length_killRuns]
  rcases hcases with ⟨invocation, he⟩ | ⟨fault, he⟩
  · rcases u.startVerifier_cases id invocation target (shownName path) with
      ⟨w, pid, event, hw, hevent, hstart⟩ | ⟨v, hv, htasks, -, hstart⟩
    · obtain ⟨hfresh, hle, -⟩ := World.spawn_ok hw
      rw [he, hstart]
      have hlater : s.world.processes.length < pid := by
        rw [hfresh, hlength]
        exact Nat.lt_succ_self _
      refine .spawned (by rw [← hb.engine]; rfl) (setStanding_tasks_congr hb.tasks id _) hlater
        (Nat.le_trans (Nat.le_of_lt hlater) hle) ?_
      refine Eq.trans ((record_shown ..).trans ?_) hb.shown
      rw [List.filterMap_cons_none hevent]
      exact List.append_nil _
    · rw [he, hstart]
      exact .refused (hv.engine.trans hb.engine) (htasks.trans hb.tasks) (hlength ▸ hv.length)
        (hv.shown.trans hb.shown)
  · rw [he]
    exact .aborted hb.engine hb.tasks (Nat.le_of_eq hlength.symm) hb.shown

end Session

end VerifierHost
