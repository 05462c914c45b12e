import VerifierHost.Proofs.Server.Orders
import VerifierHost.Proofs.Session.Deeds

/-! # Which processes are killed and started

A run kills the verifiers of the runs before it and starts its own, and a server that is started
kills the process that was held. Nothing else that comes of a notice kills or starts a process, and
a process that was taken care of is let go only when it has ended (`Session.react_toll`). -/

namespace VerifierHost.Session

variable {s t u v : Session} {n : Notice} {id : TaskId} {pid : Pid}
  {kills kills' starts starts' : List Pid}

/-- From one session to another certain processes were killed and certain ones started, and no
others are new. -/
structure Handles (kills starts : List Pid) (s t : Session) : Prop where
  ages : World.Ages s.world t.world
  killed : t.killed = s.killed ++ kills
  spawned : t.spawned = s.spawned ++ starts
  fresh : ∀ pid, pid ∈ starts ↔
    s.world.processes.length < pid ∧ pid ≤ t.world.processes.length

namespace Handles

theorem touch {p : Pid} (htouch : World.Touches p s.world t.world) (hkilled : t.killed = s.killed)
    (hspawned : t.spawned = s.spawned) : Handles [] [] s t := by
  refine ⟨htouch.ages, by rw [hkilled, List.append_nil], by rw [hspawned, List.append_nil],
    fun q => ⟨nofun, fun hq => ?_⟩⟩
  rw [htouch.length] at hq
  exact absurd hq.2 (Nat.not_le_of_lt hq.1)

theorem of_same (hworld : t.world = s.world) (hevents : t.events = s.events) :
    Handles [] [] s t :=
  touch (p := 0) (hworld ▸ .refl 0 s.world) (congrArg (List.filterMap Event.killed?) hevents)
    (congrArg (List.filterMap Event.spawned?) hevents)

theorem refl (s : Session) : Handles [] [] s s := of_same rfl rfl

theorem trans (h : Handles kills starts s t) (h' : Handles kills' starts' t u) :
    Handles (kills ++ kills') (starts ++ starts') s u := by
  refine ⟨h.ages.trans h'.ages, ?_, ?_, fun pid => ?_⟩
  · rw [h'.killed, h.killed, List.append_assoc]
  · rw [h'.spawned, h.spawned, List.append_assoc]
  · rw [List.mem_append, h.fresh, h'.fresh]
    constructor
    · rintro (⟨hlt, hle⟩ | ⟨hlt, hle⟩)
      · exact ⟨hlt, Nat.le_trans hle h'.ages.length⟩
      · exact ⟨Nat.lt_of_le_of_lt h.ages.length hlt, hle⟩
    · rintro ⟨hlt, hle⟩
      exact (Nat.lt_or_ge t.world.processes.length pid).symm.imp (⟨hlt, ·⟩) (⟨·, hle⟩)

/-- What comes after nothing was killed or started. -/
theorem after (h : Handles [] [] s t) (h' : Handles kills starts t u) : Handles kills starts s u :=
  h.trans h'

/-- Nothing is killed or started any more. -/
theorem before (h : Handles kills starts s t) (h' : Handles [] [] t u) :
    Handles kills starts s u := by
  have hall := h.trans h'
  rwa [List.append_nil, List.append_nil] at hall

/-- Who has the same processes and has seen the same may stand in at the start. -/
theorem of_start (h : Handles kills starts t u) (hworld : t.world = s.world)
    (hevents : t.events = s.events) : Handles kills starts s u :=
  (of_same hworld hevents).after h

theorem record (s : Session) {events : List Event}
    (h : ∀ e ∈ events, e.killed? = none ∧ e.spawned? = none) :
    Handles [] [] s (s.record events) := by
  refine touch (p := 0) (.refl 0 s.world) ?_ ?_
  · refine (List.filterMap_append ..).trans ?_
    rw [List.filterMap_eq_nil_iff.mpr fun e he => (h e he).1, List.append_nil]
    rfl
  · refine (List.filterMap_append ..).trans ?_
    rw [List.filterMap_eq_nil_iff.mpr fun e he => (h e he).2, List.append_nil]
    rfl

theorem showAll (s : Session) (effects : List Effect) : Handles [] [] s (s.showAll effects) := by
  refine record s fun e he => ?_
  obtain ⟨effect, -, rfl⟩ := List.mem_map.mp he
  exact ⟨rfl, rfl⟩

theorem refreshHints (s : Session) : Handles [] [] s s.refreshHints := by
  obtain ⟨instantiations, effects, he, -⟩ := s.refreshHints_eq
  rw [he]
  exact of_start (showAll _ effects) rfl rfl

theorem forgetCrate {path : Text} (h : s.forgetCrate path = .ok t) : Handles [] [] s t := by
  obtain ⟨files, rfl⟩ := forgetCrate_ok h
  refine of_start (record { s with files } fun e he => ?_) rfl rfl
  rw [List.mem_singleton.mp he]
  exact ⟨rfl, rfl⟩

theorem kill (s : Session) (pid : Pid) : Handles [pid] [] s (s.kill pid) := by
  have htouch := World.touches_kill s.world pid
  refine ⟨htouch.ages, List.filterMap_append .., List.filterMap_append .., fun q =>
    ⟨nofun, fun hq => ?_⟩⟩
  exact absurd (Nat.le_trans hq.2 (Nat.le_of_eq htouch.length)) (Nat.not_le_of_lt hq.1)

theorem killRuns (s : Session) : Handles s.engine.pids [] s s.killRuns := by
  have hfold : ∀ (pids : List Pid) (u : Session), Handles pids [] u (pids.foldl Session.kill u) := by
    intro pids
    induction pids with
    | nil => exact fun u => refl u
    | cons pid rest ih => exact fun u => (kill u pid).trans (ih _)
  exact hfold s.engine.pids s

theorem spawn_ok {call : Call} (h : s.spawn call = (t, .ok pid)) : Handles [] [pid] s t := by
  unfold Session.spawn at h
  split at h
  next w q hw =>
    cases h
    obtain ⟨hnext, -⟩ := World.spawn_ok hw
    have hgrows := World.grows_spawn s.world
    rw [hw] at hgrows
    refine ⟨hgrows.ages, List.filterMap_append .., List.filterMap_append .., fun p => ?_⟩
    show p ∈ [pid] ↔ s.world.processes.length < p ∧ p ≤ w.processes.length
    rw [World.length_spawn hw, List.mem_singleton, hnext]
    refine ⟨?_, fun hp => Nat.le_antisymm hp.2 hp.1⟩
    rintro rfl
    exact ⟨Nat.lt_succ_self _, Nat.le_refl _⟩
  next => cases h

theorem spawn_error {call : Call} {fault : Fault} (h : s.spawn call = (t, .error fault)) :
    Handles [] [] s t := by
  unfold Session.spawn at h
  split at h
  next => cases h
  next w f hw =>
    cases h
    have hgrows := World.grows_spawn s.world
    rw [hw] at hgrows
    refine ⟨hgrows.ages, List.filterMap_append .., List.filterMap_append .., fun p =>
      ⟨nofun, fun hp => ?_⟩⟩
    exact absurd (Nat.le_trans hp.2 (Nat.le_of_eq (World.length_spawn_error hw)))
      (Nat.not_le_of_lt hp.1)

theorem conclude (s : Session) (id : TaskId) (c : Conclusion) :
    Handles [] [] s (s.conclude id c) := by
  have hshown := showAll s c.effects
  obtain ⟨u, answer, hu, hcases⟩ :=
    ((s.showAll c.effects).noticeNews c.released).answerRun_eq id c.ending
  have hconclude : s.conclude id c = u.endTask id answer := hu
  rw [hconclude]
  rcases hcases with rfl | rfl
  · exact hshown.before (of_same rfl rfl)
  · have hrefresh := refreshHints ((s.showAll c.effects).noticeNews c.released)
    exact (hshown.before (of_start hrefresh rfl rfl)).before (of_same rfl rfl)

/-- The verifier that is started is the last of those that run. -/
theorem startVerifier (s : Session) (id : TaskId) (invocation : Invocation)
    (target : VerificationTarget) (name : Text) : ∃ starts,
    Handles [] starts s (s.startVerifier id invocation target name) ∧
      (s.startVerifier id invocation target name).engine.pids = s.engine.pids ++ starts ∧
      (s.startVerifier id invocation target name).server = s.server := by
  unfold Session.startVerifier
  dsimp only
  split
  next t pid ht =>
    obtain ⟨_, -, hspawn⟩ := s.spawn_eq invocation.call
    have hengine : t.engine = s.engine := congrArg (·.1.engine) (ht.symm.trans hspawn)
    have hserver : t.server = s.server := congrArg (·.1.server) (ht.symm.trans hspawn)
    refine ⟨[pid], (spawn_ok ht).before (of_same rfl rfl), ?_, hserver⟩
    show (t.engine.launched invocation target name pid s.world.clock).runs.map ActiveRun.pid = _
    obtain ⟨r, hruns, -, hpid, -⟩ :=
      t.engine.launched_runs invocation target name pid s.world.clock
    rw [hruns, List.map_append, List.map_singleton, hpid, hengine]
    rfl
  next t fault ht =>
    obtain ⟨_, -, hspawn⟩ := s.spawn_eq invocation.call
    have hengine : t.engine = s.engine := congrArg (·.1.engine) (ht.symm.trans hspawn)
    obtain ⟨updates, hupdates, -⟩ :=
      t.engine.conclude_spec t.engine.runCount target name .crash none
    have hserver : t.server = s.server := congrArg (·.1.server) (ht.symm.trans hspawn)
    obtain ⟨-, hsame, -, hruns, -⟩ := conclude_same
      { t with engine := (t.engine.conclude t.engine.runCount target name .crash none).1 } id
      (t.engine.conclude t.engine.runCount target name .crash none).2
    refine ⟨[], (spawn_error ht).before (of_start (conclude _ id _) rfl rfl), ?_,
      hsame.trans hserver⟩
    rw [List.append_nil, Engine.pids, hruns, hupdates, hengine]
    rfl

/-- A launch kills all verifiers that run, and starts one more at most. -/
theorem launch (s : Session) (id : TaskId) (path : Text) (target : VerificationTarget)
    (address : Text) : ∃ starts,
    Handles s.engine.pids starts s (s.launch id path target address) ∧
      (s.launch id path target address).engine.pids = s.engine.pids ++ starts ∧
      (s.launch id path target address).server = s.server := by
  obtain ⟨hengine, -, hserver, -⟩ := s.killRuns_same
  have hbegun : ∀ (engine : Engine) (effects : List Effect),
      Handles s.engine.pids [] s ({ s.killRuns with engine }.showAll effects) := fun engine effects =>
    (killRuns s).before (of_start (showAll { s.killRuns with engine } effects) rfl rfl)
  have hpids : ∀ {u : Session}, u.engine = (s.killRuns.engine.startRun target (shownName path)).1 →
      u.engine.pids = s.engine.pids := fun hu => by
    rw [hu, hengine]
    rfl
  have hstart : ∀ {u : Session} (invocation : Invocation), Handles s.engine.pids [] s u →
      u.engine = (s.killRuns.engine.startRun target (shownName path)).1 →
      u.server = s.killRuns.server → ∃ starts,
      Handles s.engine.pids starts s (u.startVerifier id invocation target (shownName path)) ∧
        (u.startVerifier id invocation target (shownName path)).engine.pids =
          s.engine.pids ++ starts ∧
        (u.startVerifier id invocation target (shownName path)).server = s.server := by
    intro u invocation hu hsame hsupervised
    obtain ⟨starts, hstarts, hruns, hleft⟩ :=
      startVerifier u id invocation target (shownName path)
    have hall := hu.trans hstarts
    rw [List.append_nil] at hall
    exact ⟨starts, hall, by rw [hruns, hpids hsame], hleft.trans (hsupervised.trans hserver)⟩
  unfold Session.launch
  cases target with
  | file => exact hstart _ (hbegun ..) rfl rfl
  | crate =>
    dsimp only
    split
    next v hv =>
      obtain ⟨files, rfl⟩ := forgetCrate_ok hv
      exact hstart _ ((hbegun ..).before (forgetCrate hv)) rfl rfl
    next =>
      refine ⟨[], (hbegun ..).before (of_same rfl rfl), ?_, hserver⟩
      rw [List.append_nil]
      exact hpids rfl

/-- A stop kills the process that is held, if it is live. -/
theorem stopSupervised (s : Session) :
    Handles s.server.supervisor.doomed.toList [] s s.stopSupervised.1 := by
  unfold Session.stopSupervised
  cases hd : s.server.supervisor.doomed with
  | none =>
    dsimp only
    split
    next => exact of_same rfl rfl
    next => exact refl s
  | some pid =>
    have habandon : Handles [] [] s { s with world := s.world.abandon pid } :=
      touch (World.touches_abandon s.world pid) rfl rfl
    have hkill := habandon.after (kill { s with world := s.world.abandon pid } pid)
    dsimp only
    split
    next => exact hkill.before (of_same rfl rfl)
    next => exact hkill

theorem readServer (s : Session) (r : StreamReader) : Handles [] [] s (s.readServer r) := by
  obtain ⟨hworld, -⟩ := s.readServer_same r
  obtain ⟨-, hkilled, hspawned⟩ := s.readServer_seen r
  exact touch (by rw [hworld]; exact World.touches_collect ..) hkilled hspawned

theorem readVerifier (s : Session) (r : ActiveRun) (stream : Stream) :
    Handles [] [] s (s.readVerifier r stream) := by
  unfold Session.readVerifier
  split
  next => exact refl s
  next =>
    dsimp only
    have hread : ∀ (engine : Engine) (effects : List Effect),
        Handles [] [] s ({ s with world := (s.world.collect r.pid stream).1, engine }.showAll
          effects) := by
      intro engine effects
      have htouch : Handles [] [] s { s with world := (s.world.collect r.pid stream).1, engine } :=
        touch (World.touches_collect ..) rfl rfl
      exact htouch.after (showAll _ effects)
    split
    next => exact (hread _ _).before (of_same rfl rfl)
    next => exact hread _ _

end Handles

/-- A stop succeeds, and nothing is held any more. -/
theorem stopSupervised_ok (hg : s.server.supervisor.Guarded) : ∃ t,
    s.stopSupervised = (t, .ok ()) ∧ Handles s.server.supervisor.held.toList [] s t ∧
      t.server.supervisor.Guarded ∧ t.server.supervisor.state = .stopped ∧
      t.server.supervisor.held = none := by
  obtain ⟨supervisor, ended, he, hguarded, hstate, hheld⟩ := hg.stop
  have hstop := Handles.stopSupervised s
  have hresult : ∃ t, s.stopSupervised = (t, .ok ()) ∧ t.server.supervisor = supervisor := by
    unfold stopSupervised
    cases s.server.supervisor.doomed with
    | none =>
      dsimp only
      rw [he]
      exact ⟨_, rfl, rfl⟩
    | some pid =>
      have hserver : ({ s with world := s.world.abandon pid }.kill pid).server = s.server := rfl
      dsimp only
      rw [hserver, he]
      exact ⟨_, rfl, rfl⟩
  obtain ⟨t, ht, hsupervisor⟩ := hresult
  rw [ht, hg.doomed_eq] at hstop
  exact ⟨t, ht, hstop, hsupervisor ▸ hguarded, hsupervisor ▸ hstate, hsupervisor ▸ hheld⟩

/-- A start kills what is held, and what it starts is held. -/
theorem Handles.superviseCall (hg : s.server.supervisor.Guarded) (call : Call)
    (stdout stderr : LineUse) :
    Handles s.server.supervisor.held.toList
        (s.superviseCall call stdout stderr).1.server.supervisor.held.toList s
        (s.superviseCall call stdout stderr).1 ∧
      (s.superviseCall call stdout stderr).1.server.supervisor.Guarded := by
  have hstopped : ∃ u, (if s.server.supervisor.state.isLive then s.stopSupervised
      else (s, .ok ())) = (u, .ok ()) ∧ Handles s.server.supervisor.held.toList [] s u ∧
      u.server.supervisor.Guarded ∧ u.server.supervisor.held = none := by
    cases hlive : s.server.supervisor.state.isLive with
    | true =>
      obtain ⟨u, he, hu, hguarded, -, hnone⟩ := stopSupervised_ok hg
      exact ⟨u, he, hu, hguarded, hnone⟩
    | false =>
      have hnone := hg.held_eq_none hlive
      refine ⟨s, rfl, ?_, hg, hnone⟩
      rw [hnone]
      exact .refl s
  obtain ⟨u, he, hu, hguarded, hnone⟩ := hstopped
  unfold Session.superviseCall
  rw [he]
  dsimp only
  split
  next v fault hv =>
    have hserver := Aside.spawn_server u call
    rw [hv] at hserver
    dsimp only at hserver ⊢
    rw [hserver, hnone]
    exact ⟨hu.before (.spawn_error hv), hguarded⟩
  next v pid hv =>
    have hserver := Aside.spawn_server u call
    rw [hv] at hserver
    obtain ⟨supervisor, ended, hadopt, hkept, -, hheld⟩ := hguarded.adopt pid stdout stderr
    dsimp only at hserver ⊢
    rw [hserver, hadopt]
    refine ⟨?_, hkept⟩
    show Handles _ supervisor.held.toList s _
    have hall := hu.trans (Handles.spawn_ok hv)
    rw [List.append_nil] at hall
    rw [hheld]
    exact hall.before (.of_same rfl rfl)

/-! ## What a notice leads to -/

/-- To wait for the server is nothing to processes. -/
theorem awaitPhase_same (s : Session) (id : TaskId) : (s.awaitPhase id).world = s.world ∧
    (s.awaitPhase id).events = s.events ∧
    Supervisor.Same s.server.supervisor (s.awaitPhase id).server.supervisor := by
  unfold awaitPhase
  split
  next => exact ⟨rfl, rfl, .refl _⟩
  next => exact ⟨rfl, rfl, .refl _⟩
  all_goals
    exact ⟨rfl, rfl, (Supervisor.same_waitFor ..).trans (Supervisor.same_waitFor ..)⟩

/-- From one session to another no process was killed or started, and every process that ran a
verifier or was held still does, unless it has ended. -/
structure Sustains (s t : Session) : Prop where
  handles : Handles [] [] s t
  count : t.engine.runCount = s.engine.runCount
  pids : t.engine.pids.Sublist s.engine.pids
  runs : ∀ pid ∈ s.engine.pids, pid ∈ t.engine.pids ∨ s.world.HasEnded pid
  held : t.server.supervisor.held = s.server.supervisor.held ∨
    t.server.supervisor.held = none ∧
      ∀ pid, s.server.supervisor.held = some pid → s.world.HasEnded pid
  guarded : s.server.supervisor.Guarded → t.server.supervisor.Guarded
  still : s.server.supervisor.Guarded → s.server.supervisor.held = none →
    t.server.supervisor.state = s.server.supervisor.state

namespace Sustains

theorem of_engine (h : Handles [] [] s t) (hcount : t.engine.runCount = s.engine.runCount)
    (hpids : t.engine.pids = s.engine.pids)
    (hserver : Supervisor.Same s.server.supervisor t.server.supervisor) : Sustains s t :=
  ⟨h, hcount, hpids ▸ List.Sublist.refl _, fun _ hp => .inl (hpids ▸ hp), .inl hserver.held,
    fun hg => hg.same hserver, fun _ _ => hserver.state⟩

theorem of_same (hworld : t.world = s.world) (hevents : t.events = s.events)
    (hengine : t.engine = s.engine)
    (hserver : Supervisor.Same s.server.supervisor t.server.supervisor) : Sustains s t :=
  of_engine (.of_same hworld hevents) (by rw [hengine]) (by rw [hengine]) hserver

theorem refl (s : Session) : Sustains s s := of_same rfl rfl rfl (.refl _)

/-- Only a task moves on. -/
theorem endTask (s : Session) (id : TaskId) (answer : Answer) :
    Sustains s (s.endTask id answer) := of_same rfl rfl rfl (.refl _)

theorem answerNews (s : Session) (id : TaskId) : Sustains s (s.answerNews id) := by
  obtain ⟨findings, answer, he⟩ := s.answerNews_eq id
  rw [he]
  exact of_engine (.of_same rfl rfl) rfl rfl (.refl _)

theorem readServer (s : Session) (r : StreamReader) : Sustains s (s.readServer r) := by
  obtain ⟨-, hserver, -⟩ := s.readServer_same r
  obtain ⟨hengine, -⟩ := s.readServer_seen r
  refine ⟨.readServer s r, by rw [hengine], by rw [hengine], fun _ hp => .inl (by rwa [hengine]),
    .inl ?_, fun hg => ?_, fun hg hnone => ?_⟩
  · rw [hserver]
    exact (SharedServer.takeLines_supervisor ..).1
  · have hread := (SharedServer.takeLines_guarded hg r.lineUse (r.read
      (s.world.collect r.pid r.stream).2.1 (s.world.collect r.pid r.stream).2.2).2.1).guarded hg
    rw [hserver]
    exact ⟨hread.states, hread.guard⟩
  · have hread := (SharedServer.takeLines_guarded hg r.lineUse (r.read
      (s.world.collect r.pid r.stream).2.1 (s.world.collect r.pid r.stream).2.2).2.1).state
    rw [hserver]
    refine hread.resolve_right fun hlive => ?_
    rw [← hg.guard, hnone] at hlive
    cases hlive.1

theorem readVerifier (s : Session) (r : ActiveRun) (stream : Stream) :
    Sustains s (s.readVerifier r stream) := by
  have hengine : (s.readVerifier r stream).engine.runCount = s.engine.runCount ∧
      (s.readVerifier r stream).engine.pids = s.engine.pids ∧
      (s.readVerifier r stream).server = s.server := by
    unfold Session.readVerifier
    split
    next => exact ⟨rfl, rfl, rfl⟩
    next =>
      dsimp only
      obtain ⟨board, hboard⟩ := s.engine.takeOutput_spec r stream
        (s.world.collect r.pid stream).2.1 (s.world.collect r.pid stream).2.2
      rw [hboard]
      have hpids := s.engine.pids_putRun (r.read stream (s.world.collect r.pid stream).2.1
        (s.world.collect r.pid stream).2.2).1
      split
      next => exact ⟨rfl, hpids, rfl⟩
      next => exact ⟨rfl, hpids, rfl⟩
  obtain ⟨hcount, hpids, hserver⟩ := hengine
  exact of_engine (.readVerifier s r stream) hcount hpids (hserver ▸ .refl _)

theorem streamEnded (s : Session) (pid : Pid) : Sustains s (s.streamEnded pid) := by
  unfold Session.streamEnded
  split
  next => exact refl s
  next =>
    split
    · exact of_same rfl rfl rfl (.refl _)
    · exact of_same rfl rfl rfl (.refl _)
    · exact refl s

/-- A run ends when its process has. -/
theorem finishRun (s : Session) (id : TaskId) {r : ActiveRun} (hended : s.world.HasEnded r.pid)
    (code : ExitCode) : Sustains s (s.finishRun id r code) := by
  obtain ⟨hworld, hruns, hcount, -⟩ := s.finishRun_same id r code
  have hconclude := Handles.conclude
    { s with engine := (s.engine.finish r code s.world.clock).1 } id
    (s.engine.finish r code s.world.clock).2
  obtain ⟨-, hserver, -⟩ := conclude_same
    { s with engine := (s.engine.finish r code s.world.clock).1 } id
    (s.engine.finish r code s.world.clock).2
  have hpids : (s.finishRun id r code).engine.pids = (s.engine.dropRun r.pid).pids := by
    rw [Engine.pids, hruns]
    rfl
  refine ⟨.of_start hconclude rfl rfl, hcount, ?_, fun pid hp => ?_,
    .inl (congrArg (·.supervisor.held) hserver), fun hg => ?_,
    fun _ _ => congrArg (·.supervisor.state) hserver⟩
  · rw [hpids]
    exact (List.filter_sublist ..).map _
  · by_cases he : pid = r.pid
    · exact .inr (he ▸ hended)
    · refine .inl ?_
      obtain ⟨q, hq, rfl⟩ := List.mem_map.mp hp
      rw [hpids]
      exact List.mem_map_of_mem (List.mem_filter.mpr ⟨hq, by simpa using he⟩)
  · exact Eq.symm (congrArg SharedServer.supervisor hserver) ▸ hg

theorem awaitExit (s : Session) (pid : Pid) : Sustains s (s.awaitExit pid) := by
  have htouch := World.touches_awaitExit s.world pid
  unfold Session.awaitExit
  split
  next w code r id hw hrun _ =>
    obtain ⟨-, rfl⟩ := mem_runs_of_run? hrun
    exact finishRun s _ (World.hasEnded_of_awaitExit hw) _
  next w r id hw _ _ =>
    rw [hw] at htouch
    exact of_engine (.touch htouch rfl rfl) rfl rfl (.refl _)
  next w code hw _ =>
    split
    next supervisor ended he =>
      refine ⟨.of_same rfl rfl, rfl, List.Sublist.refl _, fun _ => .inl, ?_, fun hg => ?_,
        fun _ hnone => ?_⟩
      · unfold Supervisor.processEnded at he
        split at he
        next hheld =>
          refine .inr ⟨(Supervisor.mark_ok he).1, fun q hq => ?_⟩
          cases hheld.symm.trans hq
          exact World.hasEnded_of_awaitExit hw
        next =>
          cases he
          exact .inl rfl
      · obtain ⟨supervisor', ended', he', hg', -⟩ := hg.processEnded pid
        cases he.symm.trans he'
        exact hg'
      · unfold Supervisor.processEnded at he
        rw [hnone, if_neg nofun] at he
        cases he
        rfl
    next => exact refl s
  next w hw _ =>
    rw [hw] at htouch
    exact of_engine (.touch htouch rfl rfl) rfl rfl (.refl _)

theorem read (s : Session) (pid : Pid) (stream : Stream) : Sustains s (s.read pid stream) := by
  unfold Session.read
  split
  next r _ => exact readVerifier s r stream
  next r _ _ => exact readServer s r
  next => exact refl s

theorem concludeNews (s : Session) (id : TaskId) (wait : WaitId) :
    Sustains s (s.concludeNews id wait) := by
  unfold Session.concludeNews
  split
  next => exact answerNews s id
  next => exact endTask s id _

theorem concludePhase (s : Session) (id : TaskId) (ready crashed : WaitId) :
    Sustains s (s.concludePhase id ready crashed) := by
  have hgive : Supervisor.Same s.server.supervisor
      ((s.server.supervisor.cancelWait ready).cancelWait crashed) :=
    (Supervisor.same_cancelWait ..).trans (Supervisor.same_cancelWait ..)
  unfold Session.concludePhase
  dsimp only
  split <;> exact of_same rfl rfl rfl hgive

theorem phaseEnded (s : Session) (id : TaskId) : Sustains s (s.phaseEnded id) := by
  unfold Session.phaseEnded
  split
  next => exact of_same rfl rfl rfl (.refl _)
  next => exact refl s

theorem startupEnded (s : Session) (id : TaskId) : Sustains s (s.startupEnded id) := by
  unfold Session.startupEnded
  split
  next =>
    split
    next => exact of_same rfl rfl rfl (.refl _)
    next => exact refl s
  next => exact refl s

end Sustains

/-- What a notice does to processes: they are left alone, one may be started to be held in place of
the one before, or those that run are killed and another one may run. -/
inductive Toll (s t : Session) : Prop
  | sustains (sustains : Sustains s t)
  | manages (handles : Handles s.server.supervisor.held.toList t.server.supervisor.held.toList s t)
      (engine : t.engine = s.engine) (guarded : t.server.supervisor.Guarded)
  | launches {starts : List Pid} (handles : Handles s.engine.pids starts s t)
      (count : t.engine.runCount = s.engine.runCount + 1)
      (pids : t.engine.pids = s.engine.pids ++ starts) (server : t.server = s.server)

namespace Toll

theorem of_queue {queue : List Notice} (h : Toll { s with queue } t) : Toll s t := by
  have hhandles : ∀ {kills starts}, Handles kills starts { s with queue } t →
      Handles kills starts s t := fun h => ⟨h.ages, h.killed, h.spawned, h.fresh⟩
  cases h with
  | sustains h =>
    exact .sustains ⟨hhandles h.handles, h.count, h.pids, h.runs, h.held, h.guarded, h.still⟩
  | manages handles engine guarded => exact .manages (hhandles handles) engine guarded
  | launches handles count pids server => exact .launches (hhandles handles) count pids server

/-- A task only moves on. -/
theorem endTask (s : Session) (id : TaskId) (answer : Answer) : Toll s (s.endTask id answer) :=
  .sustains (.endTask s id answer)

theorem launch (s : Session) (id : TaskId) (path : Text) (target : VerificationTarget)
    (address : Text) : Toll s (s.launch id path target address) := by
  obtain ⟨starts, handles, pids, server⟩ := Handles.launch s id path target address
  exact .launches handles (launch_spec ..).runCount pids server

theorem useServer (s : Session) (id : TaskId) (answer : Answer) :
    Toll s (s.useServer id answer) := by
  unfold Session.useServer
  split
  next => exact launch s id _ _ _
  next =>
    split
    next => exact endTask s id _
    next => exact endTask s id _
  next => exact endTask s id _

theorem requireServer (s : Session) (id : TaskId) : Toll s (s.requireServer id) := by
  unfold Session.requireServer
  split
  next => exact useServer s id _
  next =>
    have hjoin : s.joinStartup.1.world = s.world ∧ s.joinStartup.1.events = s.events ∧
        s.joinStartup.1.engine = s.engine ∧ s.joinStartup.1.server = s.server := by
      unfold joinStartup
      split
      next => split <;> exact ⟨rfl, rfl, rfl, rfl⟩
      next => exact ⟨rfl, rfl, rfl, rfl⟩
    obtain ⟨hworld, hevents, hengine, hserver⟩ := hjoin
    refine .sustains (.of_same hworld hevents hengine ?_)
    show Supervisor.Same _ s.joinStartup.1.server.supervisor
    rw [hserver]
    exact .refl _

/-- A task starts a process to supervise, and does no more than wait or end after that. -/
theorem of_start {call : Call} {stdout stderr : LineUse} {outcome : Except Failure Unit}
    (hg : s.server.supervisor.Guarded) (hu : u = s ∨ u = s.unannounced)
    (hstart : u.superviseCall call stdout stderr = (v, outcome)) (hworld : t.world = v.world)
    (hevents : t.events = v.events) (hengine : t.engine = v.engine)
    (hserver : Supervisor.Same v.server.supervisor t.server.supervisor) : Toll s t := by
  have hsame : u.server.supervisor = s.server.supervisor ∧ u.engine = s.engine ∧
      u.world = s.world ∧ u.events = s.events := by
    rcases hu with rfl | rfl
    · exact ⟨rfl, rfl, rfl, rfl⟩
    · exact ⟨rfl, rfl, rfl, rfl⟩
  obtain ⟨hsupervisor, hruns, hplaces, hseen⟩ := hsame
  have haside := (Aside.superviseCall u call stdout stderr).engine
  obtain ⟨hhandles, hguarded⟩ := Handles.superviseCall (hsupervisor ▸ hg) call stdout stderr
  rw [hstart] at haside hhandles hguarded
  rw [hsupervisor] at hhandles
  refine .manages ?_ (hengine.trans (haside.trans hruns)) (hguarded.same hserver)
  rw [hserver.held]
  exact (hhandles.before (.of_same hworld hevents)).of_start hplaces hseen

theorem endStart {call : Call} {stdout stderr : LineUse} (hg : s.server.supervisor.Guarded)
    (id : TaskId) (hu : u = s ∨ u = s.unannounced) :
    Toll s (Session.endStart id (u.superviseCall call stdout stderr)) := by
  rcases hresult : u.superviseCall call stdout stderr with ⟨v, why | _⟩
  · exact of_start hg hu hresult rfl rfl rfl (.refl _)
  · exact of_start hg hu hresult rfl rfl rfl (.refl _)

theorem begin (hg : s.server.supervisor.Guarded) (id : TaskId) : Toll s (s.begin id) := by
  have hnews : ∀ file, Toll s (s.awaitNews id file) := fun file =>
    .sustains (.of_engine (.of_same rfl rfl) rfl rfl (.refl _))
  have hanswer : Toll s (s.answerNews id) := .sustains (.answerNews s id)
  unfold Session.begin
  split
  next request hk =>
    split
    next => exact endTask s id _
    next =>
      split
      next =>
        split
        next =>
          split
          · exact requireServer s id
          · exact launch s id _ _ _
        next => exact requireServer s id
      next => exact endTask s id _
    next => exact launch s id _ _ _
    next =>
      split
      next => exact hnews _
      next => exact hanswer
    next =>
      split
      next => exact hnews _
      next => exact hanswer
    next => exact requireServer s id
    next =>
      obtain ⟨hworld, hevents, hserver⟩ := s.awaitPhase_same id
      exact .sustains (.of_same hworld hevents (engine_awaitPhase s id) hserver)
    next => exact endStart hg id (.inr rfl)
    next => exact endStart hg id (.inl rfl)
    next =>
      split
      next u hu =>
        obtain ⟨hworld, hevents, hserver⟩ := u.awaitPhase_same id
        exact of_start (u := s.unannounced) hg (.inr rfl) hu hworld hevents
          (engine_awaitPhase u id) hserver
      next u why hu =>
        exact of_start (u := s.unannounced) hg (.inr rfl) hu rfl rfl rfl (.refl _)
    next => exact hnews _
  next => exact .sustains (.refl s)

theorem resume (s : Session) (id : TaskId) : Toll s (s.resume id) := by
  unfold Session.resume
  split
  next => exact .sustains (.concludeNews s id _)
  next => exact .sustains (.concludePhase s id _ _)
  next => exact useServer s id _
  next => exact .sustains (.refl s)

end Toll

/-- **What a notice does to processes.** -/
theorem react_toll (hg : s.server.supervisor.Guarded) (n : Notice) : Toll s (s.react n) := by
  cases n with
  | begin id => exact .begin hg id
  | wake wake =>
    cases wake with
    | output pid stream => exact .sustains (.read s pid stream)
    | exit pid => exact .sustains (.awaitExit s pid)
  | streamEnded pid => exact .sustains (.streamEnded s pid)
  | outputEnded pid => exact .sustains (.awaitExit s pid)
  | phaseEnded id => exact .sustains (.phaseEnded s id)
  | startupEnded id => exact .sustains (.startupEnded s id)
  | resume id => exact .resume s id

/-- **What an action does to processes.** -/
theorem act_toll (hg : s.server.supervisor.Guarded) (a : Action) : Toll s (s.act a) := by
  cases a with
  | ask request => exact .sustains (.of_same rfl rfl rfl (.refl _))
  | feed pid stream chunk =>
    exact .sustains (.of_engine (.touch (World.touches_feed ..) rfl rfl) rfl rfl (.refl _))
  | exit pid code time =>
    exact .sustains (.of_engine (.touch (World.touches_exit ..) rfl rfl) rfl rfl (.refl _))
  | step =>
    show Toll s s.step
    cases hq : s.queue with
    | nil =>
      rw [step_nil hq]
      exact .sustains (.refl s)
    | cons n rest =>
      rw [step_cons hq]
      exact (react_toll (s := { s with queue := rest }) hg n).of_queue

namespace Toll

theorem guarded (h : Toll s t) (hg : s.server.supervisor.Guarded) :
    t.server.supervisor.Guarded := by
  cases h with
  | sustains h => exact h.guarded hg
  | manages _ _ guarded => exact guarded
  | launches _ _ _ server => exact server ▸ hg

theorem ages (h : Toll s t) : World.Ages s.world t.world := by
  cases h with
  | sustains h => exact h.handles.ages
  | manages handles => exact handles.ages
  | launches handles => exact handles.ages

end Toll

theorem Fresh.guarded_after (h : s.Fresh) (actions : List Action) :
    (s.after actions).server.supervisor.Guarded := by
  refine after_induction (P := fun s => s.server.supervisor.Guarded) ?_
    (fun _ a hg => (act_toll hg a).guarded hg) actions
  obtain ⟨_, _, _, _, _, _, _, _, _, rfl⟩ := h
  exact .idle _

end VerifierHost.Session
