import VerifierHost.Proofs.Server.Attending

/-! # What is done to a supervised process

Somebody who has only the supervisor starts, stops and disposes of processes, while these write and
end. What one order leaves of the process that is held is one of six things (`Turn`). None of them
needs the readers to be gone in time, so nothing is asked of when processes write and end. -/

namespace VerifierHost

namespace World

/-- From one world to another processes may have been started or have ended; none came back. -/
structure Ages (w w' : World) : Prop where
  sane : w.Sane → w'.Sane
  length : w.processes.length ≤ w'.processes.length
  ended : w.Sane → ∀ pid, w.HasEnded pid → w'.HasEnded pid

variable {w w' w'' : World} {pid : Pid}

theorem Ages.refl (w : World) : Ages w w := ⟨id, Nat.le_refl _, fun _ _ => id⟩

theorem Ages.trans (h : Ages w w') (h' : Ages w' w'') : Ages w w'' :=
  ⟨h'.sane ∘ h.sane, Nat.le_trans h.length h'.length,
    fun hw pid he => h'.ended (h.sane hw) pid (h.ended hw pid he)⟩

theorem Touches.ages (h : Touches pid w w') : Ages w w' :=
  ⟨h.sane, Nat.le_of_eq h.length.symm, fun _ => h.ended⟩

theorem not_hasEnded_of_awaitExit (h : (w.awaitExit pid).2 = none) : ¬ w.HasEnded pid := by
  intro ⟨p, code, hp, hexit⟩
  rw [awaitExit, hp] at h
  dsimp only at h
  rw [hexit] at h
  cases h

theorem Grows.ages (h : Grows w w') : Ages w w' := by
  refine ⟨h.sane, h.length, fun hw pid he => ?_⟩
  obtain ⟨p, code, hp, hexit⟩ := he
  exact ⟨p, code, (h.others pid (hw.le_of_process? hp)).trans hp, hexit⟩

end World

namespace Supervisor

variable {s t u : Supervisor} {pid : Pid}

/-- From one supervisor to another the same process is held; it may have become ready. -/
structure Readies (s t : Supervisor) : Prop where
  guarded : s.Guarded → t.Guarded
  held : t.held = s.held
  state : t.state = s.state ∨ s.state.isLive = true ∧ t.state = .ready

theorem Readies.refl (s : Supervisor) : Readies s s := ⟨id, rfl, .inl rfl⟩

theorem Readies.trans (h : Readies s t) (h' : Readies t u) : Readies s u := by
  refine ⟨h'.guarded ∘ h.guarded, h'.held.trans h.held, ?_⟩
  rcases h.state with he | ⟨hlive, he⟩
  · rw [← he]
    exact h'.state
  · exact .inr ⟨hlive, h'.state.elim (·.trans he) And.right⟩

theorem Same.readies (h : Same s t) : Readies s t :=
  ⟨fun hs => hs.same h, h.held, .inl h.state⟩

namespace Guarded

/-- A supervisor is always stopped, whatever it holds. -/
theorem stop (h : s.Guarded) : ∃ t ended, s.stop = .ok (t, ended) ∧ t.Guarded ∧
    t.state = .stopped ∧ t.held = none := by
  obtain ⟨phases, ended, -, he, hcurrent, hstates⟩ := h.stop_eq
  refine ⟨_, ended, he, ⟨hstates, ?_⟩, hcurrent, rfl⟩
  show false = phases.current.isLive
  rw [hcurrent]
  rfl

theorem adopt (h : s.Guarded) (pid : Pid) (stdout stderr : LineUse) : ∃ t ended,
    s.adopt pid stdout stderr = .ok (t, ended) ∧ t.Guarded ∧ t.state = .running ∧
      t.held = some pid := by
  obtain ⟨phases, ended, -, he, hcurrent, hstates⟩ := h.adopt_eq pid stdout stderr
  refine ⟨_, ended, he, ⟨hstates, ?_⟩, hcurrent, rfl⟩
  show true = phases.current.isLive
  rw [hcurrent]
  rfl

theorem setReady (h : s.Guarded) : ∃ t ended, s.setReady = .ok (t, ended) ∧ Readies s t := by
  rcases h.setReady_eq with ⟨-, he⟩ | ⟨hlive, phases, ended, -, he, hcurrent, hstates⟩
  · exact ⟨s, [], he, .refl s⟩
  · refine ⟨_, ended, he, fun _ => ⟨hstates, ?_⟩, rfl, .inr ⟨hlive, hcurrent⟩⟩
    show s.held.isSome = phases.current.isLive
    rw [h.guard, hlive, hcurrent]
    rfl

/-- The end of a process is a crash if it is held, and otherwise nothing. -/
theorem processEnded (h : s.Guarded) (pid : Pid) : ∃ t ended,
    s.processEnded pid = .ok (t, ended) ∧ t.Guarded ∧
      (s.held = some pid ∧ t.state = .crashed ∧ t.held = none ∨ s.held ≠ some pid ∧ t = s) := by
  by_cases hheld : s.held = some pid
  · obtain ⟨phases, ended, -, he, hcurrent, hstates⟩ := h.processEnded_eq hheld
    refine ⟨_, ended, he, ⟨hstates, ?_⟩, .inl ⟨hheld, hcurrent, rfl⟩⟩
    show false = phases.current.isLive
    rw [hcurrent]
    rfl
  · exact ⟨s, [], if_neg hheld, h, .inr ⟨hheld, rfl⟩⟩

end Guarded

end Supervisor

namespace SharedServer

variable {s : SharedServer}

theorem takeLine_guarded (h : s.supervisor.Guarded) (lineUse : LineUse) (line : Text) :
    ∃ t ended, s.takeLine lineUse line = .ok (t, ended) ∧
      s.supervisor.Readies t.supervisor := by
  unfold takeLine
  split
  next digits _ =>
    obtain ⟨t, ended, he, hready⟩ := h.setReady
    rw [he]
    exact ⟨_, ended, rfl, hready⟩
  next => exact ⟨s, [], rfl, .refl _⟩

/-- No line is at odds with the state of the server. -/
theorem takeLines_guarded (h : s.supervisor.Guarded) (lineUse : LineUse) (lines : List Text) :
    s.supervisor.Readies (s.takeLines lineUse lines).1.supervisor := by
  induction lines generalizing s with
  | nil => exact .refl _
  | cons line rest ih =>
    obtain ⟨t, ended, he, hready⟩ := takeLine_guarded h lineUse line
    unfold takeLines
    rw [he]
    exact hready.trans (ih (hready.guarded h))

end SharedServer

/-- What is done to a supervisor, and what its processes do. -/
inductive Order where
  | start (call : Call) (stdout stderr : LineUse)
  | stop
  | setReady
  | dispose
  | wait (state : ServerState)
  | feed (pid : Pid) (stream : Stream) (chunk : Text.Bytes)
  | exit (pid : Pid) (code : ExitCode) (time : Millis)
  /-- A reader or a waiter that was woken goes on. -/
  | step

namespace Order

def isStart : Order → Bool
  | .start .. => true
  | _ => false

/-- Whether an order takes down the process that is held. -/
def replaces : Order → Bool
  | .start .. | .stop | .dispose => true
  | _ => false

end Order

def Event.killed? : Event → Option Pid
  | .killed pid => some pid
  | _ => none

def Event.spawned? : Event → Option Pid
  | .spawned pid _ => some pid
  | _ => none

namespace Session

def obey (s : Session) : Order → Session
  | .start call stdout stderr => (s.superviseCall call stdout stderr).1
  | .stop => s.stopSupervised.1
  | .setReady => s.markReady.1
  | .dispose => s.disposeSupervisor.1
  | .wait state => (s.waitForState state).1
  | .feed pid stream chunk => s.feed pid stream chunk
  | .exit pid code time => s.exit pid code time
  | .step => s.step

def obeying (s : Session) (orders : List Order) : Session := orders.foldl obey s

@[simp] theorem obeying_nil (s : Session) : s.obeying [] = s := rfl

@[simp] theorem obeying_cons (s : Session) (o : Order) (orders : List Order) :
    s.obeying (o :: orders) = (s.obey o).obeying orders := rfl

/-- The processes that were killed, in that order. -/
def killed (s : Session) : List Pid := s.events.filterMap Event.killed?

/-- The processes that were started, in that order. -/
def spawned (s : Session) : List Pid := s.events.filterMap Event.spawned?

/-- Nobody uses the session but its supervisor, which holds a process exactly while it is live. -/
structure Manned (s : Session) : Prop where
  world : s.world.Sane
  tasks : s.tasks = []
  runs : s.engine.runs = []
  queue : ∀ n ∈ s.queue, ∃ wake, n = .wake wake
  guarded : s.server.supervisor.Guarded
  known : ∀ pid, s.server.supervisor.held = some pid → pid ≤ s.world.processes.length

/-- What may have become of the process that is held, with the processes that were started. -/
inductive Turn (s t : Session) : Order → List Pid → Prop
  | stays {o : Order} (spares : o.replaces = false)
      (state : t.server.supervisor.state = s.server.supervisor.state)
      (held : t.server.supervisor.held = s.server.supervisor.held) : Turn s t o []
  | readies {o : Order} (spares : o.replaces = false)
      (live : s.server.supervisor.state.isLive = true)
      (state : t.server.supervisor.state = .ready)
      (held : t.server.supervisor.held = s.server.supervisor.held) : Turn s t o []
  | crashes {pid : Pid} {rest : List Notice} (queue : s.queue = .wake (.exit pid) :: rest)
      (holds : s.server.supervisor.held = some pid) (ended : s.world.HasEnded pid)
      (state : t.server.supervisor.state = .crashed)
      (held : t.server.supervisor.held = none) : Turn s t .step []
  | stops {o : Order} (replaces : o = .stop ∨ o = .dispose)
      (state : t.server.supervisor.state = .stopped)
      (held : t.server.supervisor.held = none) : Turn s t o []
  | starts {call : Call} {stdout stderr : LineUse} {pid : Pid}
      (fresh : pid = s.world.processes.length + 1)
      (state : t.server.supervisor.state = .running)
      (held : t.server.supervisor.held = some pid) : Turn s t (.start call stdout stderr) [pid]
  | fails {call : Call} {stdout stderr : LineUse}
      (state : t.server.supervisor.state =
        if s.server.supervisor.state = .crashed then .crashed else .stopped)
      (held : t.server.supervisor.held = none) : Turn s t (.start call stdout stderr) []

/-- From one session to another only the server and its processes have changed; some processes were
killed on the way and some were started. -/
structure Tends (s t : Session) (killed spawned : List Pid) : Prop where
  ages : World.Ages s.world t.world
  tasks : t.tasks = s.tasks
  runs : t.engine.runs = s.engine.runs
  queue : ∀ n ∈ t.queue, n ∈ s.queue ∨ ∃ wake, n = .wake wake
  killed : t.killed = s.killed ++ killed
  spawned : t.spawned = s.spawned ++ spawned

variable {s t u : Session} {pid : Pid} {ks ks' bs bs' : List Pid}

theorem mem_map_wake {n : Notice} {wakes : List Wake} (h : n ∈ wakes.map Notice.wake) :
    ∃ wake, n = .wake wake := by
  obtain ⟨wake, -, rfl⟩ := List.mem_map.mp h
  exact ⟨wake, rfl⟩

theorem phaseNotices_of_tasks (h : s.tasks = []) (waits : List WaitId) :
    s.phaseNotices waits = [] := by
  apply List.eq_nil_iff_forall_not_mem.mpr
  intro n hn
  obtain ⟨id, -, k, -, -, hk, -⟩ := mem_phaseNotices hn
  rw [task?, h] at hk
  cases hk

/-- Of a reader of the server at most its lines are seen. -/
theorem readServer_seen (s : Session) (r : StreamReader) :
    (s.readServer r).engine = s.engine ∧ (s.readServer r).killed = s.killed ∧
      (s.readServer r).spawned = s.spawned := by
  have hlines : ∀ lines : List Text,
      (lines.map (Event.line r.stream)).filterMap Event.killed? = [] ∧
        (lines.map (Event.line r.stream)).filterMap Event.spawned? = [] := by
    intro lines
    simp [List.filterMap_map, Function.comp_def, Event.killed?, Event.spawned?]
  unfold Session.readServer
  dsimp only
  split
  next =>
    refine ⟨rfl, (List.filterMap_append ..).trans ?_, (List.filterMap_append ..).trans ?_⟩
    · rw [(hlines _).1, List.append_nil]
      rfl
    · rw [(hlines _).2, List.append_nil]
      rfl
  next => exact ⟨rfl, rfl, rfl⟩
  next => exact ⟨rfl, rfl, rfl⟩

namespace Tends

theorem refl (s : Session) : Tends s s [] [] :=
  ⟨.refl _, rfl, rfl, fun _ => .inl, (List.append_nil _).symm, (List.append_nil _).symm⟩

theorem trans (h : Tends s t ks bs) (h' : Tends t u ks' bs') :
    Tends s u (ks ++ ks') (bs ++ bs') := by
  refine ⟨h.ages.trans h'.ages, h'.tasks.trans h.tasks, h'.runs.trans h.runs, fun n hn => ?_, ?_,
    ?_⟩
  · exact (h'.queue n hn).elim (h.queue n) .inr
  · rw [h'.killed, h.killed, List.append_assoc]
  · rw [h'.spawned, h.spawned, List.append_assoc]

/-- What happens in the world alone wakes readers and waiters. -/
theorem wakes {world : World} (h : World.Ages s.world world) (wakes : List Wake) :
    Tends s ({ s with world }.enqueue (wakes.map .wake)) [] [] := by
  refine ⟨h, rfl, rfl, fun n hn => ?_, (List.append_nil _).symm, (List.append_nil _).symm⟩
  exact (List.mem_append.mp hn).imp_right mem_map_wake

/-- Nobody is told of a change to the supervisor when there are no tasks. -/
theorem setSupervisor (htasks : s.tasks = []) (supervisor : Supervisor) (ended : List WaitId) :
    Tends s (s.setSupervisor supervisor ended) [] [] := by
  refine ⟨.refl _, rfl, rfl, fun n hn => .inl ?_, (List.append_nil _).symm,
    (List.append_nil _).symm⟩
  rwa [setSupervisor_queue, phaseNotices_of_tasks htasks, List.append_nil] at hn

/-- A process is killed that nobody reads any more. -/
theorem retire (s : Session) (pid : Pid) :
    Tends s ({ s with world := s.world.abandon pid }.kill pid) [pid] [] := by
  refine ⟨?_, rfl, rfl, fun n hn => ?_, ?_, ?_⟩
  · exact (World.touches_abandon s.world pid).ages.trans (World.touches_kill _ pid).ages
  · exact (List.mem_append.mp hn).imp_right mem_map_wake
  · exact List.filterMap_append ..
  · exact (List.filterMap_append ..).trans (congrArg _ rfl)

theorem spawn_ok {call : Call} (h : s.spawn call = (t, .ok pid)) :
    Tends s t [] [pid] ∧ t.server = s.server ∧ s.world.spawn.2 = .ok pid ∧
      pid = s.world.processes.length + 1 ∧ pid ≤ t.world.processes.length := by
  unfold Session.spawn at h
  split at h
  next w q hw =>
    cases h
    obtain ⟨hnext, hle, -⟩ := World.spawn_ok hw
    have hgrows := World.grows_spawn s.world
    rw [hw] at hgrows
    refine ⟨⟨hgrows.ages, rfl, rfl, fun _ => .inl, ?_, ?_⟩, rfl, by rw [hw], hnext, hle⟩
    · exact (List.filterMap_append ..).trans (congrArg _ rfl)
    · exact List.filterMap_append ..
  next => cases h

theorem spawn_error {call : Call} {fault : Fault} (h : s.spawn call = (t, .error fault)) :
    Tends s t [] [] ∧ t.server = s.server ∧ s.world.spawn.2 = .error fault := by
  unfold Session.spawn at h
  split at h
  next => cases h
  next w f hw =>
    cases h
    have hgrows := World.grows_spawn s.world
    rw [hw] at hgrows
    refine ⟨⟨hgrows.ages, rfl, rfl, fun _ => .inl, ?_, ?_⟩, rfl, by rw [hw]⟩
    · exact (List.filterMap_append ..).trans (congrArg _ rfl)
    · exact (List.filterMap_append ..).trans (congrArg _ rfl)

theorem manned (h : Tends s t ks bs) (hs : s.Manned) (guarded : t.server.supervisor.Guarded)
    (known : ∀ pid, t.server.supervisor.held = some pid → pid ≤ t.world.processes.length) :
    t.Manned := by
  refine ⟨h.ages.sane hs.world, h.tasks.trans hs.tasks, h.runs.trans hs.runs, fun n hn => ?_,
    guarded, known⟩
  exact (h.queue n hn).elim (hs.queue n) id

/-- What holds the same process is manned as before. -/
theorem manned_readies (h : Tends s t ks bs) (hs : s.Manned)
    (hr : s.server.supervisor.Readies t.server.supervisor) : t.Manned := by
  refine h.manned hs (hr.guarded hs.guarded) fun pid hp => ?_
  exact Nat.le_trans (hs.known pid (hr.held.symm.trans hp)) h.ages.length

end Tends

theorem Turn.of_readies {o : Order} (ho : o.replaces = false)
    (h : s.server.supervisor.Readies t.server.supervisor) : Turn s t o [] := by
  rcases h.state with he | ⟨hlive, he⟩
  · exact .stays ho he h.held
  · exact .readies ho hlive he h.held

/-- What an order kills: the process that it replaces. -/
def takenBy (s : Session) (o : Order) : List Pid :=
  if o.replaces then s.server.supervisor.held.toList else []

/-- What comes of an order. -/
structure Obeys (s t : Session) (o : Order) : Prop where
  manned : t.Manned
  turn : ∃ spawned, Turn s t o spawned ∧ Tends s t (s.takenBy o) spawned

/-- An order that replaces nothing and starts nothing. -/
theorem Obeys.of_readies {o : Order} (h : s.Manned) (ho : o.replaces = false)
    (ht : Tends s t [] []) (hr : s.server.supervisor.Readies t.server.supervisor) :
    Obeys s t o := by
  refine ⟨ht.manned_readies h hr, [], .of_readies ho hr, ?_⟩
  rw [takenBy, ho]
  exact ht

namespace Manned

/-! ## Stopping and starting -/

/-- A stop succeeds, and kills what is held. -/
theorem stopSupervised (h : s.Manned) : ∃ t, s.stopSupervised = (t, .ok ()) ∧
    Tends s t s.server.supervisor.held.toList [] ∧ t.Manned ∧
    t.server.supervisor.state = .stopped ∧ t.server.supervisor.held = none ∧
    t.world.plans = s.world.plans ∧ t.world.processes.length = s.world.processes.length := by
  obtain ⟨supervisor, ended, he, hguarded, hstate, hheld⟩ := h.guarded.stop
  unfold Session.stopSupervised
  rw [h.guarded.doomed_eq]
  cases hs : s.server.supervisor.held with
  | none =>
    dsimp only
    rw [he]
    have ht := Tends.setSupervisor h.tasks supervisor ended
    exact ⟨_, rfl, ht, ht.manned h hguarded fun pid hp => (by cases hheld.symm.trans hp), hstate,
      hheld, rfl, rfl⟩
  | some pid =>
    have hserver : ({ s with world := s.world.abandon pid }.kill pid).server = s.server := rfl
    dsimp only
    rw [hserver, he]
    have hretire := Tends.retire s pid
    have ht := hretire.trans (.setSupervisor (hretire.tasks.trans h.tasks) supervisor ended)
    refine ⟨_, rfl, ht, ht.manned h hguarded fun q hq => ?_, hstate, hheld, ?_, ?_⟩
    · cases hheld.symm.trans hq
    · exact (World.kill_plans _ pid).trans (World.abandon_plans s.world pid)
    · exact (World.touches_kill _ pid).length.trans (World.touches_abandon s.world pid).length

/-- A supervisor that is disposed of is stopped. -/
theorem disposeSupervisor (h : s.Manned) : ∃ t, s.disposeSupervisor = (t, .ok ()) ∧
    Tends s t s.server.supervisor.held.toList [] ∧ t.Manned ∧
    t.server.supervisor.state = .stopped ∧ t.server.supervisor.held = none := by
  obtain ⟨t, he, ht, hmanned, hstate, hheld, -⟩ := h.stopSupervised
  have hset := Tends.setSupervisor hmanned.tasks t.server.supervisor.cancelWaits.1
    t.server.supervisor.cancelWaits.2
  have hall := ht.trans hset
  rw [List.append_nil, List.append_nil] at hall
  unfold Session.disposeSupervisor
  rw [he]
  exact ⟨_, rfl, hall, hset.manned_readies hmanned ⟨fun hs => ⟨hs.states, hs.guard⟩, rfl, .inl rfl⟩,
    hstate, hheld⟩

/-- What can come of a start. -/
inductive Started (s : Session) (call : Call) : Session × Except Failure Unit → Prop
  | refused {t : Session} {fault : Fault} (refusal : s.world.spawn.2 = .error fault)
      (tends : Tends s t s.server.supervisor.held.toList []) (manned : t.Manned)
      (state : t.server.supervisor.state =
        if s.server.supervisor.state = .crashed then .crashed else .stopped)
      (held : t.server.supervisor.held = none) :
      Started s call (t, .error (.spawn call.command fault))
  | started {t : Session} {pid : Pid} (success : s.world.spawn.2 = .ok pid)
      (fresh : pid = s.world.processes.length + 1)
      (tends : Tends s t s.server.supervisor.held.toList [pid]) (manned : t.Manned)
      (state : t.server.supervisor.state = .running)
      (held : t.server.supervisor.held = some pid) : Started s call (t, .ok ())

/-- A start stops what is held, and fails only when the operating system refuses it. -/
theorem superviseCall (h : s.Manned) (call : Call) (stdout stderr : LineUse) :
    Started s call (s.superviseCall call stdout stderr) := by
  have hstopped : ∃ u, (if s.server.supervisor.state.isLive then s.stopSupervised
      else (s, .ok ())) = (u, .ok ()) ∧ Tends s u s.server.supervisor.held.toList [] ∧ u.Manned ∧
      u.server.supervisor.state =
        (if s.server.supervisor.state = .crashed then .crashed else .stopped) ∧
      u.server.supervisor.held = none ∧ u.world.plans = s.world.plans ∧
      u.world.processes.length = s.world.processes.length := by
    cases hlive : s.server.supervisor.state.isLive with
    | true =>
      obtain ⟨u, he, ht, hu, hstate, hrest⟩ := h.stopSupervised
      refine ⟨u, he, ht, hu, hstate.trans (if_neg ?_).symm, hrest⟩
      intro hc
      rw [hc] at hlive
      cases hlive
    | false =>
      have hnone := h.guarded.held_eq_none hlive
      refine ⟨s, rfl, ?_, h, ?_, hnone, rfl, rfl⟩
      · rw [hnone]
        exact .refl s
      · cases hs : s.server.supervisor.state <;> first | rfl | (rw [hs] at hlive; cases hlive)
  obtain ⟨u, he, ht, hu, hstate, hheld, hplans, hlength⟩ := hstopped
  unfold Session.superviseCall
  rw [he]
  dsimp only
  split
  next v fault hv =>
    obtain ⟨htv, hserver, hrefused⟩ := Tends.spawn_error hv
    have hreadies : u.server.supervisor.Readies v.server.supervisor := by
      rw [hserver]
      exact .refl _
    refine .refused ((World.spawn_congr hplans hlength).symm.trans hrefused) ?_
      (htv.manned_readies hu hreadies) ?_ ?_
    · simpa using ht.trans htv
    · rw [hserver]
      exact hstate
    · rw [hserver]
      exact hheld
  next v pid hv =>
    obtain ⟨htv, hserver, hsuccess, hpid, hle⟩ := Tends.spawn_ok hv
    have hreadies : u.server.supervisor.Readies v.server.supervisor := by
      rw [hserver]
      exact .refl _
    have hmanned := htv.manned_readies hu hreadies
    obtain ⟨supervisor, ended, ha, hguarded, hrunning, hholds⟩ :=
      hmanned.guarded.adopt pid stdout stderr
    rw [ha]
    have hset := Tends.setSupervisor hmanned.tasks supervisor ended
    have hwakes := Tends.wakes (s := v.setSupervisor supervisor ended) (.refl _)
      [.output pid .stdout, .output pid .stderr, .exit pid]
    have hall := ht.trans (htv.trans (hset.trans hwakes))
    refine .started ((World.spawn_congr hplans hlength).symm.trans hsuccess)
      (hpid.trans (by rw [hlength])) ?_ ?_ hrunning hholds
    · simpa using hall
    · refine hall.manned h hguarded fun q hq => ?_
      cases hholds.symm.trans hq
      exact hle

/-! ## Going on -/

/-- The waiter of a process goes on: its end is a crash if the process is held. -/
theorem awaitExit (h : s.Manned) (pid : Pid) : Tends s (s.awaitExit pid) [] [] ∧
    (¬ (s.server.supervisor.held = some pid ∧ s.world.HasEnded pid) ∧
        (s.awaitExit pid).server.supervisor = s.server.supervisor ∨
      (s.server.supervisor.held = some pid ∧ s.world.HasEnded pid) ∧
        (s.awaitExit pid).server.supervisor.Guarded ∧
        (s.awaitExit pid).server.supervisor.state = .crashed ∧
        (s.awaitExit pid).server.supervisor.held = none) := by
  have hrun : s.engine.run? pid = none := by
    rw [Engine.run?, h.runs]
    rfl
  unfold Session.awaitExit
  rcases hw : s.world.awaitExit pid with ⟨w, _ | code⟩
  · have hages := (World.touches_awaitExit s.world pid).ages
    rw [hw] at hages
    rw [hrun]
    refine ⟨by simpa using Tends.wakes hages [], .inl ⟨fun hc => ?_, rfl⟩⟩
    exact World.not_hasEnded_of_awaitExit (by rw [hw]) hc.2
  · obtain ⟨supervisor, ended, he, hguarded, hcases⟩ := h.guarded.processEnded pid
    rw [hrun]
    dsimp only
    rw [he]
    refine ⟨.setSupervisor h.tasks supervisor ended, ?_⟩
    rcases hcases with ⟨hheld, hstate, hnone⟩ | ⟨hne, rfl⟩
    · exact .inr ⟨⟨hheld, World.hasEnded_of_awaitExit hw⟩, hguarded, hstate, hnone⟩
    · exact .inl ⟨fun hc => hne hc.1, rfl⟩

/-- A reader of the server goes on: its lines may make the server ready. -/
theorem readServer (h : s.Manned) (r : StreamReader) : Tends s (s.readServer r) [] [] ∧
    s.server.supervisor.Readies (s.readServer r).server.supervisor := by
  obtain ⟨hworld, hserver, htasks, -, hqueue⟩ := s.readServer_same r
  obtain ⟨hengine, hkilled, hspawned⟩ := readServer_seen s r
  refine ⟨⟨?_, htasks, congrArg Engine.runs hengine, fun n hn => ?_, ?_, ?_⟩, ?_⟩
  · rw [hworld]
    exact (World.touches_collect ..).ages
  · rw [hqueue, phaseNotices_of_tasks h.tasks, List.append_nil] at hn
    exact .inl hn
  · rw [hkilled, List.append_nil]
  · rw [hspawned, List.append_nil]
  · rw [hserver]
    exact (SharedServer.takeLines_guarded h.guarded ..).trans
      ⟨fun hs => ⟨hs.states, hs.guard⟩, rfl, .inl rfl⟩

theorem popped {n : Notice} {rest : List Notice} (h : s.Manned) (hq : s.queue = n :: rest) :
    Manned { s with queue := rest } :=
  ⟨h.world, h.tasks, h.runs, fun m hm => h.queue m (hq ▸ List.mem_cons_of_mem _ hm), h.guarded,
    h.known⟩

/-- A step leaves the process that is held, or lets it become ready or crash. -/
theorem step (h : s.Manned) : Obeys s s.step .step := by
  cases hq : s.queue with
  | nil =>
    rw [step_nil hq]
    exact .of_readies h rfl (.refl s) (.refl _)
  | cons n rest =>
    rw [step_cons hq]
    have hrest : Tends s { s with queue := rest } [] [] := by
      refine ⟨.refl _, rfl, rfl, fun n hn => .inl ?_, (List.append_nil _).symm,
        (List.append_nil _).symm⟩
      rw [hq]
      exact List.mem_cons_of_mem _ hn
    have hpopped := h.popped hq
    obtain ⟨wake, rfl⟩ := h.queue n (by rw [hq]; exact List.mem_cons_self)
    cases wake with
    | output pid stream =>
      show Obeys s (Session.read { s with queue := rest } pid stream) .step
      have hrun : Engine.run? s.engine pid = none := by
        rw [Engine.run?, h.runs]
        rfl
      unfold Session.read
      rw [hrun]
      dsimp only
      split
      next hr => cases hr
      next r _ _ =>
        obtain ⟨ht, hready⟩ := hpopped.readServer r
        exact .of_readies h rfl (hrest.trans ht) hready
      next => exact .of_readies h rfl hrest (.refl _)
    | exit pid =>
      show Obeys s (Session.awaitExit { s with queue := rest } pid) .step
      obtain ⟨ht, ⟨-, hsame⟩ | ⟨⟨hheld, hended⟩, hguarded, hstate, hnone⟩⟩ := hpopped.awaitExit pid
      · exact .of_readies h rfl (hrest.trans ht) (hsame ▸ .refl _)
      · refine ⟨(hrest.trans ht).manned h hguarded fun q hq => ?_, [],
          .crashes hq hheld hended hstate hnone, hrest.trans ht⟩
        cases hnone.symm.trans hq

/-- **What an order comes to**, for each of them. -/
theorem obey (h : s.Manned) (o : Order) : Obeys s (s.obey o) o := by
  cases o with
  | start call stdout stderr =>
    have hstarted := h.superviseCall call stdout stderr
    show Obeys s (s.superviseCall call stdout stderr).1 _
    generalize s.superviseCall call stdout stderr = result at hstarted
    cases hstarted with
    | refused _ ht hmanned hstate hheld =>
      exact ⟨hmanned, [], .fails hstate hheld, ht⟩
    | started _ hpid ht hmanned hstate hheld =>
      exact ⟨hmanned, _, .starts hpid hstate hheld, ht⟩
  | stop =>
    obtain ⟨t, he, ht, hmanned, hstate, hheld, -⟩ := h.stopSupervised
    show Obeys s s.stopSupervised.1 _
    rw [he]
    exact ⟨hmanned, [], .stops (.inl rfl) hstate hheld, ht⟩
  | setReady =>
    obtain ⟨t, ended, he, hready⟩ := h.guarded.setReady
    show Obeys s s.markReady.1 _
    unfold markReady
    rw [he]
    exact .of_readies h rfl (.setSupervisor h.tasks t ended) hready
  | dispose =>
    obtain ⟨t, he, ht, hmanned, hstate, hheld⟩ := h.disposeSupervisor
    show Obeys s s.disposeSupervisor.1 _
    rw [he]
    exact ⟨hmanned, [], .stops (.inr rfl) hstate hheld, ht⟩
  | wait state =>
    exact .of_readies h rfl (.setSupervisor h.tasks ..) (Supervisor.same_waitFor ..).readies
  | feed pid stream chunk =>
    exact .of_readies h rfl (.wakes (World.touches_feed ..).ages _) (.refl _)
  | exit pid code time =>
    exact .of_readies h rfl (.wakes (World.touches_exit ..).ages _) (.refl _)
  | step => exact h.step

end Manned

end Session

end VerifierHost
