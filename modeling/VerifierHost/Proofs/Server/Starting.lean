import VerifierHost.Proofs.Server.Service
import VerifierHost.Proofs.Waiting.Phases

/-! # Stopping and starting the supervised process

A supervisor that keeps to its states is always stopped and started without complaint: a start fails
only when the operating system refuses it. -/

namespace VerifierHost

namespace World

theorem abandon_plans (w : World) (pid : Pid) : (w.abandon pid).plans = w.plans := by
  unfold abandon
  split
  next => rfl
  next => rfl

theorem kill_plans (w : World) (pid : Pid) : (w.kill pid).1.plans = w.plans := by
  unfold kill
  split
  next =>
    rcases w.exit_cases pid killedCode .zero with he | ⟨p, -, -, he⟩
    · rw [he]
    · rw [he]
      rfl
  next => rfl

/-- What comes of the next start is a matter of the plans and the number of the process. -/
theorem spawn_congr {w w' : World} (hplans : w'.plans = w.plans)
    (hlength : w'.processes.length = w.processes.length) : w'.spawn.2 = w.spawn.2 := by
  unfold spawn
  rw [hplans]
  split
  next => rfl
  next => rfl
  next => exact congrArg (fun n => Except.ok (n + 1)) hlength

theorem length_spawn {w w' : World} {pid : Pid} (h : w.spawn = (w', .ok pid)) :
    w'.processes.length = w.processes.length + 1 := by
  unfold spawn at h
  split at h
  next => cases h
  next => cases h
  next =>
    cases h
    simp

theorem length_spawn_error {w w' : World} {fault : Fault} (h : w.spawn = (w', .error fault)) :
    w'.processes.length = w.processes.length := by
  unfold spawn at h
  split at h
  next => cases h; rfl
  next => cases h; rfl
  next => cases h

end World

namespace Session

/-- A notice that comes of a change to the supervisor: a task hears of a state, or a reader or a
waiter of the process that was served goes on. -/
inductive Stirred (s : Session) : Notice → Prop
  | phase {id : TaskId} {k : Task} {ready crashed : WaitId} (task : s.task? id = some k)
      (awaits : k.standing = .awaitingPhase ready crashed) : Stirred s (.phaseEnded id)
  | wake {wake : Wake} {pid : Pid} (about : (Notice.wake wake).pid? = some pid)
      (served : s.Serves pid) : Stirred s (.wake wake)

/-- A task waits for a state of the server, and its wait has ended. -/
def Expects (s : Session) (id : TaskId) (ended : List WaitId) : Prop :=
  ∃ k ready crashed, s.task? id = some k ∧ k.standing = .awaitingPhase ready crashed ∧
    (ready ∈ ended ∨ crashed ∈ ended)

/-- From one session to another no task has changed. The server may have moved, and whoever is told
so has waited for that. -/
structure Signals (crash : Prop) (s t : Session) : Prop where
  tasks : t.tasks = s.tasks
  startup : t.startup = s.startup
  moves : ∃ ended,
    Phases.Moves crash s.server.supervisor.phases t.server.supervisor.phases ended ∧
      ∀ id, .phaseEnded id ∈ t.queue → .phaseEnded id ∈ s.queue ∨ s.Expects id ended

/-- From one session to another only the server and its process have changed. -/
structure Manages (s t : Session) : Prop extends Signals False s t where
  toolchain : t.toolchain = s.toolchain
  name : t.server.supervisor.name = s.server.supervisor.name
  announced : t.server.announced = s.server.announced
  queue : ∃ more, t.queue = s.queue ++ more ∧ ∀ n ∈ more, Stirred s n

variable {s t u : Session} {pid : Pid} {crash : Prop}

/-- What tells tasks that waits for a state of the supervisor have ended. -/
def phaseNotices (s : Session) (waits : List WaitId) : List Notice :=
  waits.flatMap fun wait =>
    (s.tasksWhere fun
      | .awaitingPhase ready crashed => ready = wait || crashed = wait
      | _ => false).map .phaseEnded

theorem setSupervisor_queue (s : Session) (supervisor : Supervisor) (ended : List WaitId) :
    (s.setSupervisor supervisor ended).queue = s.queue ++ s.phaseNotices ended := rfl

theorem mem_phaseNotices {waits : List WaitId} {n : Notice} (h : n ∈ s.phaseNotices waits) :
    ∃ id, n = .phaseEnded id ∧ s.Expects id waits := by
  obtain ⟨wait, hw, hn⟩ := List.mem_flatMap.mp h
  obtain ⟨id, hid, rfl⟩ := List.mem_map.mp hn
  obtain ⟨k, hk, ht⟩ := mem_tasksWhere.mp hid
  split at ht
  next ready crashed hs =>
    refine ⟨id, rfl, k, ready, crashed, hk, hs, ?_⟩
    rcases (by simpa using ht : ready = wait ∨ crashed = wait) with rfl | rfl
    · exact .inl hw
    · exact .inr hw
  next => cases ht

/-- A process that moves tells nobody of a state of the server. -/
theorem phaseEnded_not_mem_wakes {id : TaskId} {wakes : List Wake} :
    .phaseEnded id ∉ wakes.map Notice.wake := by
  intro h
  obtain ⟨_, -, he⟩ := List.mem_map.mp h
  cases he

theorem Expects.mono {id : TaskId} {ended ended' : List WaitId} (h : s.Expects id ended)
    (hm : ∀ w ∈ ended, w ∈ ended') : s.Expects id ended' := by
  obtain ⟨k, ready, crashed, hk, hs, hw⟩ := h
  exact ⟨k, ready, crashed, hk, hs, hw.imp (hm _) (hm _)⟩

theorem Expects.congr {id : TaskId} {ended : List WaitId} (h : t.Expects id ended)
    (htasks : t.tasks = s.tasks) : s.Expects id ended := by
  obtain ⟨k, ready, crashed, hk, hrest⟩ := h
  exact ⟨k, ready, crashed, (task?_congr htasks id).symm.trans hk, hrest⟩

namespace Signals

/-- Nothing has happened that a task could be told of. -/
theorem of_same (htasks : t.tasks = s.tasks) (hstartup : t.startup = s.startup)
    (hphases : t.server.supervisor.phases = s.server.supervisor.phases)
    (hqueue : ∀ id, .phaseEnded id ∈ t.queue → .phaseEnded id ∈ s.queue) : Signals crash s t :=
  ⟨htasks, hstartup, [], hphases ▸ .refl _, fun id hid => .inl (hqueue id hid)⟩

theorem trans (h : Signals crash s t) (h' : Signals crash t u) : Signals crash s u := by
  obtain ⟨ended, hmoves, htold⟩ := h.moves
  obtain ⟨ended', hmoves', htold'⟩ := h'.moves
  refine ⟨h'.tasks.trans h.tasks, h'.startup.trans h.startup, _, hmoves.trans hmoves',
    fun id hid => ?_⟩
  rcases htold' id hid with hid | hw
  · exact (htold id hid).imp_right (·.mono fun _ => List.mem_append_left _)
  · exact .inr ((hw.congr h.tasks).mono fun _ => List.mem_append_right _)

theorem setSupervisor {supervisor : Supervisor} {ended : List WaitId}
    (h : Phases.Moves crash s.server.supervisor.phases supervisor.phases ended) :
    Signals crash s (s.setSupervisor supervisor ended) := by
  refine ⟨rfl, rfl, ended, h, fun id hid => ?_⟩
  rcases List.mem_append.mp hid with hid | hid
  · exact .inl hid
  · obtain ⟨i, he, hw⟩ := mem_phaseNotices hid
    cases he
    exact .inr hw

end Signals

namespace Manages

theorem refl (s : Session) : Manages s s :=
  ⟨.of_same rfl rfl rfl fun _ h => h, rfl, rfl, rfl, [], (List.append_nil _).symm,
    fun _ hn => absurd hn List.not_mem_nil⟩

theorem setSupervisor (h : Manages s t) {supervisor : Supervisor} {ended : List WaitId}
    (hname : supervisor.name = t.server.supervisor.name)
    (hmoves : Phases.Moves False t.server.supervisor.phases supervisor.phases ended) :
    Manages s (t.setSupervisor supervisor ended) := by
  obtain ⟨more, hq, hm⟩ := h.queue
  refine ⟨h.toSignals.trans (.setSupervisor hmoves), h.toolchain, hname.trans h.name, h.announced,
    more ++ t.phaseNotices ended, ?_, ?_⟩
  · rw [setSupervisor_queue, hq, List.append_assoc]
  · intro n hn
    rcases List.mem_append.mp hn with hn | hn
    · exact hm n hn
    · obtain ⟨id, rfl, hw⟩ := mem_phaseNotices hn
      obtain ⟨k, ready, crashed, hk, hs, -⟩ := hw.congr h.tasks
      exact .phase hk hs

theorem spawn (h : Manages s t) (call : Call) : Manages s (t.spawn call).1 := by
  obtain ⟨event, -, he⟩ := t.spawn_eq call
  rw [he]
  exact ⟨h.toSignals.trans (.of_same rfl rfl rfl fun _ h => h), h.toolchain, h.name, h.announced,
    h.queue⟩

/-- The process is killed that is served, and nobody reads it any more. -/
theorem retire (hserved : s.Serves pid) :
    Manages s ({ s with world := s.world.abandon pid }.kill pid) := by
  refine ⟨.of_same rfl rfl rfl fun id hid => ?_, rfl, rfl, rfl, _, rfl, fun n hn => ?_⟩
  · exact (List.mem_append.mp hid).resolve_right phaseEnded_not_mem_wakes
  · obtain ⟨wake, hw, rfl⟩ := List.mem_map.mp hn
    exact .wake (World.pid?_kill hw) hserved

end Manages

/-- No process is held any more. -/
structure Clears (s t : Session) : Prop extends Manages s t where
  kept : t.server.supervisor.Kept
  held : t.server.supervisor.held = none
  length : t.world.processes.length = s.world.processes.length

/-- A stop succeeds. -/
theorem stopSupervised_spec (h : s.server.supervisor.Kept) : ∃ t,
    s.stopSupervised = (t, .ok ()) ∧ Clears s t ∧ t.server.supervisor.state = .stopped ∧
      t.world.plans = s.world.plans := by
  obtain ⟨phases, ended, hset, hstop, hcurrent, hstates⟩ := h.stop_eq
  have hkept : Supervisor.Kept { s.server.supervisor with held := none, readers := [], phases } :=
    ⟨hstates, by show false = phases.current.isLive; rw [hcurrent]; rfl,
      fun _ hr => absurd hr List.not_mem_nil, .nil⟩
  have hmoves : Phases.Moves False s.server.supervisor.phases phases ended :=
    (Phases.Moves.set hset).mono nofun
  unfold stopSupervised
  rw [h.guarded.doomed_eq]
  cases hheld : s.server.supervisor.held with
  | none =>
    dsimp only
    rw [hstop]
    exact ⟨_, rfl, ⟨(Manages.refl s).setSupervisor rfl hmoves, hkept, rfl, rfl⟩, hcurrent, rfl⟩
  | some pid =>
    have hsame : ({ s with world := s.world.abandon pid }.kill pid).server = s.server := rfl
    dsimp only
    rw [hsame, hstop]
    refine ⟨_, rfl, ⟨?_, hkept, rfl, ?_⟩, hcurrent, ?_⟩
    · exact (Manages.retire (.inl hheld)).setSupervisor rfl hmoves
    · exact (World.touches_kill _ pid).length.trans (World.touches_abandon s.world pid).length
    · exact (World.kill_plans _ pid).trans (World.abandon_plans s.world pid)

/-- A process is held that has just been started, and all its wakes are to come. -/
structure Adopts (pid : Pid) (stdout stderr : LineUse) (s t : Session) : Prop
    extends Manages s t where
  kept : t.server.supervisor.Kept
  held : t.server.supervisor.held = some pid
  readers : t.server.supervisor.readers =
    [.start pid .stdout stdout, .start pid .stderr stderr]
  running : t.server.supervisor.state = .running
  next : pid = s.world.processes.length + 1
  length : t.world.processes.length = pid

def firstWakes (pid : Pid) : List Notice :=
  [.wake (.output pid .stdout), .wake (.output pid .stderr), .wake (.exit pid)]

/-- What can come of a start. -/
inductive Starting (call : Call) (stdout stderr : LineUse) (s : Session) :
    Session × Except Failure Unit → Prop
  | refused {t : Session} {fault : Fault} (clears : Clears s t)
      (refusal : s.world.spawn.2 = .error fault) :
      Starting call stdout stderr s (t, .error (.spawn call.command fault))
  | started {t : Session} {pid : Pid} (adopts : Adopts pid stdout stderr s t) :
      Starting call stdout stderr s (t.enqueue (firstWakes pid), .ok ())

theorem adopts_of_spawn {u v : Session} {call : Call} (stdout stderr : LineUse)
    (hu : Clears s u) (hs : u.spawn call = (v, .ok pid)) : ∃ supervisor ended,
      v.server.supervisor.adopt pid stdout stderr = .ok (supervisor, ended) ∧
        Adopts pid stdout stderr s (v.setSupervisor supervisor ended) := by
  have hserver := Aside.spawn_server u call
  have hmanages := hu.toManages.spawn call
  obtain ⟨event, -, he⟩ := u.spawn_eq call
  rw [hs] at hserver hmanages he
  cases hw : u.world.spawn with
  | mk w result =>
    rw [hw] at he
    cases he
    obtain ⟨hnext, -, -⟩ := World.spawn_ok hw
    have hlength := World.length_spawn hw
    obtain ⟨phases, ended, hset, hadopt, hcurrent, hstates⟩ :=
      hu.kept.adopt_eq hu.held pid stdout stderr
    have hmoves : Phases.Moves False u.server.supervisor.phases phases ended :=
      (Phases.Moves.set hset).mono nofun
    refine ⟨_, ended, hadopt, hmanages.setSupervisor rfl hmoves, ?_, rfl, rfl, hcurrent, ?_, ?_⟩
    · refine ⟨hstates, by show true = phases.current.isLive; rw [hcurrent]; rfl, ?_, ?_⟩
      · intro r hr
        rcases List.mem_cons.mp hr with rfl | hr
        · rfl
        · rw [List.mem_singleton.mp hr]
          rfl
      · show [Stream.stdout, Stream.stderr].Nodup
        decide
    · rw [hnext, hu.length]
    · exact hlength.trans hnext.symm

/-- **A start stops the process before it**, and fails only when the operating system refuses. -/
theorem superviseCall_spec (h : s.server.supervisor.Kept) (call : Call) (stdout stderr : LineUse) :
    Starting call stdout stderr s (s.superviseCall call stdout stderr) := by
  have hstopped : ∃ u, (if s.server.supervisor.state.isLive then s.stopSupervised
      else (s, .ok ())) = (u, .ok ()) ∧ Clears s u ∧ u.world.plans = s.world.plans := by
    cases hlive : s.server.supervisor.state.isLive with
    | true =>
      obtain ⟨u, he, hu, -, hplans⟩ := stopSupervised_spec h
      exact ⟨u, he, hu, hplans⟩
    | false =>
      exact ⟨s, rfl, ⟨.refl s, h, h.guarded.held_eq_none hlive, rfl⟩, rfl⟩
  obtain ⟨u, he, hu, hplans⟩ := hstopped
  have hspawned := World.spawn_congr hplans hu.length
  unfold superviseCall
  rw [he]
  dsimp only
  split
  next v fault hs =>
    have hserver := Aside.spawn_server u call
    have hmanages := hu.toManages.spawn call
    obtain ⟨event, -, heq⟩ := u.spawn_eq call
    rw [hs] at hserver hmanages heq
    cases hw : u.world.spawn with
    | mk w result =>
      rw [hw] at heq hspawned
      cases heq
      exact .refused ⟨hmanages, hu.kept, hu.held, (World.length_spawn_error hw).trans hu.length⟩
        hspawned.symm
  next v pid hs =>
    obtain ⟨supervisor, ended, hadopt, hadopts⟩ := adopts_of_spawn stdout stderr hu hs
    rw [hadopt]
    exact .started hadopts

end Session

end VerifierHost
