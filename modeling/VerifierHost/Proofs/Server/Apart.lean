import VerifierHost.Proofs.Server.History
import VerifierHost.Proofs.Server.Supervision

/-! # What is done apart from the server

Runs and requests for what is known have nothing to do with the shared server: from one session to
another (`Session.Apart`) the server is the same, its process is as it was, and the notices that
were added are about other things. -/

namespace VerifierHost

/-- The process that a notice is about. -/
def Notice.pid? : Notice → Option Pid
  | .wake (.output pid _) | .wake (.exit pid) | .streamEnded pid | .outputEnded pid => some pid
  | .begin _ | .phaseEnded _ | .startupEnded _ | .resume _ => none

/-- The end of a process wakes nobody who waits for another one. -/
theorem Process.pid?_finish {p : Process} (code : ExitCode) {wake : Wake}
    (h : wake ∈ (p.finish code).2) : (Notice.wake wake).pid? = some p.pid := by
  simp only [finish, wakeReader, List.mem_append] at h
  rcases h with (h | h) | h
  all_goals
    split at h
    · rw [List.mem_singleton.mp h]
      rfl
    · exact absurd h List.not_mem_nil

theorem World.pid?_exit {w : World} {pid : Pid} {code : ExitCode} {time : Millis} {wake : Wake}
    (h : wake ∈ (w.exit pid code time).2) : (Notice.wake wake).pid? = some pid := by
  unfold exit at h
  split at h
  next => exact absurd h List.not_mem_nil
  next p hp =>
    split at h
    next => exact absurd h List.not_mem_nil
    next => rw [Process.pid?_finish code h, pid_of_process? hp]

theorem World.pid?_kill {w : World} {pid : Pid} {wake : Wake} (h : wake ∈ (w.kill pid).2) :
    (Notice.wake wake).pid? = some pid := by
  unfold kill at h
  split at h
  next => exact pid?_exit h
  next => exact absurd h List.not_mem_nil

/-- A notice about something else than the server. -/
def Notice.Remote (s t : Session) (n : Notice) : Prop :=
  (∀ id, n ≠ .phaseEnded id) ∧
    ∀ pid, n.pid? = some pid → pid ≤ t.world.processes.length ∧ ¬ s.Serves pid

namespace Session

/-- From one session to another nothing has happened that has to do with the server. -/
structure Apart (s t : Session) : Prop where
  server : t.server = s.server
  startup : t.startup = s.startup
  queue : ∃ more, t.queue = s.queue ++ more ∧ ∀ n ∈ more, n.Remote s t
  served : ∀ pid, s.Serves pid → t.world.process? pid = s.world.process? pid
  length : s.world.processes.length ≤ t.world.processes.length
  requests : ∀ id k, s.task? id = some k → ∃ k', t.task? id = some k' ∧ k'.request = k.request

variable {s t u : Session} {id : TaskId} {pid : Pid} {n : Notice} {ns : List Notice}

theorem serves_congr (h : Supervisor.Same s.server.supervisor t.server.supervisor) (pid : Pid) :
    t.Serves pid ↔ s.Serves pid := by
  rw [Serves, Serves, h.held, h.readers]

namespace Apart

theorem serves (h : Apart s t) (pid : Pid) : t.Serves pid ↔ s.Serves pid :=
  serves_congr (h.server ▸ .refl _) pid

/-- Whatever else changes. -/
theorem of_congr (hserver : t.server = s.server) (hqueue : t.queue = s.queue)
    (hworld : t.world = s.world) (htasks : t.tasks = s.tasks) (hstartup : t.startup = s.startup) :
    Apart s t where
  server := hserver
  startup := hstartup
  queue := ⟨[], by rw [hqueue, List.append_nil], fun _ hn => absurd hn List.not_mem_nil⟩
  served _ _ := by rw [hworld]
  length := Nat.le_of_eq (by rw [hworld])
  requests _ k hk := ⟨k, (task?_congr htasks _).trans hk, rfl⟩

theorem refl (s : Session) : Apart s s := of_congr rfl rfl rfl rfl rfl

theorem trans (h : Apart s t) (h' : Apart t u) : Apart s u where
  server := h'.server.trans h.server
  startup := h'.startup.trans h.startup
  queue := by
    obtain ⟨more, hq, hm⟩ := h.queue
    obtain ⟨more', hq', hm'⟩ := h'.queue
    refine ⟨more ++ more', by rw [hq', hq, List.append_assoc], fun n hn => ?_⟩
    rcases List.mem_append.mp hn with hn | hn
    · refine ⟨(hm n hn).1, fun pid hp => ?_⟩
      obtain ⟨hle, hs⟩ := (hm n hn).2 pid hp
      exact ⟨Nat.le_trans hle h'.length, hs⟩
    · refine ⟨(hm' n hn).1, fun pid hp => ?_⟩
      obtain ⟨hle, hs⟩ := (hm' n hn).2 pid hp
      exact ⟨hle, fun h'' => hs ((h.serves pid).mpr h'')⟩
  served pid hs := (h'.served pid ((h.serves pid).mpr hs)).trans (h.served pid hs)
  length := Nat.le_trans h.length h'.length
  requests id k hk := by
    obtain ⟨k', hk', hr⟩ := h.requests id k hk
    obtain ⟨k'', hk'', hr'⟩ := h'.requests id k' hk'
    exact ⟨k'', hk'', hr'.trans hr⟩

/-! ## One step -/

theorem enqueue (s : Session) {notices : List Notice} (h : ∀ n ∈ notices, n.Remote s s) :
    Apart s (s.enqueue notices) :=
  { refl s with queue := ⟨notices, rfl, h⟩ }

theorem setStanding (s : Session) (id : TaskId) (standing : Standing) :
    Apart s (s.setStanding id standing) :=
  { of_congr (t := { s with queue := s.queue }) rfl rfl rfl rfl rfl with
    requests := by
      intro i k hk
      by_cases hi : i = id
      · subst hi
        exact ⟨_, task?_setStanding_self hk rfl, rfl⟩
      · exact ⟨k, (task?_setStanding_of_ne rfl i hi).trans hk, rfl⟩ }

theorem remote_of_map (ids : List TaskId) {f : TaskId → Notice} (hf : ∀ i, (f i).pid? = none)
    (hphase : ∀ i id, f i ≠ .phaseEnded id) : ∀ n ∈ ids.map f, n.Remote s t := by
  intro n hn
  obtain ⟨i, -, rfl⟩ := List.mem_map.mp hn
  exact ⟨hphase i, fun pid hp => by cases (hf i).symm.trans hp⟩

theorem endTask (s : Session) (id : TaskId) (answer : Answer) : Apart s (s.endTask id answer) :=
  (setStanding s id _).trans
    (enqueue _ (remote_of_map _ (fun _ => rfl) (by rintro _ _ ⟨⟩)))

theorem noticeNews (s : Session) (waits : List WaitId) : Apart s (s.noticeNews waits) := by
  refine enqueue s fun n hn => ?_
  obtain ⟨wait, -, hn⟩ := List.mem_flatMap.mp hn
  exact remote_of_map _ (fun _ => rfl) (by rintro _ _ ⟨⟩) n hn

/-- Something is done about a process that is not the server's. -/
theorem touch {w : World} (h : World.Touches pid s.world w) (hpid : ¬ s.Serves pid) :
    Apart s { s with world := w } :=
  { refl s with
    served := fun q hq => h.others q fun he => hpid (he ▸ hq)
    length := Nat.le_of_eq h.length.symm
    queue := ⟨[], (List.append_nil _).symm, fun _ hn => absurd hn List.not_mem_nil⟩
    requests := (refl s).requests }

theorem kill (hle : pid ≤ s.world.processes.length) (hpid : ¬ s.Serves pid) :
    Apart s (s.kill pid) := by
  have htouch := World.touches_kill s.world pid
  have hkilled : Apart s ({ s with world := (s.world.kill pid).1 }.record [.killed pid]) :=
    (touch htouch hpid).trans (of_congr rfl rfl rfl rfl rfl)
  refine hkilled.trans (enqueue _ fun n hn => ?_)
  obtain ⟨wake, hw, rfl⟩ := List.mem_map.mp hn
  refine ⟨by rintro _ ⟨⟩, fun q hq => ?_⟩
  cases (World.pid?_kill hw).symm.trans hq
  exact ⟨htouch.length.symm ▸ hle, hpid⟩

/-- A process is started that is not the server's. -/
theorem spawn (call : Call) (hserved : ∀ pid, s.Serves pid → pid ≤ s.world.processes.length) :
    Apart s (s.spawn call).1 := by
  obtain ⟨event, -, he⟩ := s.spawn_eq call
  have hgrows := World.grows_spawn s.world
  have hworld : Apart s { s with world := s.world.spawn.1 } :=
    { refl s with
      served := fun pid hp => hgrows.others pid (hserved pid hp)
      length := hgrows.length
      queue := ⟨[], (List.append_nil _).symm, fun _ hn => absurd hn List.not_mem_nil⟩
      requests := (refl s).requests }
  rw [he]
  exact hworld.trans (of_congr rfl rfl rfl rfl rfl)

/-! ## What requests and runs do -/

theorem answerNews (s : Session) (id : TaskId) : Apart s (s.answerNews id) := by
  obtain ⟨findings, answer, he⟩ := s.answerNews_eq id
  rw [he]
  refine trans ?_ (endTask _ id answer)
  exact of_congr rfl rfl rfl rfl rfl

theorem concludeNews (s : Session) (id : TaskId) (wait : WaitId) :
    Apart s (s.concludeNews id wait) := by
  unfold Session.concludeNews
  split
  next => exact answerNews s id
  next => exact endTask s id _

theorem awaitNews (s : Session) (id : TaskId) (file : Text) : Apart s (s.awaitNews id file) := by
  refine trans ?_ (setStanding _ id _)
  exact of_congr rfl rfl rfl rfl rfl

theorem conclude (s : Session) (id : TaskId) (c : Conclusion) : Apart s (s.conclude id c) := by
  obtain ⟨u, answer, hu, hcases⟩ := ((s.showAll c.effects).noticeNews c.released).answerRun_eq id
    c.ending
  have hnews : Apart s ((s.showAll c.effects).noticeNews c.released) := by
    refine trans ?_ (noticeNews _ _)
    exact of_congr rfl rfl rfl rfl rfl
  have hconclude : s.conclude id c = u.endTask id answer := hu
  rw [hconclude]
  rcases hcases with rfl | rfl
  · exact hnews.trans (endTask _ id answer)
  · obtain ⟨instantiations, effects, he, -⟩ :=
      ((s.showAll c.effects).noticeNews c.released).refreshHints_eq
    rw [he]
    refine trans ?_ (endTask _ id answer)
    exact hnews.trans (of_congr rfl rfl rfl rfl rfl)

theorem finishRun (s : Session) (id : TaskId) (r : ActiveRun) (code : ExitCode) :
    Apart s (s.finishRun id r code) := by
  refine trans ?_ (conclude _ id _)
  exact of_congr rfl rfl rfl rfl rfl

theorem killRuns (h : Runners ns s) : Apart s s.killRuns := by
  have hfold : ∀ (pids : List Pid) (u : Session), Apart s u →
      (∀ pid ∈ pids, pid ≤ s.world.processes.length ∧ ¬ s.Serves pid) →
      Apart s (pids.foldl Session.kill u) := by
    intro pids
    induction pids with
    | nil => exact fun u hu _ => hu
    | cons pid rest ih =>
      intro u hu hpids
      obtain ⟨hle, hs⟩ := hpids pid List.mem_cons_self
      refine ih _ (hu.trans (kill (Nat.le_trans hle hu.length) fun hp => hs ?_))
        fun q hq => hpids q (List.mem_cons_of_mem _ hq)
      exact (hu.serves pid).mp hp
  refine hfold s.engine.pids s (refl s) fun pid hp => ?_
  obtain ⟨r, hr, rfl⟩ := List.mem_map.mp hp
  exact ⟨h.le_length hr, h.apart r hr⟩

theorem startVerifier (id : TaskId) (invocation : Invocation) (target : VerificationTarget)
    (name : Text) (hserved : ∀ pid, s.Serves pid → pid ≤ s.world.processes.length) :
    Apart s (s.startVerifier id invocation target name) := by
  have hspawn := spawn invocation.call hserved
  unfold Session.startVerifier
  dsimp only
  split
  next u pid hu =>
    obtain ⟨hlow, hhigh⟩ := Aside.spawn_pid hu
    rw [hu] at hspawn
    refine trans ?_ (enqueue _ fun n hn => ?_)
    · refine trans ?_ (setStanding _ id _)
      exact hspawn.trans (of_congr rfl rfl rfl rfl rfl)
    have hwake : ∃ stream, n = .wake (.output pid stream) := by
      rcases List.mem_cons.mp hn with rfl | hn
      · exact ⟨.stdout, rfl⟩
      · exact ⟨.stderr, List.mem_singleton.mp hn⟩
    obtain ⟨stream, rfl⟩ := hwake
    refine ⟨by rintro _ ⟨⟩, fun q hq => ?_⟩
    cases hq
    refine ⟨hhigh, fun hp => ?_⟩
    exact Nat.not_le_of_lt hlow (hserved pid ((hspawn.serves pid).mp hp))
  next u fault hu =>
    rw [hu] at hspawn
    refine trans ?_ (conclude _ id _)
    exact hspawn.trans (of_congr rfl rfl rfl rfl rfl)

theorem launch (h : Runners ns s) (id : TaskId) (path : Text) (target : VerificationTarget)
    (address : Text) : Apart s (s.launch id path target address) := by
  have hbegun : Apart s
      ({ s.killRuns with
          engine := (s.killRuns.engine.startRun target (shownName path)).1 }.showAll
        (s.killRuns.engine.startRun target (shownName path)).2) :=
    (killRuns h).trans (of_congr rfl rfl rfl rfl rfl)
  have hserved : ∀ {u}, Apart s u → ∀ pid, u.Serves pid → pid ≤ u.world.processes.length :=
    fun hu pid hp => Nat.le_trans (h.served pid ((hu.serves pid).mp hp)) hu.length
  unfold Session.launch
  cases target with
  | file => exact hbegun.trans (startVerifier id _ _ _ (hserved hbegun))
  | crate =>
    dsimp only at hbegun ⊢
    split
    next v hv =>
      obtain ⟨files, rfl⟩ := forgetCrate_ok hv
      refine trans ?_ (startVerifier id _ _ _ (hserved ?_))
      · exact hbegun.trans (of_congr rfl rfl rfl rfl rfl)
      · exact hbegun.trans (of_congr rfl rfl rfl rfl rfl)
    next fault _ => exact hbegun.trans (endTask _ id _)

theorem readVerifier (h : Runners ns s) {r : ActiveRun} (hr : r ∈ s.engine.runs)
    (stream : Stream) : Apart s (s.readVerifier r stream) := by
  have htouch := World.touches_collect s.world r.pid stream
  have hread : Apart s ({ s with
      world := (s.world.collect r.pid stream).1
      engine := (s.engine.takeOutput r stream (s.world.collect r.pid stream).2.1
        (s.world.collect r.pid stream).2.2).1 }.showAll
      (s.engine.takeOutput r stream (s.world.collect r.pid stream).2.1
        (s.world.collect r.pid stream).2.2).2) :=
    (touch htouch (h.apart r hr)).trans (of_congr rfl rfl rfl rfl rfl)
  unfold Session.readVerifier
  split
  next => exact refl s
  next =>
    dsimp only
    split
    next =>
      refine hread.trans (enqueue _ fun n hn => ?_)
      rw [List.mem_singleton.mp hn]
      refine ⟨by rintro _ ⟨⟩, fun pid hp => ?_⟩
      cases hp
      exact ⟨Nat.le_trans (h.le_length hr) hread.length,
        fun hs => h.apart r hr ((hread.serves _).mp hs)⟩
    next => exact hread

theorem streamEnded (h : Runners ns s) (hle : pid ≤ s.world.processes.length) :
    Apart s (s.streamEnded pid) := by
  unfold Session.streamEnded
  split
  next => exact refl s
  next id ht =>
    obtain ⟨k, hk, hrun⟩ := taskOfRun?_some ht
    obtain ⟨r, hr, hrp⟩ := List.mem_map.mp (h.tasks id k pid hk hrun).2
    split
    next => exact setStanding s id _
    next =>
      refine (setStanding s id _).trans (enqueue _ fun n hn => ?_)
      rw [List.mem_singleton.mp hn]
      refine ⟨by rintro _ ⟨⟩, fun q hq => ?_⟩
      cases hq
      exact ⟨hle, hrp ▸ h.apart r hr⟩
    next => exact refl s

theorem useServer (h : Runners ns s) (id : TaskId) (answer : Answer) :
    Apart s (s.useServer id answer) := by
  unfold Session.useServer
  split
  next => exact launch h id _ _ _
  next =>
    split
    next => exact endTask s id _
    next => exact endTask s id _
  next => exact endTask s id _

theorem startupEnded (s : Session) (id : TaskId) : Apart s (s.startupEnded id) := by
  unfold Session.startupEnded
  split
  next =>
    split
    next =>
      exact (setStanding s id _).trans (enqueue _
      (remote_of_map [id] (fun _ => rfl) (by rintro _ _ ⟨⟩)))
    next => exact refl s
  next => exact refl s

end Apart

end Session

end VerifierHost
