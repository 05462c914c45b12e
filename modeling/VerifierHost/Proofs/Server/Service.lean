import VerifierHost.Proofs.Server.Apart

/-! # What happens to the shared server

`react_service` says all that a notice can do to the server in a session that is sound: nothing, or
a reader of its process reads, the end of its process is awaited or noticed, or a process is
started. To wait for the server or for its startup leaves it as it is (`Session.Leaves`). -/

namespace VerifierHost

/-- A notice that wakes no reader of the server's process. -/
def Notice.Idle (s : Session) (n : Notice) : Prop :=
  ∀ r ∈ s.server.supervisor.readers, n ≠ .wake (.output r.pid r.stream)

namespace Session

/-- From one session to another the server and its process are as they were, though somebody may
wait for it now. The notices that were added are about other processes, if about any. -/
structure Leaves (s t : Session) : Prop where
  supervisor : Supervisor.Same s.server.supervisor t.server.supervisor
  announced : t.server.announced = s.server.announced
  queue : ∃ more, t.queue = s.queue ++ more ∧ ∀ n ∈ more, ∀ pid, n.pid? = some pid →
    pid ≤ t.world.processes.length ∧ ¬ s.Serves pid
  served : ∀ pid, s.Serves pid → t.world.process? pid = s.world.process? pid
  length : s.world.processes.length ≤ t.world.processes.length
  requests : ∀ id k, s.task? id = some k → ∃ k', t.task? id = some k' ∧ k'.request = k.request
  startup : t.startup = s.startup ∨
    ∃ id k, t.startup = some id ∧ t.task? id = some k ∧ k.request = .startup

variable {s t u : Session} {id : TaskId} {pid : Pid} {n : Notice} {ns : List Notice}

theorem Apart.leaves (h : Apart s t) : Leaves s t where
  supervisor := h.server ▸ .refl _
  announced := by rw [h.server]
  queue := by
    obtain ⟨more, hq, hm⟩ := h.queue
    exact ⟨more, hq, fun n hn => (hm n hn).2⟩
  served := h.served
  length := h.length
  requests := h.requests
  startup := .inl h.startup

namespace Leaves

theorem serves (h : Leaves s t) (pid : Pid) : t.Serves pid ↔ s.Serves pid :=
  serves_congr h.supervisor pid

theorem refl (s : Session) : Leaves s s := (Apart.refl s).leaves

theorem trans (h : Leaves s t) (h' : Leaves t u) : Leaves s u where
  supervisor := h.supervisor.trans h'.supervisor
  announced := h'.announced.trans h.announced
  queue := by
    obtain ⟨more, hq, hm⟩ := h.queue
    obtain ⟨more', hq', hm'⟩ := h'.queue
    refine ⟨more ++ more', by rw [hq', hq, List.append_assoc], fun n hn pid hp => ?_⟩
    rcases List.mem_append.mp hn with hn | hn
    · obtain ⟨hle, hs⟩ := hm n hn pid hp
      exact ⟨Nat.le_trans hle h'.length, hs⟩
    · obtain ⟨hle, hs⟩ := hm' n hn pid hp
      exact ⟨hle, fun h'' => hs ((h.serves pid).mpr h'')⟩
  served pid hs := (h'.served pid ((h.serves pid).mpr hs)).trans (h.served pid hs)
  length := Nat.le_trans h.length h'.length
  requests id k hk := by
    obtain ⟨k', hk', hr⟩ := h.requests id k hk
    obtain ⟨k'', hk'', hr'⟩ := h'.requests id k' hk'
    exact ⟨k'', hk'', hr'.trans hr⟩
  startup := by
    rcases h'.startup with he | hnew
    · rcases h.startup with he' | ⟨id, k, hid, hk, hr⟩
      · exact .inl (he.trans he')
      · obtain ⟨k', hk', hr'⟩ := h'.requests id k hk
        exact .inr ⟨id, k', he.trans hid, hk', hr'.trans hr⟩
    · exact .inr hnew

theorem knowsStartup (h : Leaves s t) (hs : s.KnowsStartup) : t.KnowsStartup := by
  intro id hid
  rcases h.startup with he | ⟨i, k, hi, hk, hr⟩
  · obtain ⟨k, hk, hr⟩ := hs id (he ▸ hid)
    obtain ⟨k', hk', hr'⟩ := h.requests id k hk
    exact ⟨k', hk', hr'.trans hr⟩
  · cases hi.symm.trans hid
    exact ⟨k, hk, hr⟩

theorem setSupervisor {supervisor : Supervisor} (ended : List WaitId)
    (h : Supervisor.Same s.server.supervisor supervisor) :
    Leaves s (s.setSupervisor supervisor ended) :=
  { refl s with
    supervisor := h
    queue := by
      refine ⟨_, rfl, fun n hn pid hp => ?_⟩
      obtain ⟨wait, -, hn⟩ := List.mem_flatMap.mp hn
      obtain ⟨i, -, rfl⟩ := List.mem_map.mp hn
      cases hp
    requests := (refl s).requests }

theorem addTask (s : Session) (request : Request) : Leaves s (s.addTask request).1 :=
  { refl s with
    queue := ⟨[.begin s.tasks.length], rfl, fun n hn pid hp => by
      rw [List.mem_singleton.mp hn] at hp
      cases hp⟩
    requests := fun _ k hk => ⟨k, task?_addTask hk request, rfl⟩
    startup := .inl rfl }

theorem joinStartup (s : Session) : Leaves s s.joinStartup.1 := by
  have hadd : Leaves s { (s.addTask .startup).1 with startup := some (s.addTask .startup).2 } :=
    { addTask s .startup with
      requests := (addTask s .startup).requests
      startup := .inr ⟨_, _, rfl, task?_added_last (s := s) rfl, rfl⟩ }
  unfold Session.joinStartup
  split
  next =>
    split
    next => exact hadd
    next => exact refl s
  next => exact hadd

theorem requireServer (h : Runners ns s) (id : TaskId) : Leaves s (s.requireServer id) := by
  unfold Session.requireServer
  split
  next => exact (Apart.useServer h id _).leaves
  next => exact (joinStartup s).trans (Apart.setStanding _ id _).leaves

theorem awaitPhase (s : Session) (id : TaskId) : Leaves s (s.awaitPhase id) := by
  have hwait : ∀ ended ready crashed, Leaves s
      ((s.setSupervisor ((s.server.supervisor.waitFor .ready).1.waitFor .crashed).1
        ended).setStanding id (.awaitingPhase ready crashed)) := fun ended _ _ =>
    (setSupervisor ended ((Supervisor.same_waitFor _ _).trans (Supervisor.same_waitFor _ _))).trans
      (Apart.setStanding _ id _).leaves
  unfold Session.awaitPhase
  split
  next => exact (Apart.endTask s id _).leaves
  next => exact (Apart.endTask s id _).leaves
  next => exact hwait ..
  next => exact hwait ..

theorem concludePhase (s : Session) (id : TaskId) (ready crashed : WaitId) :
    Leaves s (s.concludePhase id ready crashed) := by
  have hgive : Leaves s (s.setSupervisor
      ((s.server.supervisor.cancelWait ready).cancelWait crashed) []) :=
    setSupervisor [] ((Supervisor.same_cancelWait _ _).trans (Supervisor.same_cancelWait _ _))
  unfold Session.concludePhase
  dsimp only
  split
  next => exact hgive.trans (Apart.endTask _ id _).leaves
  next => exact hgive.trans (Apart.endTask _ id _).leaves
  next => exact hgive.trans (Apart.endTask _ id _).leaves

theorem phaseEnded (s : Session) (id : TaskId) : Leaves s (s.phaseEnded id) := by
  unfold Session.phaseEnded
  split
  next =>
    refine (Apart.setStanding s id _).leaves.trans (Apart.leaves (.enqueue _ fun n hn => ?_))
    rw [List.mem_singleton.mp hn]
    exact ⟨by rintro _ ⟨⟩, fun pid hp => by cases hp⟩
  next => exact refl s

theorem resume (h : Runners ns s) (id : TaskId) : Leaves s (s.resume id) := by
  unfold Session.resume
  split
  next => exact (Apart.concludeNews s id _).leaves
  next => exact concludePhase s id _ _
  next => exact (Apart.useServer h id _).leaves
  next => exact refl s

end Leaves

/-! ## What a notice does to the server -/

/-- What a notice can do to the server. -/
inductive Service (n : Notice) (s : Session) : Session → Prop
  | leaves {t : Session} (idle : n.Idle s) (leaves : Leaves s t) : Service n s t
  | reads {r : StreamReader} (notice : n = .wake (.output r.pid r.stream))
      (reader : r ∈ s.server.supervisor.readers) : Service n s (s.readServer r)
  | awaits {pid : Pid} {w : World} (notice : n = .wake (.exit pid))
      (held : s.server.supervisor.held = some pid)
      (alive : s.world.awaitExit pid = (w, none)) : Service n s { s with world := w }
  | ends {pid : Pid} {w : World} {code : ExitCode} {supervisor : Supervisor} {ended : List WaitId}
      (notice : n = .wake (.exit pid)) (held : s.server.supervisor.held = some pid)
      (gone : s.world.awaitExit pid = (w, some code))
      (crash : s.server.supervisor.processEnded pid = .ok (supervisor, ended)) :
      Service n s (s.setSupervisor supervisor ended)
  | starts {u v t : Session} {call : Call} {stdout stderr : LineUse} {outcome : Except Failure Unit}
      (idle : n.Idle s) (before : u = s ∧ stdout ≠ .announced ∨ u = s.unannounced)
      (quiet : stderr ≠ .announced)
      (start : u.superviseCall call stdout stderr = (v, outcome)) (leaves : Leaves v t) :
      Service n s t

theorem lineUseOf_ne_announced (isOfInterest : Bool) : lineUseOf isOfInterest ≠ .announced := by
  cases isOfInterest <;> simp [lineUseOf]

theorem begin_service (h : Runners ns s) (id : TaskId) :
    Service (.begin id) s (s.begin id) := by
  have hidle : (Notice.begin id).Idle s := by rintro r - ⟨⟩
  have hstart : ∀ {u outcome t}, s.startServer = (u, outcome) → Leaves u t →
      Service (.begin id) s t := fun hu ht =>
    .starts (u := s.unannounced) hidle (.inr rfl) (by decide) hu ht
  unfold begin
  split
  next request hk =>
    split
    next => exact .leaves hidle (Apart.endTask s id _).leaves
    next =>
      split
      next =>
        split
        next =>
          split
          · exact .leaves hidle (.requireServer h id)
          · exact .leaves hidle (Apart.launch h id _ _ _).leaves
        next => exact .leaves hidle (.requireServer h id)
      next => exact .leaves hidle (Apart.endTask s id _).leaves
    next => exact .leaves hidle (Apart.launch h id _ _ _).leaves
    next =>
      split
      next => exact .leaves hidle (Apart.awaitNews s id _).leaves
      next => exact .leaves hidle (Apart.answerNews s id).leaves
    next =>
      split
      next => exact .leaves hidle (Apart.awaitNews s id _).leaves
      next => exact .leaves hidle (Apart.answerNews s id).leaves
    next => exact .leaves hidle (.requireServer h id)
    next => exact .leaves hidle (.awaitPhase s id)
    next =>
      rcases hu : s.startServer with ⟨u, outcome⟩
      cases outcome with
      | ok => exact hstart hu (Apart.endTask u id _).leaves
      | error => exact hstart hu (Apart.endTask u id _).leaves
    next call stdout stderr =>
      rcases hu : s.superviseCall call (lineUseOf stdout) (lineUseOf stderr) with ⟨u, outcome⟩
      have hleaves : Leaves u (endStart id (u, outcome)) := by
        cases outcome with
        | ok => exact (Apart.endTask u id _).leaves
        | error => exact (Apart.endTask u id _).leaves
      exact .starts hidle (.inl ⟨rfl, lineUseOf_ne_announced stdout⟩)
        (lineUseOf_ne_announced stderr) hu hleaves
    next =>
      split
      next u hu => exact hstart hu (.awaitPhase u id)
      next u why hu => exact hstart hu (Apart.endTask u id _).leaves
    next => exact .leaves hidle (Apart.awaitNews s id _).leaves
  next => exact .leaves hidle (.refl s)

theorem read_service (h : Runners ns s) (pid : Pid) (stream : Stream) :
    Service (.wake (.output pid stream)) s (s.read pid stream) := by
  unfold read
  split
  next r hr =>
    obtain ⟨hmem, rfl⟩ := mem_runs_of_run? hr
    refine .leaves ?_ (Apart.readVerifier h hmem stream).leaves
    intro q hq he
    injection he with he
    injection he with hpid
    exact h.apart r hmem (.inr ⟨q, hq, hpid.symm⟩)
  next r hr hreader =>
    have hmem := List.mem_of_find?_eq_some hreader
    obtain ⟨rfl, rfl⟩ : r.pid = pid ∧ r.stream = stream := by simpa using List.find?_some hreader
    exact .reads rfl hmem
  next hreader =>
    refine .leaves ?_ (.refl s)
    rintro q hq ⟨⟩
    simpa using List.find?_eq_none.mp hreader q hq

/-- The end of a process matters to the server if the process is its own. -/
theorem awaitExit_service (h : Runners ns s) (hk : s.server.supervisor.Kept) (pid : Pid)
    (hn : n = .wake (.exit pid) ∨ n = .outputEnded pid ∧ ¬ s.Serves pid) :
    Service n s (s.awaitExit pid) := by
  have htouch := World.touches_awaitExit s.world pid
  have hidle : n.Idle s := by
    rcases hn with rfl | ⟨rfl, -⟩
    · rintro r - ⟨⟩
    · rintro r - ⟨⟩
  unfold awaitExit
  split
  next => exact .leaves hidle (Apart.finishRun s _ _ _).leaves
  next w r id hw hr ht =>
    obtain ⟨hmem, rfl⟩ := mem_runs_of_run? hr
    rw [hw] at htouch
    exact .leaves hidle
      ((Apart.touch htouch (h.apart r hmem)).trans (.setStanding _ id _)).leaves
  next w code hw hother =>
    cases he : s.server.supervisor.processEnded pid with
    | error e => exact .leaves hidle (.refl s)
    | ok result =>
      obtain ⟨supervisor, ended⟩ := result
      dsimp only
      by_cases hheld : s.server.supervisor.held = some pid
      · rcases hn with rfl | ⟨-, hn⟩
        · exact .ends rfl hheld hw he
        · exact absurd (.inl hheld) hn
      · rw [Supervisor.processEnded, if_neg hheld] at he
        cases he
        exact .leaves hidle (.setSupervisor _ (.refl _))
  next w hw hother =>
    rw [hw] at htouch
    by_cases hheld : s.server.supervisor.held = some pid
    · rcases hn with rfl | ⟨-, hn⟩
      · exact .awaits rfl hheld hw
      · exact absurd (.inl hheld) hn
    · refine .leaves hidle (Apart.leaves (.touch htouch fun hp => ?_))
      rcases hp with hp | ⟨r, hr, rfl⟩
      · exact hheld hp
      · exact hheld (hk.readers r hr)

/-- **What a notice does to the server** in a session that is sound. -/
theorem react_service (h : Sound (n :: ns) s) (hk : s.server.supervisor.Kept)
    (hout : ∀ pid, n = .outputEnded pid → ¬ s.Serves pid) : Service n s (s.react n) := by
  cases n with
  | begin id => exact begin_service h.runners id
  | wake wake =>
    cases wake with
    | output pid stream => exact read_service h.runners pid stream
    | exit pid => exact awaitExit_service h.runners hk pid (.inl rfl)
  | streamEnded pid =>
    refine .leaves (by rintro r - ⟨⟩) (Apart.streamEnded h.runners ?_).leaves
    exact h.runners.noticed pid List.mem_cons_self
  | outputEnded pid => exact awaitExit_service h.runners hk pid (.inr ⟨rfl, hout pid rfl⟩)
  | phaseEnded id => exact .leaves (by rintro r - ⟨⟩) (.phaseEnded s id)
  | startupEnded id => exact .leaves (by rintro r - ⟨⟩) (Apart.startupEnded s id).leaves
  | resume id => exact .leaves (by rintro r - ⟨⟩) (.resume h.runners id)

end Session

end VerifierHost
