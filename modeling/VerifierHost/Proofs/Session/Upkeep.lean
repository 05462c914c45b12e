import VerifierHost.Proofs.Server.Attending

/-! # What is done about the server beside the runs

While a run goes on the server is started, read, waited for and stopped. From one session to another
where nothing else was done (`Session.Upkeep`), no notice came into the queue about a process that
is neither the server's nor new, and no task was added but a startup. -/

namespace VerifierHost

theorem Task.Passes.request_eq {k k' : Task} (h : k.Passes k') : k'.request = k.request := by
  rcases h with rfl | ⟨hr, -⟩
  · rfl
  · exact hr

namespace Session

/-- From one session to another nothing has happened but to the server. -/
structure Upkeep (s t : Session) : Prop extends Aside s t where
  about : ∀ n ∈ t.queue, n ∈ s.queue ∨ ∀ pid, n.pid? = some pid →
    s.Serves pid ∨ s.world.processes.length < pid ∧ pid ≤ t.world.processes.length
  recruits : ∀ i k, s.task? i = none → t.task? i = some k → k.request = .startup

variable {s t u : Session} {id : TaskId} {k : Task} {pid : Pid} {n : Notice}

namespace Upkeep

/-- Nobody was added to the tasks. -/
theorem of_aside (h : Aside s t) (htasks : t.tasks.length = s.tasks.length)
    (about : ∀ n ∈ t.queue, n ∈ s.queue ∨ ∀ pid, n.pid? = some pid →
      s.Serves pid ∨ s.world.processes.length < pid ∧ pid ≤ t.world.processes.length) :
    Upkeep s t := by
  refine ⟨h, about, fun i k hn hk => ?_⟩
  have hle := List.getElem?_eq_none_iff.mp hn
  exact absurd (List.getElem?_eq_some_iff.mp hk).1 (Nat.not_lt.mpr (htasks ▸ hle))

/-- What came into the queue is not about processes. -/
theorem of_silent {more : List Notice} (h : Aside s t)
    (htasks : t.tasks.length = s.tasks.length) (hqueue : t.queue = s.queue ++ more)
    (hmore : ∀ n ∈ more, n.pid? = none) : Upkeep s t := by
  refine of_aside h htasks fun n hn => ?_
  rw [hqueue] at hn
  refine (List.mem_append.mp hn).imp_right fun hn pid hp => ?_
  cases (hmore n hn).symm.trans hp

/-- Nothing came into the queue. -/
theorem of_queue (h : Aside s t) (htasks : t.tasks.length = s.tasks.length)
    (hqueue : t.queue = s.queue) : Upkeep s t :=
  of_silent h htasks (hqueue.trans (List.append_nil _).symm) fun _ hn => absurd hn List.not_mem_nil

theorem refl (s : Session) : Upkeep s s := of_queue (.refl s) rfl rfl

theorem trans (h : Upkeep s t) (h' : Upkeep t u) : Upkeep s u where
  toAside := h.toAside.trans h'.toAside
  about n hn := by
    rcases h'.about n hn with hn | habout
    · exact (h.about n hn).imp_right fun habout pid hp =>
        (habout pid hp).imp_right fun hb => ⟨hb.1, Nat.le_trans hb.2 h'.length⟩
    · refine .inr fun pid hp => ?_
      rcases habout pid hp with hs | ⟨hnew, hle⟩
      · exact (h.serves pid hs).imp_right fun hb => ⟨hb.1, Nat.le_trans hb.2 h'.length⟩
      · exact .inr ⟨Nat.lt_of_le_of_lt h.length hnew, hle⟩
  recruits i k hn hk := by
    cases ht : t.task? i with
    | none => exact h'.recruits i k ht hk
    | some k' =>
      obtain ⟨k'', hk'', hp⟩ := h'.old i k' ht
      cases hk.symm.trans hk''
      exact hp.request_eq.trans (h.recruits i k' hn ht)

/-! ## One step -/

theorem setStanding {standing : Standing} (hk : s.task? id = some k)
    (hf : k.standing = .queued ∨ k.standing.OnServer)
    (ho : standing.IsEnded ∨ standing.OnServer ∧ ¬ k.request.AsksNews) :
    Upkeep s (s.setStanding id standing) := by
  refine of_queue (Aside.setStanding fun k' hk' => ?_) (List.length_modify ..) rfl
  cases hk.symm.trans hk'
  exact ⟨hf, ho⟩

theorem endTask (hk : s.task? id = some k) (hf : k.standing = .queued ∨ k.standing.OnServer)
    (answer : Answer) : Upkeep s (s.endTask id answer) := by
  refine of_silent (.endTask fun k' hk' => ?_) (List.length_modify ..) rfl fun n hn => ?_
  · cases hk.symm.trans hk'
    exact hf
  · obtain ⟨i, -, rfl⟩ := List.mem_map.mp hn
    rfl

theorem setSupervisor {supervisor : Supervisor} {ended : List WaitId}
    (hheld : supervisor.held = s.server.supervisor.held ∨ supervisor.held = none)
    (hreaders : ∀ r ∈ supervisor.readers, r ∈ s.server.supervisor.readers) :
    Upkeep s (s.setSupervisor supervisor ended) :=
  of_silent (.setSupervisor hheld hreaders) rfl (s.setSupervisor_queue supervisor ended)
    fun _ hn => pid?_phaseNotices hn

theorem addStartup (s : Session) : Upkeep s (s.addTask .startup).1 where
  toAside := .addTask s .startup
  about n hn := (List.mem_append.mp hn).imp_right fun hn pid hp => by
    rw [List.mem_singleton.mp hn] at hp
    cases hp
  recruits i k hn hk := by
    rcases task?_added_cases rfl hk with hk | ⟨-, rfl⟩
    · cases hn.symm.trans hk
    · rfl

/-! ## Stopping and starting -/

theorem kill (hpid : s.Serves pid) : Upkeep s (s.kill pid) := by
  refine of_aside (.kill hpid) rfl fun n hn => (List.mem_append.mp hn).imp_right fun hn => ?_
  obtain ⟨wake, hw, rfl⟩ := List.mem_map.mp hn
  intro q hq
  cases (World.pid?_kill hw).symm.trans hq
  exact .inl hpid

theorem spawn (s : Session) (call : Call) : Upkeep s (s.spawn call).1 := by
  refine of_queue (.spawn s call) (congrArg _ (spawn_tasks s call)) ?_
  obtain ⟨event, -, he⟩ := s.spawn_eq call
  rw [he]
  rfl

theorem stopSupervised (s : Session) : Upkeep s s.stopSupervised.1 := by
  have hstop : ∀ {u supervisor ended}, Upkeep s u →
      u.server.supervisor.stop = .ok (supervisor, ended) →
      Upkeep s (u.setSupervisor supervisor ended) := fun hu h =>
    hu.trans (setSupervisor (.inr (Supervisor.stop_ok h).1) (Supervisor.stop_ok h).2)
  unfold Session.stopSupervised
  cases hd : s.server.supervisor.doomed with
  | none =>
    dsimp only
    split
    next h => exact hstop (refl s) h
    next => exact refl s
  | some pid =>
    have hserves : s.Serves pid := by
      unfold Supervisor.doomed at hd
      split at hd
      next => exact .inl hd
      next => cases hd
    have habandon : Upkeep s { s with world := s.world.abandon pid } :=
      of_queue (.touch (World.touches_abandon s.world pid) (.inl hserves)) rfl rfl
    have hkill : Upkeep s ({ s with world := s.world.abandon pid }.kill pid) :=
      habandon.trans (kill hserves)
    dsimp only
    split
    next h => exact hstop hkill h
    next => exact hkill

/-- The process that is started is new, and so are those whom it wakes. -/
theorem superviseCall (s : Session) (call : Call) (stdout stderr : LineUse) :
    Upkeep s (s.superviseCall call stdout stderr).1 := by
  have hstop : Upkeep s (if s.server.supervisor.state.isLive then s.stopSupervised
      else (s, .ok ())).1 := by
    split
    next => exact stopSupervised s
    next => exact refl s
  refine of_aside (.superviseCall s call stdout stderr)
    (congrArg _ (superviseCall_tasks s call stdout stderr)) ?_
  unfold Session.superviseCall
  generalize (if s.server.supervisor.state.isLive then s.stopSupervised else (s, .ok ())) = stopped
    at hstop ⊢
  obtain ⟨u, outcome⟩ := stopped
  cases outcome with
  | error e => exact hstop.about
  | ok =>
    have hspawn := hstop.trans (spawn u call)
    dsimp only at hspawn ⊢
    split
    next v fault hs =>
      rw [hs] at hspawn
      exact hspawn.about
    next v pid hs =>
      obtain ⟨hlow, hhigh⟩ := Aside.spawn_pid hs
      rw [hs] at hspawn
      split
      next => exact hspawn.about
      next supervisor ended hadopt =>
        intro n hn
        rcases List.mem_append.mp hn with hn | hn
        · rcases List.mem_append.mp hn with hn | hn
          · exact hspawn.about n hn
          · refine .inr fun q hq => ?_
            cases (pid?_phaseNotices hn).symm.trans hq
        · refine .inr fun q hq => .inr ?_
          have hq : q = pid := by
            simp only [List.mem_cons, List.not_mem_nil, or_false] at hn
            rcases hn with rfl | rfl | rfl
            · exact (Option.some.inj hq).symm
            · exact (Option.some.inj hq).symm
            · exact (Option.some.inj hq).symm
          rw [hq]
          exact ⟨Nat.lt_of_le_of_lt hstop.length hlow, hhigh⟩

theorem startServer (s : Session) : Upkeep s s.startServer.1 := by
  have hserver : Upkeep s s.unannounced :=
    of_queue (.of_server rfl rfl rfl rfl rfl rfl fun _ h => h) rfl rfl
  exact hserver.trans (superviseCall _ _ _ _)

/-! ## What tasks do about the server -/

theorem endStart {result : Session × Except Failure Unit} (h : Upkeep s result.1)
    (hk : result.1.task? id = some k) (hf : k.standing = .queued ∨ k.standing.OnServer) :
    Upkeep s (Session.endStart id result) := by
  obtain ⟨t, outcome⟩ := result
  cases outcome with
  | ok => exact h.trans (endTask hk hf _)
  | error why => exact h.trans (endTask hk hf _)

theorem awaitPhase (hk : s.task? id = some k) (hf : k.standing = .queued ∨ k.standing.OnServer)
    (ha : ¬ k.request.AsksNews) : Upkeep s (s.awaitPhase id) := by
  have hwait : ∀ ended ready crashed, Upkeep s
      ((s.setSupervisor ((s.server.supervisor.waitFor .ready).1.waitFor .crashed).1
        ended).setStanding id (.awaitingPhase ready crashed)) := by
    intro ended ready crashed
    have hsame := (Supervisor.same_waitFor s.server.supervisor .ready).trans
      (Supervisor.same_waitFor _ .crashed)
    refine (setSupervisor (.inl hsame.held) fun r hr => ?_).trans
      (setStanding (k := k) hk hf (.inr ⟨trivial, ha⟩))
    exact hsame.readers ▸ hr
  unfold Session.awaitPhase
  split
  next => exact endTask hk hf _
  next => exact endTask hk hf _
  next => exact hwait ..
  next => exact hwait ..

theorem concludePhase {ready crashed : WaitId} (hk : s.task? id = some k)
    (hf : k.standing = .queued ∨ k.standing.OnServer) :
    Upkeep s (s.concludePhase id ready crashed) := by
  have hgive : Upkeep s (s.setSupervisor
      ((s.server.supervisor.cancelWait ready).cancelWait crashed) []) :=
    setSupervisor (.inl rfl) fun _ hr => hr
  have hdealt : ∀ answer, Upkeep s ((s.setSupervisor
      ((s.server.supervisor.cancelWait ready).cancelWait crashed) []).endTask id answer) :=
    fun answer => hgive.trans (endTask (by exact hk) hf answer)
  unfold Session.concludePhase
  dsimp only
  split
  next => exact hdealt _
  next => exact hdealt _
  next => exact hdealt _

theorem joinStartup (s : Session) : Upkeep s s.joinStartup.1 := by
  have hadd : Upkeep s { (s.addTask .startup).1 with startup := some (s.addTask .startup).2 } :=
    (addStartup s).trans (of_queue (.of_server rfl rfl rfl rfl rfl rfl fun _ h => h) rfl rfl)
  unfold Session.joinStartup
  split
  next =>
    split
    next => exact hadd
    next => exact refl s
  next => exact hadd

/-- A task that waits for the server goes on later. -/
theorem resumesLater (hk : s.task? id = some k) (hf : k.standing.OnServer)
    (ha : ¬ k.request.AsksNews) {standing : Standing} (ho : standing.OnServer) :
    Upkeep s ((s.setStanding id standing).enqueue [.resume id]) := by
  refine of_silent (resumes_later hk hf ha ho) (List.length_modify ..) rfl fun n hn => ?_
  rw [List.mem_singleton.mp hn]
  rfl

theorem phaseEnded {notices : List Notice} (h : Waiters notices s) (id : TaskId) :
    Upkeep s (s.phaseEnded id) := by
  unfold Session.phaseEnded
  split
  next hs =>
    obtain ⟨k, hk, hs⟩ := Option.map_eq_some_iff.mp hs
    have hon : k.standing.OnServer := hs ▸ trivial
    exact resumesLater hk hon (h.aloof id k hk hon) trivial
  next => exact refl s

theorem startupEnded {notices : List Notice} (h : Waiters notices s) (id : TaskId) :
    Upkeep s (s.startupEnded id) := by
  unfold Session.startupEnded
  split
  next hs =>
    obtain ⟨k, hk, hs⟩ := Option.map_eq_some_iff.mp hs
    have hon : k.standing.OnServer := hs ▸ trivial
    split
    next => exact resumesLater hk hon (h.aloof id k hk hon) trivial
    next => exact refl s
  next => exact refl s

/-! ## What the server's process brings about -/

theorem readServer {r : StreamReader} (hr : r ∈ s.server.supervisor.readers) :
    Upkeep s (s.readServer r) := by
  obtain ⟨-, -, htasks, -, hqueue⟩ := s.readServer_same r
  exact of_silent (readServer_aside s hr) (congrArg _ htasks) hqueue fun _ hn =>
    pid?_phaseNotices hn

/-- A process has ended, or its end is awaited, that is no run's. -/
theorem awaitExit (hpid : pid ∉ s.engine.pids) : Upkeep s (s.awaitExit pid) := by
  have hrun : s.engine.run? pid = none := by
    cases hr : s.engine.run? pid with
    | none => rfl
    | some r =>
      obtain ⟨hmem, rfl⟩ := mem_runs_of_run? hr
      exact absurd (List.mem_map_of_mem hmem) hpid
  have htouch := World.touches_awaitExit s.world pid
  unfold Session.awaitExit
  rw [hrun]
  cases hw : s.world.awaitExit pid with
  | mk w code =>
    rw [hw] at htouch
    cases code with
    | none => exact of_queue (.touch htouch (.inr hpid)) rfl rfl
    | some code =>
      dsimp only
      cases he : s.server.supervisor.processEnded pid with
      | error e => exact refl s
      | ok result =>
        obtain ⟨hheld, hreaders⟩ := Supervisor.processEnded_ok he
        exact setSupervisor hheld fun r hr => hreaders ▸ hr

end Upkeep

/-! ## Notices about processes -/

/-- Whatever will be done about processes is about some that were started. -/
def Dated (notices : List Notice) (s : Session) : Prop :=
  ∀ n ∈ notices, ∀ pid, n.pid? = some pid → pid ≤ s.world.processes.length

variable {notices : List Notice}

theorem Leaves.dated (hl : Leaves s t) (h : Dated s.queue s) : Dated t.queue t := by
  obtain ⟨more, hq, hmore⟩ := hl.queue
  intro n hn pid hp
  rw [hq] at hn
  rcases List.mem_append.mp hn with hn | hn
  · exact Nat.le_trans (h n hn pid hp) hl.length
  · exact (hmore n hn pid hp).1

theorem Upkeep.dated (hu : Upkeep s t) (h : Dated s.queue s)
    (hserved : ∀ pid, s.Serves pid → pid ≤ s.world.processes.length) : Dated t.queue t := by
  intro n hn pid hp
  rcases hu.about n hn with hn | habout
  · exact Nat.le_trans (h n hn pid hp) hu.length
  · rcases habout pid hp with hs | ⟨-, hle⟩
    · exact Nat.le_trans (hserved pid hs) hu.length
    · exact hle

/-- The end of a process is looked for: if it is a run's, nothing is done about the server. -/
theorem Apart.awaitExit (h : Runners notices s) (hpid : pid ∈ s.engine.pids) :
    Apart s (s.awaitExit pid) := by
  obtain ⟨r, hr, rfl⟩ := List.mem_map.mp hpid
  obtain ⟨id, k, hk, hprogress⟩ := h.running r hr
  have htouch := World.touches_awaitExit s.world r.pid
  unfold Session.awaitExit
  rw [h.run?_eq hr]
  cases ht : s.taskOfRun? r.pid with
  | none => exact absurd hprogress.runs? (taskOfRun?_none ht hk)
  | some id =>
    cases hw : s.world.awaitExit r.pid with
    | mk w code =>
      rw [hw] at htouch
      cases code with
      | some code => exact .finishRun s id r code
      | none => exact (touch htouch (h.apart r hr)).trans (.setStanding _ id _)

theorem Service.dated (hservice : Service n s t) (h : Dated s.queue s)
    (hserved : ∀ pid, s.Serves pid → pid ≤ s.world.processes.length) : Dated t.queue t := by
  cases hservice with
  | leaves _ hl => exact hl.dated h
  | reads _ hr => exact (Upkeep.readServer hr).dated h hserved
  | @awaits pid w _ _ alive =>
    have htouch := World.touches_awaitExit s.world pid
    rw [alive] at htouch
    exact fun m hm p hp => htouch.length.symm ▸ h m hm p hp
  | ends _ _ _ crash =>
    obtain ⟨hheld, hreaders⟩ := Supervisor.processEnded_ok crash
    exact (Upkeep.setSupervisor hheld fun r hr => hreaders ▸ hr).dated h hserved
  | @starts u v _ call stdout stderr outcome _ before _ start hl =>
    have hstarts := Upkeep.superviseCall u call stdout stderr
    rw [start] at hstarts
    refine hl.dated ?_
    rcases before with ⟨rfl, -⟩ | rfl
    · exact hstarts.dated h hserved
    · exact hstarts.dated h hserved

theorem awaitExit_dated (hs : Runners notices s) (h : Dated s.queue s) (pid : Pid) :
    Dated (s.awaitExit pid).queue (s.awaitExit pid) := by
  by_cases hpid : pid ∈ s.engine.pids
  · exact (Apart.awaitExit hs hpid).leaves.dated h
  · exact (Upkeep.awaitExit hpid).dated h hs.served

/-- A notice leads to notices about processes that were started. -/
theorem react_dated (hs : Sound (n :: s.queue) s) (h : Dated s.queue s) :
    Dated (s.react n).queue (s.react n) := by
  have hserved := hs.runners.served
  cases n with
  | begin id => exact (begin_service hs.runners id).dated h hserved
  | wake wake =>
    cases wake with
    | output pid stream => exact (read_service hs.runners pid stream).dated h hserved
    | exit pid => exact awaitExit_dated hs.runners h pid
  | streamEnded pid =>
    exact (Apart.streamEnded hs.runners (hs.runners.noticed pid List.mem_cons_self)).leaves.dated h
  | outputEnded pid => exact awaitExit_dated hs.runners h pid
  | phaseEnded id => exact (Leaves.phaseEnded s id).dated h
  | startupEnded id => exact (Apart.startupEnded s id).leaves.dated h
  | resume id => exact (Leaves.resume hs.runners id).dated h

/-- Who is woken by a process waits for one that was started. -/
theorem Dated.woken (h : Dated s.queue s) {w : World} {wakes : List Wake}
    (htouch : World.Touches pid s.world w)
    (hwakes : ∀ wake ∈ wakes,
      (Notice.wake wake).pid? = some pid ∧ pid ≤ s.world.processes.length) :
    Dated (s.queue ++ wakes.map .wake) { s with world := w } := by
  intro n hn q hq
  show q ≤ w.processes.length
  rw [htouch.length]
  rcases List.mem_append.mp hn with hn | hn
  · exact h n hn q hq
  · obtain ⟨wake, hw, rfl⟩ := List.mem_map.mp hn
    obtain ⟨hpid, hle⟩ := hwakes wake hw
    cases hpid.symm.trans hq
    exact hle

theorem Dated.act (hs : Sound s.queue s) (h : Dated s.queue s) (a : Action) :
    Dated (s.act a).queue (s.act a) := by
  have hsane := hs.runners.sane
  cases a with
  | ask request => exact (Leaves.addTask s request).dated h
  | feed pid stream chunk =>
    refine h.woken (World.touches_feed s.world pid stream chunk) fun wake hw => ?_
    obtain ⟨rfl, hp⟩ := World.of_mem_feed hw
    exact ⟨rfl, hsane.le_of_process? (Option.eq_some_of_isSome hp)⟩
  | exit pid code time =>
    refine h.woken (World.touches_exit s.world pid code time) fun wake hw => ?_
    obtain ⟨hp, -⟩ := World.of_mem_exit hw
    exact ⟨World.pid?_exit hw, hsane.le_of_process? (Option.eq_some_of_isSome hp)⟩
  | step =>
    cases hq : s.queue with
    | nil =>
      rw [show s.act .step = s from step_nil hq]
      exact h
    | cons n rest =>
      rw [show s.act .step = _ from step_cons hq]
      rw [hq] at hs h
      exact react_dated (s := { s with queue := rest }) (hs.congr rfl rfl rfl rfl)
        fun m hm => h m (List.mem_cons_of_mem _ hm)

/-- **In every session that was started fresh** notices are about processes that were started. -/
theorem Fresh.dated (h : s.Fresh) (actions : List Action) :
    Dated (s.after actions).queue (s.after actions) := by
  have hboth : Sound (s.after actions).queue (s.after actions) ∧
      Dated (s.after actions).queue (s.after actions) := by
    refine after_induction (P := fun t => Sound t.queue t ∧ Dated t.queue t) ⟨h.sound, ?_⟩
      (fun t a ht => ⟨ht.1.act a, ht.2.act ht.1 a⟩) actions
    obtain ⟨_, _, _, _, _, _, _, _, name, rfl⟩ := h
    exact fun _ hn => absurd hn List.not_mem_nil
  exact hboth.2

end Session

end VerifierHost
