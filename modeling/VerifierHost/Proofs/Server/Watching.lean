import VerifierHost.Proofs.Server.Joining
import VerifierHost.Proofs.Session.Handling

/-! # Nobody who watches the server is forgotten

Any number of tasks may wait for the server to be ready or to crash, and a new wait takes the place
of an older one for the same state. Every task has waits of its own, and either they can still be
released or the task is about to be told (`Session.Watchers`). -/

namespace VerifierHost

namespace Phases

variable {p p' p'' : Phases ServerState} {state : ServerState} {ended ended' : List WaitId}
  {g : WaitId → Prop} {id w : WaitId}

/-- From one state to another every wait that a move could release still is one, has ended, or was
given up. -/
structure Yields (g : WaitId → Prop) (p p' : Phases ServerState) (ended : List WaitId) :
    Prop where
  known : ∀ w, (p.book.status? w).isSome → (p'.book.status? w).isSome
  hopes : ∀ state w, p.Hopes state w → p'.Hopes state w ∨ w ∈ ended ∨ g w

namespace Yields

theorem refl (p : Phases ServerState) : Yields g p p [] :=
  ⟨fun _ h => h, fun _ _ h => .inl h⟩

theorem trans (h : Yields g p p' ended) (h' : Yields g p' p'' ended') :
    Yields g p p'' (ended ++ ended') where
  known w hw := h'.known w (h.known w hw)
  hopes state w hw := by
    rcases h.hopes state w hw with hw | hm | hg
    · exact (h'.hopes state w hw).imp_right (·.imp_left (List.mem_append_right _))
    · exact .inr (.inl (List.mem_append_left _ hm))
    · exact .inr (.inr hg)

/-- A move releases the wait for its state. -/
theorem set (h : p.set? state = some (p', ended)) : Yields g p p' ended := by
  obtain ⟨-, -, hothers, hbook⟩ := set?_spec h
  refine ⟨fun w hw => ?_, fun other w hw => ?_⟩
  · rcases hbook w with ⟨-, he, -⟩ | ⟨-, he, -⟩
    · rw [he]
      rfl
    · rwa [he]
  · rcases hbook w with ⟨-, -, hm⟩ | ⟨hno, he, -⟩
    · exact .inr (.inl hm)
    · have hs : state ≠ other := by
        rintro rfl
        exact hno hw
      exact .inl ⟨he.trans hw.1, (hothers other hs).trans hw.2⟩

theorem issue (hwaiting : p'.waiting = p.waiting) {status : WaitStatus}
    (hbook : p'.book = (p.book.issue status).1) : Yields g p p' [] := by
  have hstatus : ∀ w, (p.book.status? w).isSome → p'.book.status? w = p.book.status? w := by
    intro w hw
    obtain ⟨status, hs⟩ := Option.isSome_iff_exists.mp hw
    rw [hbook]
    exact List.getElem?_append_left (List.getElem?_eq_some_iff.mp hs).1
  refine ⟨fun w hw => ?_, fun state w hw => .inl ⟨?_, ?_⟩⟩
  · rwa [hstatus w hw]
  · rw [hstatus w (by rw [hw.1]; rfl)]
    exact hw.1
  · rw [hwaiting]
    exact hw.2

/-- A new wait takes the place of the one before, which ends. -/
theorem waitFor (h : p.waitFor? state = some (p', id, ended)) :
    Yields g p p' ended ∧ p.book.status? id = none := by
  have hstate : state ∈ p.states := by
    unfold waitFor? at h
    split at h
    next hstate => exact hstate
    next => cases h
  by_cases hcurrent : p.current = state
  · rw [waitFor?, if_pos hstate, if_pos hcurrent] at h
    cases h
    exact ⟨issue rfl rfl, List.getElem?_eq_none (Nat.le_refl _)⟩
  · obtain ⟨_, _, _, he, -, -, hwaiting, hnew, -, hbook⟩ := waitFor?_spec hstate hcurrent
    cases he.symm.trans h
    refine ⟨⟨fun w hw => (hbook w hw).1, fun other w hw => ?_⟩, hnew⟩
    obtain ⟨-, hsame, hreplaced⟩ := hbook w (by rw [hw.1]; rfl)
    by_cases hself : p.waiting.get? state = some w
    · exact .inr (.inl (hreplaced hself hw.1))
    · have hs : state ≠ other := by
        rintro rfl
        exact hself hw.2
      refine .inl ⟨(hsame hself).trans hw.1, ?_⟩
      rw [hwaiting]
      exact (Table.get?_put_of_ne _ _ hs).trans hw.2

/-- One wait is given up. -/
theorem cancel (p : Phases ServerState) (hid : g id) : Yields g p (p.cancel id) [] := by
  refine ⟨fun w hw => WaitBook.isSome_status?_finish.trans hw, fun state w hw => ?_⟩
  by_cases he : id = w
  · exact .inr (.inr (he ▸ hid))
  · refine .inl ⟨?_, hw.2⟩
    show (p.book.finish id .cancelled).status? w = _
    rw [WaitBook.status?_finish, if_neg fun hc => he hc.2]
    exact hw.1

end Yields

/-- When all waits are cancelled nobody can hope for a state any more. -/
theorem Hopes.cancelled (h : p.Hopes state w) : w ∈ p.cancelAll.2 := by
  have hmem : w ∈ p.waiting.map Prod.snd := List.mem_map_of_mem (Table.mem_of_get? h.2)
  rcases p.book.finishAll_spec (p.waiting.map Prod.snd) cancelled_ne_pending w with
    ⟨-, -, hm⟩ | ⟨hno, -, -⟩
  · exact hm
  · exact absurd ⟨h.1, hmem⟩ hno

end Phases

/-- Whether a wait is one of those that a task has for states of the server. -/
def Standing.Owns (standing : Standing) (w : WaitId) : Prop :=
  ∃ ready crashed, standing.watched? = some (ready, crashed) ∧ (w = ready ∨ w = crashed)

theorem Standing.not_onTheWay_of_watched {standing : Standing}
    (h : standing.watched?.isSome = true) : ¬ standing.OnTheWay := by
  cases standing with
  | awaitingPhase | phaseCame => exact not_false
  | _ => cases h

theorem Standing.owns_of_watched? {standing : Standing} {ready crashed : WaitId}
    (h : standing.watched? = some (ready, crashed)) :
    standing.Owns ready ∧ standing.Owns crashed :=
  ⟨⟨ready, crashed, h, .inl rfl⟩, ready, crashed, h, .inr rfl⟩

namespace Supervisor

variable {s t : Supervisor} {state : ServerState} {ended : List WaitId} {pid : Pid}
  {g : WaitId → Prop}

theorem mark_yields (h : s.mark state = .ok (t, ended)) :
    Phases.Yields g s.phases t.phases ended := by
  unfold mark at h
  split at h
  next => cases h
  next =>
    split at h
    next => cases h
    next =>
      split at h
      next hset => cases h; exact .set hset
      next => cases h; exact .refl _

theorem setReady_yields (h : s.setReady = .ok (t, ended)) :
    Phases.Yields g s.phases t.phases ended := by
  unfold setReady at h
  split at h
  next => exact mark_yields h
  next => cases h; exact .refl _

theorem processEnded_yields (h : s.processEnded pid = .ok (t, ended)) :
    Phases.Yields g s.phases t.phases ended := by
  unfold processEnded at h
  split at h
  next => exact mark_yields (s := { s with held := none }) h
  next => cases h; exact .refl _

theorem waitFor_yields (s : Supervisor) (state : ServerState) :
    Phases.Yields g s.phases (s.waitFor state).1.phases (s.waitFor state).2.2 ∧
      s.phases.book.status? (s.waitFor state).2.1 = none := by
  unfold waitFor
  split
  next h => exact Phases.Yields.waitFor h
  next => exact ⟨.issue rfl rfl, List.getElem?_eq_none (Nat.le_refl _)⟩

/-- Who begins to watch has waits of its own, which can be released. -/
theorem watch (hstates : s.phases.states = ServerState.all) (hcalm : s.phases.Calm)
    (hready : s.state ≠ .ready) (hcrashed : s.state ≠ .crashed) :
    let (t, ready, replaced) := s.waitFor .ready
    let (u, crashed, more) := t.waitFor .crashed
    Phases.Yields g s.phases u.phases (replaced ++ more) ∧ u.phases.Calm ∧
      s.phases.book.status? ready = none ∧ s.phases.book.status? crashed = none ∧
      ready ≠ crashed ∧ u.phases.Hopes .ready ready ∧ u.phases.Hopes .crashed crashed := by
  obtain ⟨hfirst, hnew⟩ := s.waitFor_yields (g := g) .ready
  obtain ⟨hsecond, hnewer⟩ := (s.waitFor .ready).1.waitFor_yields (g := g) .crashed
  have hunknown : s.phases.book.status? ((s.waitFor .ready).1.waitFor .crashed).2.1 = none := by
    by_contra hknown
    have hknown := hfirst.known _ (Option.isSome_iff_ne_none.mpr hknown)
    rw [hnewer] at hknown
    cases hknown
  obtain ⟨hquiet, hwatches, hcpending, hrpending⟩ := watches_waitFor hstates hcalm hready hcrashed
  exact ⟨hfirst.trans hsecond, hquiet, hnew, hunknown, hwatches.distinct,
    hwatches.ready.hopes hrpending, hwatches.crashed.hopes hcpending⟩

end Supervisor

theorem SharedServer.takeLines_yields {g : WaitId → Prop} (s : SharedServer) (lineUse : LineUse)
    (lines : List Text) : Phases.Yields g s.supervisor.phases
      (s.takeLines lineUse lines).1.supervisor.phases (s.takeLines lineUse lines).2 := by
  induction lines generalizing s with
  | nil => exact .refl _
  | cons line rest ih =>
    unfold takeLines
    split
    next => exact .refl _
    next s' ended h =>
      have hline : Phases.Yields g s.supervisor.phases s'.supervisor.phases ended := by
        unfold takeLine at h
        split at h
        · split at h
          next => cases h
          next hready => cases h; exact Supervisor.setReady_yields hready
        · cases h
          exact .refl _
      exact hline.trans (ih s')

namespace Session

variable {s t u : Session} {n : Notice} {ns ns' : List Notice} {id i j : TaskId} {k : Task}
  {ready crashed : WaitId} {g : WaitId → Prop} {supervisor : Supervisor} {ended : List WaitId}

/-- From one session to another everyone who waits for the server can still be told, unless it is
about to be told or has given that up. -/
structure Minds (g : WaitId → Prop) (s t : Session) : Prop where
  calm : s.server.supervisor.phases.Calm → t.server.supervisor.phases.Calm
  known : ∀ w, (s.server.supervisor.phases.book.status? w).isSome →
    (t.server.supervisor.phases.book.status? w).isSome
  hopes : ∀ state w, s.server.supervisor.phases.Hopes state w →
    t.server.supervisor.phases.Hopes state w ∨ g w ∨ ∀ i k ready crashed, s.task? i = some k →
      k.standing = .awaitingPhase ready crashed → ready = w ∨ crashed = w → .phaseEnded i ∈ t.queue

namespace Minds

theorem of_phases (h : t.server.supervisor.phases = s.server.supervisor.phases) :
    Minds g s t := by
  refine ⟨?_, ?_, ?_⟩ <;> rw [h]
  · exact id
  · exact fun _ hw => hw
  · exact fun _ _ hw => .inl hw

theorem refl (s : Session) : Minds g s s := of_phases rfl

theorem trans (h : Minds g s t) (h' : Minds g t u) (htasks : t.tasks = s.tasks)
    (hqueue : ∀ m ∈ t.queue, m ∈ u.queue) : Minds g s u where
  calm hc := h'.calm (h.calm hc)
  known w hw := h'.known w (h.known w hw)
  hopes state w hw := by
    rcases h.hopes state w hw with hw | hg | htold
    · refine (h'.hopes state w hw).imp_right (·.imp_right fun htold i k ready crashed hk => ?_)
      exact htold i k ready crashed ((task?_congr htasks i).trans hk)
    · exact .inr (.inl hg)
    · exact .inr (.inr fun i k ready crashed hk hs hor =>
        hqueue _ (htold i k ready crashed hk hs hor))

/-- Whoever has the same tasks and waits may stand in at the start. -/
theorem of_start (h : Minds g t u) (htasks : t.tasks = s.tasks)
    (hphases : t.server.supervisor.phases = s.server.supervisor.phases) : Minds g s u where
  calm hc := h.calm (hphases ▸ hc)
  known w hw := h.known w (hphases ▸ hw)
  hopes state w hw := by
    refine (h.hopes state w (hphases ▸ hw)).imp_right (·.imp_right fun htold i k ready crashed hk =>
      htold i k ready crashed ((task?_congr htasks i).trans hk))

theorem setSupervisor (hy : Phases.Yields g s.server.supervisor.phases supervisor.phases ended)
    (hcalm : s.server.supervisor.phases.Calm → supervisor.phases.Calm) :
    Minds g s (s.setSupervisor supervisor ended) := by
  refine ⟨hcalm, hy.known, fun state w hw => ?_⟩
  rcases hy.hopes state w hw with hw | hm | hg
  · exact .inl hw
  · refine .inr (.inr fun i k ready crashed hk hs hor => List.mem_append_right _ ?_)
    refine mem_phaseNotices_of hk hs (hor.imp ?_ ?_)
    · rintro rfl
      exact hm
    · rintro rfl
      exact hm
  · exact .inr (.inl hg)

/-- The supervisor moves to a state. -/
theorem mark {m : Supervisor} {state : ServerState}
    (hphases : m.phases = s.server.supervisor.phases) (h : m.mark state = .ok (supervisor, ended)) :
    Minds g s (s.setSupervisor supervisor ended) :=
  setSupervisor (hphases ▸ Supervisor.mark_yields h) (hphases ▸ (Supervisor.mark_moves h).calm)

theorem stop (h : s.server.supervisor.stop = .ok (supervisor, ended)) :
    Minds g s (s.setSupervisor supervisor ended) :=
  mark (m := { s.server.supervisor with
    held := none
    readers := s.server.supervisor.readers.filter fun r =>
      s.server.supervisor.doomed ≠ some r.pid }) rfl h

theorem adopt {pid : Pid} {stdout stderr : LineUse}
    (h : s.server.supervisor.adopt pid stdout stderr = .ok (supervisor, ended)) :
    Minds g s (s.setSupervisor supervisor ended) :=
  mark (m := { s.server.supervisor with
    held := some pid
    readers := s.server.supervisor.readers ++
      [.start pid .stdout stdout, .start pid .stderr stderr] }) rfl h

theorem stopSupervised (s : Session) : Minds g s s.stopSupervised.1 := by
  unfold Session.stopSupervised
  cases s.server.supervisor.doomed with
  | none =>
    dsimp only
    split
    next h => exact stop h
    next => exact refl s
  | some pid =>
    dsimp only
    split
    next h =>
      exact of_start (t := { s with world := s.world.abandon pid }.kill pid) (stop h) rfl rfl
    next => exact of_phases rfl

theorem superviseCall (s : Session) (call : Call) (stdout stderr : LineUse) :
    Minds g s (s.superviseCall call stdout stderr).1 := by
  obtain ⟨u, stopped, he, hu, htasks⟩ : ∃ u stopped, (if s.server.supervisor.state.isLive
      then s.stopSupervised else (s, .ok ())) = (u, stopped) ∧ Minds g s u ∧
        u.tasks = s.tasks := by
    split
    next => exact ⟨_, _, rfl, stopSupervised s, stopSupervised_tasks s⟩
    next => exact ⟨s, _, rfl, refl s, rfl⟩
  obtain ⟨result, -, hspawn⟩ := u.spawn_eq call
  -- to start a process is nothing to those who wait
  have hstarted : ∀ {v outcome}, u.spawn call = (v, outcome) → Minds g s v := by
    intro v outcome hv
    have hsame := hv.symm.trans hspawn
    have hqueue : v.queue = u.queue := congrArg (·.1.queue) hsame
    exact hu.trans (of_phases (congrArg (·.1.server.supervisor.phases) hsame)) htasks
      fun m hm => hqueue ▸ hm
  unfold Session.superviseCall
  rw [he]
  cases stopped with
  | error e => exact hu
  | ok =>
    dsimp only
    split
    next v fault hv => exact hstarted hv
    next v pid hv =>
      split
      next => exact hstarted hv
      next supervisor ended hadopt =>
        have htasks : v.tasks = s.tasks :=
          (congrArg (·.1.tasks) (hv.symm.trans hspawn)).trans htasks
        have hadopted := (hstarted hv).trans (adopt hadopt) htasks
          fun m hm => List.mem_append_left _ hm
        refine hadopted.trans (of_phases rfl) htasks fun m hm => List.mem_append_left _ hm

theorem startServer (s : Session) : Minds g s s.startServer.1 :=
  of_start (t := s.unannounced) (superviseCall s.unannounced s.serverCall .announced .dropped) rfl
    rfl

theorem readServer (s : Session) (r : StreamReader) : Minds g s (s.readServer r) := by
  obtain ⟨-, hserver, -, -, hqueue⟩ := s.readServer_same r
  generalize (r.read (s.world.collect r.pid r.stream).2.1 (s.world.collect r.pid r.stream).2.2)
    = reading at hserver hqueue
  have hread : Minds g s (s.setSupervisor
      (s.server.takeLines r.lineUse reading.2.1).1.supervisor
      (s.server.takeLines r.lineUse reading.2.1).2) :=
    setSupervisor (SharedServer.takeLines_yields ..) (SharedServer.takeLines_moves ..).calm
  refine hread.trans (of_phases ?_) rfl fun m hm => ?_
  · rw [hserver]
    rfl
  · rw [hqueue]
    exact hm

end Minds

/-- Who waits for a state of the server is told at once, or has waits that nobody else has. -/
theorem awaitPhase_watches (hg : s.server.supervisor.Guarded)
    (hc : s.server.supervisor.phases.Calm) (id : TaskId) : Minds g s (s.awaitPhase id) ∧
    ((∃ answer, s.awaitPhase id = s.endTask id answer) ∨ ∃ supervisor ready crashed ended,
      s.awaitPhase id =
        (s.setSupervisor supervisor ended).setStanding id (.awaitingPhase ready crashed) ∧
      s.server.supervisor.phases.book.status? ready = none ∧
      s.server.supervisor.phases.book.status? crashed = none ∧ ready ≠ crashed ∧
      supervisor.phases.Hopes .ready ready ∧ supervisor.phases.Hopes .crashed crashed) := by
  have hwatch := Supervisor.watch (g := g) hg.states hc
  unfold awaitPhase
  split
  next => exact ⟨.of_phases rfl, .inl ⟨_, rfl⟩⟩
  next => exact ⟨.of_phases rfl, .inl ⟨_, rfl⟩⟩
  all_goals
    next hstate =>
    rw [hstate] at hwatch
    obtain ⟨hyields, hcalm, hwaits⟩ := hwatch nofun nofun
    have hset := Minds.setSupervisor hyields fun _ => hcalm
    exact ⟨hset.trans (.of_phases rfl) rfl fun _ hm => hm, .inr ⟨_, _, _, _, rfl, hwaits⟩⟩

/-- Who has looked gives up the waits that it had. -/
theorem concludePhase_minds (s : Session) (id : TaskId) (hready : g ready)
    (hcrashed : g crashed) : Minds g s (s.concludePhase id ready crashed) := by
  have hgiven : Minds g s (s.setSupervisor
      ((s.server.supervisor.cancelWait ready).cancelWait crashed) []) :=
    .setSupervisor ((Phases.Yields.cancel _ hready).trans (.cancel _ hcrashed))
      fun hc => (hc.cancel ready).cancel crashed
  have hended : ∀ answer, Minds g s ((s.setSupervisor
      ((s.server.supervisor.cancelWait ready).cancelWait crashed) []).endTask id answer) :=
    fun answer => hgiven.trans (.of_phases rfl) rfl fun m hm => List.mem_append_left _ hm
  unfold concludePhase
  dsimp only
  split <;> exact hended _

theorem useServer_server (s : Session) (id : TaskId) (answer : Answer) :
    (s.useServer id answer).server = s.server := by
  unfold useServer
  split
  next path target _ _ address _ =>
    obtain ⟨_, -, -, hserver⟩ := Handles.launch s id path target address
    exact hserver
  next => split <;> rfl
  next => rfl

theorem requireServer_server (s : Session) (id : TaskId) :
    (s.requireServer id).server = s.server := by
  unfold requireServer
  split
  next => exact useServer_server ..
  next =>
    show s.joinStartup.1.server = s.server
    unfold joinStartup
    split
    next => split <;> rfl
    next => rfl

namespace Minds

theorem of_server (h : t.server = s.server) : Minds g s t :=
  of_phases (congrArg (·.supervisor.phases) h)

theorem awaitExit (s : Session) (pid : Pid) : Minds g s (s.awaitExit pid) := by
  unfold Session.awaitExit
  split
  next code r id _ _ _ =>
    obtain ⟨-, hserver, -⟩ := conclude_same
      { s with engine := (s.engine.finish r code s.world.clock).1 } id
      (s.engine.finish r code s.world.clock).2
    exact of_server hserver
  next => exact of_server rfl
  next =>
    split
    next h =>
      exact setSupervisor (Supervisor.processEnded_yields h) (Supervisor.processEnded_moves h).calm
    next => exact refl s
  next => exact of_server rfl

theorem read (s : Session) (pid : Pid) (stream : Stream) : Minds g s (s.read pid stream) := by
  unfold Session.read
  split
  next r _ =>
    unfold Session.readVerifier
    split
    next => exact refl s
    next => dsimp only; split <;> exact of_server rfl
  next r _ _ => exact readServer s r
  next => exact refl s

theorem begin (hg : s.server.supervisor.Guarded) (hc : s.server.supervisor.phases.Calm)
    (id : TaskId) : Minds g s (s.begin id) := by
  have hanswer : Minds g s (s.answerNews id) := by
    obtain ⟨findings, answer, he⟩ := s.answerNews_eq id
    rw [he]
    exact of_server rfl
  have hlaunch : ∀ path target address, Minds g s (s.launch id path target address) := by
    intro path target address
    obtain ⟨_, -, -, hserver⟩ := Handles.launch s id path target address
    exact of_server hserver
  have hend : ∀ result : Session × Except Failure Unit, Minds g s result.1 →
      result.1.tasks = s.tasks → Minds g s (endStart id result) := by
    rintro ⟨u, why | _⟩ hu htasks
    · exact hu.trans (of_server rfl) htasks fun m hm => List.mem_append_left _ hm
    · exact hu.trans (of_server rfl) htasks fun m hm => List.mem_append_left _ hm
  have hstart := startServer (g := g) s
  have htasks : s.startServer.1.tasks = s.tasks := superviseCall_tasks ..
  unfold Session.begin
  split
  next request hk =>
    split
    next => exact of_server rfl
    next =>
      split
      next =>
        split
        next =>
          split
          · exact of_server (requireServer_server s id)
          · exact hlaunch _ _ _
        next => exact of_server (requireServer_server s id)
      next => exact of_server rfl
    next => exact hlaunch _ _ _
    next =>
      split
      next => exact of_server rfl
      next => exact hanswer
    next =>
      split
      next => exact of_server rfl
      next => exact hanswer
    next => exact of_server (requireServer_server s id)
    next => exact (awaitPhase_watches hg hc id).1
    next => exact hend _ hstart htasks
    next => exact hend _ (superviseCall s ..) (superviseCall_tasks ..)
    next =>
      obtain ⟨-, hguarded⟩ := Handles.superviseCall (s := s.unannounced) hg s.serverCall
        .announced .dropped
      split
      next u hu =>
        rw [hu] at hstart htasks
        have hwatch := (awaitPhase_watches (s := u) (g := g)
          (congrArg (·.1.server.supervisor) hu ▸ hguarded) (hstart.calm hc) id).1
        have hidles : Idles (fun _ => True) (fun _ => True) u u := .refl u
        obtain ⟨_, -, -, -, hparts⟩ := Parts.awaitPhase hidles id
        obtain ⟨more, -, hqueue⟩ := hparts.queue
        refine hstart.trans hwatch htasks fun m hm => ?_
        rw [hqueue]
        exact List.mem_append_left _ (List.mem_append_left _ hm)
      next u why hu =>
        rw [hu] at hstart htasks
        exact hstart.trans (of_server rfl) htasks fun m hm => List.mem_append_left _ hm
    next => exact of_server rfl
  next => exact refl s

/-- **Whatever is noticed** everyone who waits for the server can still be told, but for who goes on
and gives up its own waits. -/
theorem react (hg : s.server.supervisor.Guarded) (hc : s.server.supervisor.phases.Calm) (n : Notice)
    (hgiven : ∀ id k ready crashed, n = .resume id → s.task? id = some k →
      k.standing = .phaseCame ready crashed → g ready ∧ g crashed) :
    Minds g s (s.react n) := by
  cases n with
  | begin id => exact begin hg hc id
  | wake wake =>
    cases wake with
    | output pid stream => exact read s pid stream
    | exit pid => exact awaitExit s pid
  | streamEnded pid =>
    refine of_server ?_
    show (s.streamEnded pid).server = s.server
    unfold Session.streamEnded
    split
    next => rfl
    next => split <;> rfl
  | outputEnded pid => exact awaitExit s pid
  | phaseEnded id =>
    refine of_server ?_
    show (s.phaseEnded id).server = s.server
    unfold Session.phaseEnded
    split <;> rfl
  | startupEnded id =>
    refine of_server ?_
    show (s.startupEnded id).server = s.server
    unfold Session.startupEnded
    split
    next => split <;> rfl
    next => rfl
  | resume id =>
    show Minds g s (s.resume id)
    cases hk : s.task? id with
    | none => rw [resume, hk]; exact refl s
    | some k =>
      unfold Session.resume
      rw [hk]
      dsimp only [Option.map_some]
      split
      next =>
        unfold concludeNews
        split
        next =>
          obtain ⟨findings, answer, he⟩ := s.answerNews_eq id
          rw [he]
          exact of_server rfl
        next => exact of_server rfl
      next ready crashed hs =>
        obtain ⟨hready, hcrashed⟩ := hgiven id k ready crashed rfl hk (Option.some.inj hs)
        exact concludePhase_minds s id hready hcrashed
      next => exact of_server (useServer_server s id _)
      next => exact refl s

end Minds

/-! ## Everyone who watches -/

/-- Everyone who watches the server has waits of its own. It is about to be told of one of them, or
both can still be released; one that was told is about to look. -/
structure Watchers (ns : List Notice) (s : Session) : Prop where
  calm : s.server.supervisor.phases.Calm
  known : ∀ id k w, s.task? id = some k → k.standing.Owns w →
    (s.server.supervisor.phases.book.status? w).isSome
  own : ∀ i j ki kj w, s.task? i = some ki → s.task? j = some kj → ki.standing.Owns w →
    kj.standing.Owns w → i = j
  waits : ∀ id k ready crashed, s.task? id = some k → k.standing = .awaitingPhase ready crashed →
    .phaseEnded id ∈ ns ∨ s.server.supervisor.phases.Hopes .ready ready ∧
      s.server.supervisor.phases.Hopes .crashed crashed
  looks : ∀ id k ready crashed, s.task? id = some k → k.standing = .phaseCame ready crashed →
    .resume id ∈ ns

/-- Where one who watches comes from: nothing has happened to it, or it has been told and is about
to look, or it is the one who has just begun. -/
inductive Source (ns : List Notice) (g : WaitId → Prop) (id : TaskId) (s t : Session)
    (i : TaskId) (k : Task) : Prop
  | same (task : s.task? i = some k) (keeps : ∀ w, k.standing.Owns w → ¬ g w)
      (cue : ∀ m, k.standing.cue? i = some m → m ∈ ns → m ∈ t.queue)
  | looks {k' : Task} {ready crashed : WaitId} (task : s.task? i = some k')
      (waited : k'.standing = .awaitingPhase ready crashed)
      (standing : k.standing = .phaseCame ready crashed) (told : .resume i ∈ t.queue)
  | begins {ready crashed : WaitId} (newest : i = id)
      (standing : k.standing = .awaitingPhase ready crashed)
      (fresh : ∀ w, k.standing.Owns w → s.server.supervisor.phases.book.status? w = none)
      (ready : t.server.supervisor.phases.Hopes .ready ready)
      (crashed : t.server.supervisor.phases.Hopes .crashed crashed)

theorem Source.owns {w : WaitId} (h : Source ns g id s t i k) (hw : k.standing.Owns w) :
    (∃ k', s.task? i = some k' ∧ k'.standing.Owns w) ∨
      i = id ∧ s.server.supervisor.phases.book.status? w = none := by
  cases h with
  | same task => exact .inl ⟨k, task, hw⟩
  | @looks k' ready crashed task waited standing =>
    obtain ⟨r, c, he, hor⟩ := hw
    rw [standing] at he
    cases he
    exact .inl ⟨k', task, ready, crashed, by rw [waited]; rfl, hor⟩
  | begins newest _ fresh => exact .inr ⟨newest, fresh w hw⟩

/-- Nobody who watches is forgotten if it has one of these sources. -/
theorem Watchers.moves (id : TaskId) (h : Watchers ns s) (hm : Minds g s t)
    (hs : ∀ i k, t.task? i = some k → k.standing.watched?.isSome = true →
      Source ns g id s t i k) : Watchers t.queue t := by
  have hsource : ∀ {i k w}, t.task? i = some k → k.standing.Owns w → Source ns g id s t i k := by
    rintro i k w hk ⟨r, c, he, -⟩
    exact hs i k hk (by rw [he]; rfl)
  refine ⟨hm.calm h.calm, fun i k w hk hw => ?_, fun i j ki kj w hki hkj hwi hwj => ?_,
    fun i k ready crashed hk hst => ?_, fun i k ready crashed hk hst => ?_⟩
  · have hold : ∀ {k'}, s.task? i = some k' → k'.standing.Owns w →
        (t.server.supervisor.phases.book.status? w).isSome := fun hk' hw' =>
      hm.known w (h.known i _ w hk' hw')
    cases hsource hk hw with
    | same task => exact hold task hw
    | looks task waited standing =>
      obtain ⟨r, c, he, hor⟩ := hw
      rw [standing] at he
      cases he
      exact hold task ⟨_, _, by rw [waited]; rfl, hor⟩
    | begins _ standing _ ready crashed =>
      obtain ⟨r, c, he, hor⟩ := hw
      rw [standing] at he
      cases he
      rcases hor with rfl | rfl
      · rw [ready.1]
        rfl
      · rw [crashed.1]
        rfl
  · rcases (hsource hki hwi).owns hwi with ⟨k', hk', hw'⟩ | ⟨hi, hnone⟩
    · rcases (hsource hkj hwj).owns hwj with ⟨k'', hk'', hw''⟩ | ⟨hj, hnone⟩
      · exact h.own i j k' k'' w hk' hk'' hw' hw''
      · have hknown := h.known i k' w hk' hw'
        rw [hnone] at hknown
        cases hknown
    · rcases (hsource hkj hwj).owns hwj with ⟨k'', hk'', hw''⟩ | ⟨hj, -⟩
      · have hknown := h.known j k'' w hk'' hw''
        rw [hnone] at hknown
        cases hknown
      · exact hi.trans hj.symm
  · have hwatched : k.standing.watched? = some (ready, crashed) := by rw [hst]; rfl
    cases hs i k hk (by rw [hwatched]; rfl) with
    | same task keeps cue =>
      obtain ⟨hready, hcrashed⟩ := Standing.owns_of_watched? hwatched
      rcases h.waits i k ready crashed task hst with hn | ⟨hr, hc⟩
      · exact .inl (cue _ (by rw [hst]; rfl) hn)
      · rcases hm.hopes _ _ hr with hr | hg | htold
        · rcases hm.hopes _ _ hc with hc | hg | htold
          · exact .inr ⟨hr, hc⟩
          · exact absurd hg (keeps _ hcrashed)
          · exact .inl (htold i k ready crashed task hst (.inr rfl))
        · exact absurd hg (keeps _ hready)
        · exact .inl (htold i k ready crashed task hst (.inl rfl))
    | looks _ _ standing => cases hst.symm.trans standing
    | begins _ standing _ hr hc =>
      cases hst.symm.trans standing
      exact .inr ⟨hr, hc⟩
  · cases hs i k hk (by rw [hst]; rfl) with
    | same task _ cue =>
      exact cue _ (by rw [hst]; rfl) (h.looks i k ready crashed task hst)
    | looks _ _ _ told => exact told
    | begins _ standing => cases hst.symm.trans standing

/-- Whoever is not on the way to the server was there before, or is the one who has gone on. -/
theorem Errand.off_way (he : Errand n s t) : ∃ id, ∀ i k, t.task? i = some k →
    ¬ k.standing.OnTheWay → s.task? i = some k ∨ i = id ∧ ∃ k', s.task? i = some k' ∧
      TurnsTo s t i k' k.standing ∧ ∀ m, k'.standing.summons? i = some m → n = m := by
  cases he with
  | rests idles => exact ⟨0, fun i k hk _ => .inl ((task?_congr idles.tasks i).symm.trans hk)⟩
  | @leaves id k' standing task opened turn cue waits away parts seen departs vain summoned =>
    refine ⟨id, fun i k hk _ => ?_⟩
    by_cases hi : i = id
    · subst hi
      cases (task?_setStanding_self task parts.tasks).symm.trans hk
      exact .inr ⟨rfl, k', task, waits, summoned⟩
    · exact .inl ((task?_setStanding_of_ne parts.tasks i hi).symm.trans hk)
  | @joins id j k' notice task queued calls unknown startup pending result =>
    refine ⟨id, fun i k hk hoff => .inl ?_⟩
    rcases task?_setStanding_cases (s := s) (by rw [result]) hk with ⟨_, -, -, rfl⟩ | ⟨-, hk⟩
    · exact absurd trivial hoff
    · exact hk
  | @opens id k' notice task queued calls unknown spent result =>
    refine ⟨id, fun i k hk hoff => .inl ?_⟩
    rw [result] at hk
    rcases task?_setStanding_cases rfl hk with ⟨_, -, -, rfl⟩ | ⟨-, hk⟩
    · exact absurd trivial hoff
    · rcases task?_added_cases (s := s) rfl hk with hk | ⟨-, rfl⟩
      · exact hk
      · exact absurd trivial hoff
  | @hears id j k' answer notice task waits ended result =>
    refine ⟨id, fun i k hk hoff => .inl ?_⟩
    rcases task?_setStanding_cases (s := s) (by rw [result]; rfl) hk with
      ⟨_, -, -, rfl⟩ | ⟨-, hk⟩
    · exact absurd trivial hoff
    · exact hk

/-- Who is given its cue goes on. -/
theorem react_cue (hk : s.task? id = some k) (hcue : k.standing.cue? id = some n) :
    (s.react n).task? id ≠ some k := by
  intro hsame
  cases hs : k.standing with
  | awaitingPhase ready crashed =>
    rw [hs] at hcue
    cases hcue
    have hcame : (s.react (.phaseEnded id)).task? id =
        some { k with standing := .phaseCame ready crashed } := by
      show (s.phaseEnded id).task? id = _
      unfold phaseEnded
      rw [hk, Option.map_some, hs]
      exact task?_setStanding_self hk rfl
    have hstanding := congrArg Task.standing (Option.some.inj (hsame.symm.trans hcame))
    cases hs.symm.trans hstanding
  | phaseCame ready crashed =>
    rw [hs] at hcue
    cases hcue
    have hended : ∃ answer, (s.react (.resume id)).task? id =
        some { k with standing := .ended answer } := by
      show ∃ answer, (s.resume id).task? id = _
      unfold resume
      rw [hk, Option.map_some, hs]
      dsimp only
      unfold concludePhase
      dsimp only
      split <;> exact ⟨_, task?_setStanding_self hk rfl⟩
    obtain ⟨answer, hended⟩ := hended
    have hstanding := congrArg Task.standing (Option.some.inj (hsame.symm.trans hended))
    cases hs.symm.trans hstanding
  | _ => rw [hs] at hcue; cases hcue

/-- Whoever begins to watch has waits of its own. -/
theorem Source.of_begins {k' : Task} (hg : s.server.supervisor.Guarded)
    (hc : s.server.supervisor.phases.Calm) (hk' : s.task? id = some k')
    (hstart : u = s ∨ s.startServer = (u, .ok ())) (hk : (u.awaitPhase id).task? id = some k)
    (hw : k.standing.watched?.isSome = true) : Source ns g id s (u.awaitPhase id) id k := by
  obtain ⟨hguarded, hminds, htask⟩ : u.server.supervisor.Guarded ∧ Minds g s u ∧
      u.task? id = some k' := by
    rcases hstart with rfl | hu
    · exact ⟨hg, .refl u, hk'⟩
    · have hstarted := (Handles.superviseCall (s := s.unannounced) hg s.serverCall
        .announced .dropped).2
      have hminds := Minds.startServer (g := g) s
      have htask := (startServer_task? s id).trans hk'
      rw [hu] at hminds htask
      exact ⟨congrArg (·.1.server.supervisor) hu ▸ hstarted, hminds, htask⟩
  obtain ⟨-, ⟨answer, he⟩ | ⟨supervisor, ready, crashed, ended, he, hready, hcrashed, -, hopes⟩⟩ :=
    awaitPhase_watches (g := g) hguarded (hminds.calm hc) id
  · rw [he] at hk
    cases (task?_setStanding_self htask rfl).symm.trans hk
    cases hw
  · have hnew : ∀ w, u.server.supervisor.phases.book.status? w = none →
        s.server.supervisor.phases.book.status? w = none := by
      intro w hnone
      by_contra hknown
      have hknown := hminds.known w (Option.isSome_iff_ne_none.mpr hknown)
      rw [hnone] at hknown
      cases hknown
    rw [he] at hk ⊢
    cases (task?_setStanding_self (s := u) htask rfl).symm.trans hk
    refine .begins rfl rfl ?_ hopes.1 hopes.2
    rintro w ⟨r, c, hrc, rfl | rfl⟩
    · cases hrc
      exact hnew _ hready
    · cases hrc
      exact hnew _ hcrashed

/-- **Nobody who watches is forgotten**, whatever is noticed. -/
theorem Watchers.react (h : Watchers (n :: s.queue) s) (hg : s.server.supervisor.Guarded) :
    Watchers (s.react n).queue (s.react n) := by
  have he := react_errand s n
  obtain ⟨more, hqueue⟩ := he.queue
  obtain ⟨id, hoff⟩ := he.off_way
  refine h.moves (g := fun w => ∃ j k ready crashed, n = .resume j ∧ s.task? j = some k ∧
    k.standing = .phaseCame ready crashed ∧ (w = ready ∨ w = crashed)) id
    (.react hg h.calm n fun j k ready crashed hn hk hs =>
      ⟨⟨j, k, ready, crashed, hn, hk, hs, .inl rfl⟩, j, k, ready, crashed, hn, hk, hs, .inr rfl⟩)
    fun i k hk hw => ?_
  rcases hoff i k hk (Standing.not_onTheWay_of_watched hw) with
    hsame | ⟨rfl, k', hk', hwaits, hsummoned⟩
  · refine .same hsame ?_ fun m hm hmem => ?_
    · rintro w hown ⟨j, kj, ready, crashed, rfl, hkj, hs, hor⟩
      have hj := h.own i j k kj w hsame hkj hown ⟨ready, crashed, by rw [hs]; rfl, hor⟩
      subst hj
      cases hsame.symm.trans hkj
      exact react_cue hsame (by rw [hs]; rfl) hk
    · rcases List.mem_cons.mp hmem with rfl | hmem
      · exact absurd hk (react_cue hsame hm)
      · rw [hqueue]
        exact List.mem_append_left _ hmem
  · obtain ⟨request, standing⟩ := k
    cases hwaits with
    | idles watches => rw [watches] at hw; cases hw
    | news => cases hw
    | begins alone start result =>
      rw [result] at hk ⊢
      exact .of_begins hg h.calm hk' start hk hw
    | looks waited =>
      have hn := hsummoned (.phaseEnded i) (by rw [waited]; rfl)
      subst hn
      refine .looks hk' waited rfl ?_
      show .resume i ∈ (s.phaseEnded i).queue
      unfold phaseEnded
      rw [hk', Option.map_some, waited]
      exact List.mem_append_right _ (List.mem_singleton.mpr rfl)

/-- Whatever else happens nobody who watches moves. -/
theorem Watchers.rests (h : Watchers s.queue s) (hserver : t.server = s.server)
    (htasks : ∀ i k, t.task? i = some k → k.standing.watched?.isSome = true → s.task? i = some k)
    (hqueue : ∀ m ∈ s.queue, m ∈ t.queue) : Watchers t.queue t :=
  h.moves (g := fun _ => False) 0 (.of_server hserver) fun i k hk hw =>
    .same (htasks i k hk hw) (fun _ _ => not_false) fun m _ hm => hqueue m hm

theorem Watchers.act (h : Watchers s.queue s) (hg : s.server.supervisor.Guarded) (a : Action) :
    Watchers (s.act a).queue (s.act a) := by
  cases a with
  | ask request =>
    refine h.rests rfl (fun i k hk hw => ?_) fun m hm => List.mem_append_left _ hm
    rcases task?_added_cases rfl hk with hk | ⟨-, rfl⟩
    · exact hk
    · cases hw
  | feed | exit => exact h.rests rfl (fun _ _ hk _ => hk) fun m hm => List.mem_append_left _ hm
  | step =>
    cases hq : s.queue with
    | nil =>
      rw [Session.act, step_nil hq]
      exact h
    | cons n rest =>
      rw [hq] at h
      rw [Session.act, step_cons hq]
      exact Watchers.react (s := { s with queue := rest })
        ⟨h.calm, h.known, h.own, h.waits, h.looks⟩ hg

theorem Fresh.watchers (h : s.Fresh) : Watchers s.queue s := by
  have hnone : ∀ {i k}, s.task? i ≠ some k := h.task?_ne_some
  obtain ⟨_, _, _, _, _, _, _, _, _, rfl⟩ := h
  exact ⟨⟨rfl, rfl, fun _ _ hw => by cases hw⟩, fun _ _ _ hk => absurd hk hnone,
    fun _ _ _ _ _ hk => absurd hk hnone, fun _ _ _ _ hk => absurd hk hnone,
    fun _ _ _ _ hk => absurd hk hnone⟩

end Session

end VerifierHost
