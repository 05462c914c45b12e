import VerifierHost.Proofs.Process.Holding
import VerifierHost.Proofs.Session.Cancelling

/-! # The server changes hands

What a notice that wakes no reader can do to the server, in whatever state its process and the world
are: nothing, or its process has crashed, was let go, or was replaced by a new one
(`Session.Sways`). Only a stop lets readers go, those of the process that is held then; the readers
of a process that has crashed stay. Nor does any of it touch what the streams hold
(`World.Holds`). -/

namespace VerifierHost

namespace Session

variable {s t u : Session} {n : Notice} {id : TaskId} {pid : Pid}

/-- No process is held any more, and the readers of the one that was are gone. -/
structure Releases (s t : Session) : Prop where
  guarded : t.server.supervisor.Guarded
  held : t.server.supervisor.held = none
  readers : t.server.supervisor.readers = s.server.supervisor.bystanders

/-- A new process is held, with readers that look for an address in its output only. -/
structure Engages (pid : Pid) (s t : Session) : Prop where
  guarded : t.server.supervisor.Guarded
  held : t.server.supervisor.held = some pid
  running : t.server.supervisor.state = .running
  fresh : s.world.processes.length < pid
  known : pid ≤ t.world.processes.length
  readers : ∃ stdout stderr, stderr ≠ .announced ∧ t.server.supervisor.readers =
    s.server.supervisor.bystanders ++ [.start pid .stdout stdout, .start pid .stderr stderr]

/-- What can become of the server when nobody reads its output. -/
inductive Sways (s t : Session) : Prop
  | rests (same : Supervisor.Same s.server.supervisor t.server.supervisor)
      (announced : t.server.announced = s.server.announced)
  | crashes {pid : Pid} (held : s.server.supervisor.held = some pid)
      (guarded : t.server.supervisor.Guarded) (state : t.server.supervisor.state = .crashed)
      (gone : t.server.supervisor.held = none)
      (readers : t.server.supervisor.readers = s.server.supervisor.readers)
  | releases (releases : Releases s t)
  | engages {pid : Pid} (engages : Engages pid s t)

/-- From one session to another the server may have changed hands, and nobody has read. -/
structure PassesOn (s t : Session) : Prop where
  sways : Sways s t
  holds : World.Holds s.world t.world

theorem stopSupervised_releases (hg : s.server.supervisor.Guarded) :
    s.stopSupervised.2 = .ok () ∧ Releases s s.stopSupervised.1 ∧
      World.Holds s.world s.stopSupervised.1.world := by
  obtain ⟨phases, ended, -, he, hcurrent, hstates⟩ := hg.stop_eq
  have hguard : (none : Option Pid).isSome = phases.current.isLive := by rw [hcurrent]; rfl
  unfold stopSupervised
  rw [hg.doomed_eq]
  cases hheld : s.server.supervisor.held with
  | none =>
    dsimp only
    rw [he]
    exact ⟨rfl, ⟨⟨hstates, hguard⟩, rfl, rfl⟩, .refl _⟩
  | some pid =>
    have hserver : ({ s with world := s.world.abandon pid }.kill pid).server = s.server := rfl
    dsimp only
    rw [hserver, he]
    exact ⟨rfl, ⟨⟨hstates, hguard⟩, rfl, rfl⟩,
      (World.Holds.abandon s.world pid).trans (.kill _ pid)⟩

/-- A start lets the process go that was held. -/
theorem superviseCall_cases (hg : s.server.supervisor.Guarded) (call : Call) (stdout : LineUse)
    {stderr : LineUse} (hquiet : stderr ≠ .announced) :
    World.Holds s.world (s.superviseCall call stdout stderr).1.world ∧
      (Releases s (s.superviseCall call stdout stderr).1 ∨
        ∃ pid, Engages pid s (s.superviseCall call stdout stderr).1) := by
  have hstopped : ∃ u, (if s.server.supervisor.state.isLive then s.stopSupervised
      else (s, .ok ())) = (u, .ok ()) ∧ Releases s u ∧ World.Holds s.world u.world := by
    cases hlive : s.server.supervisor.state.isLive with
    | true =>
      obtain ⟨hok, hu⟩ := stopSupervised_releases hg
      exact ⟨_, Prod.ext rfl hok, hu⟩
    | false =>
      have hnone := hg.held_eq_none hlive
      exact ⟨s, rfl, ⟨hg, hnone, (Supervisor.bystanders_of_none hnone).symm⟩, .refl _⟩
  obtain ⟨u, he, hu, hholds⟩ := hstopped
  have hspawned := hholds.trans (.spawn u.world)
  obtain ⟨event, -, hspawn⟩ := u.spawn_eq call
  unfold superviseCall
  rw [he]
  dsimp only
  split
  next v fault hv =>
    obtain ⟨-, hserver, -⟩ := Tends.spawn_error hv
    have hworld : v.world = u.world.spawn.1 := congrArg (·.1.world) (hv.symm.trans hspawn)
    exact ⟨hworld ▸ hspawned, .inl
      ⟨hserver ▸ hu.guarded, hserver ▸ hu.held, hserver ▸ hu.readers⟩⟩
  next v pid hv =>
    obtain ⟨-, hserver, -, hpid, hle⟩ := Tends.spawn_ok hv
    obtain ⟨phases, ended, -, ha, hcurrent, hstates⟩ := hu.guarded.adopt_eq pid stdout stderr
    have hguard : (some pid).isSome = phases.current.isLive := by rw [hcurrent]; rfl
    have hworld : v.world = u.world.spawn.1 := congrArg (·.1.world) (hv.symm.trans hspawn)
    rw [hserver, ha]
    refine ⟨hworld ▸ hspawned, .inr ⟨pid, ⟨hstates, hguard⟩, rfl, hcurrent, ?_, hle, stdout, stderr,
      hquiet, ?_⟩⟩
    · rw [hpid]
      exact Nat.lt_succ_of_le hholds.length
    · show u.server.supervisor.readers ++ _ = _
      rw [hu.readers]

theorem startVerifier_holds (s : Session) (id : TaskId) (invocation : Invocation)
    (target : VerificationTarget) (name : Text) :
    World.Holds s.world (s.startVerifier id invocation target name).world := by
  have hspawned := World.Holds.spawn s.world
  obtain ⟨event, -, he⟩ := s.spawn_eq invocation.call
  unfold startVerifier
  rw [he]
  generalize s.world.spawn = result at hspawned
  obtain ⟨w, fault | pid⟩ := result
  · dsimp only
    rw [(conclude_same ..).1]
    exact hspawned
  · exact hspawned

theorem launch_holds (s : Session) (id : TaskId) (path : Text) (target : VerificationTarget)
    (address : Text) : World.Holds s.world (s.launch id path target address).world := by
  have hkilled : World.Holds s.world s.killRuns.world :=
    killRuns_induction (P := fun u => World.Holds s.world u.world) (.refl _)
      fun u pid hu => hu.trans (.kill u.world pid)
  obtain ⟨u, hbegun, ⟨invocation, he⟩ | ⟨fault, he⟩⟩ := s.launch_cases id path target address
  · rw [he]
    exact hkilled.trans (hbegun.world ▸ startVerifier_holds u ..)
  · rw [he]
    show World.Holds s.world u.world
    rw [hbegun.world]
    exact hkilled

namespace PassesOn

theorem of_server (h : t.server = s.server) (hholds : World.Holds s.world t.world) : PassesOn s t :=
  ⟨.rests (h ▸ .refl _) (congrArg SharedServer.announced h), hholds⟩

theorem refl (s : Session) : PassesOn s s := of_server rfl (.refl _)

theorem of_queue {queue : List Notice} (h : PassesOn { s with queue } t) : PassesOn s t := by
  refine ⟨?_, h.holds⟩
  cases h.sways with
  | rests same announced => exact .rests same announced
  | crashes held guarded state gone readers => exact .crashes held guarded state gone readers
  | releases h => exact .releases ⟨h.guarded, h.held, h.readers⟩
  | engages h => exact .engages ⟨h.guarded, h.held, h.running, h.fresh, h.known, h.readers⟩

/-- What follows leaves the server as it is but for who waits for it. -/
theorem same (h : PassesOn s t) (hsame : Supervisor.Same t.server.supervisor u.server.supervisor)
    (hannounced : u.server.announced = t.server.announced) (hworld : u.world = t.world) :
    PassesOn s u := by
  refine ⟨?_, hworld ▸ h.holds⟩
  cases h.sways with
  | rests hsame' hannounced' =>
    exact .rests (hsame'.trans hsame) (hannounced.trans hannounced')
  | crashes held guarded state gone readers =>
    exact .crashes held (guarded.same hsame) (hsame.state.trans state) (hsame.held.trans gone)
      (hsame.readers.trans readers)
  | releases h =>
    exact .releases ⟨h.guarded.same hsame, hsame.held.trans h.held, hsame.readers.trans h.readers⟩
  | engages h =>
    obtain ⟨stdout, stderr, hquiet, hreaders⟩ := h.readers
    exact .engages ⟨h.guarded.same hsame, hsame.held.trans h.held, hsame.state.trans h.running,
      h.fresh, hworld ▸ h.known, stdout, stderr, hquiet, hsame.readers.trans hreaders⟩

theorem superviseCall (hg : s.server.supervisor.Guarded) (call : Call) (stdout : LineUse)
    {stderr : LineUse} (hquiet : stderr ≠ .announced) :
    PassesOn s (s.superviseCall call stdout stderr).1 := by
  obtain ⟨hholds, h | ⟨pid, h⟩⟩ := superviseCall_cases hg call stdout hquiet
  · exact ⟨.releases h, hholds⟩
  · exact ⟨.engages h, hholds⟩

theorem startServer (hg : s.server.supervisor.Guarded) : PassesOn s s.startServer.1 := by
  have hquiet : LineUse.dropped ≠ .announced := by decide
  obtain ⟨hholds, h | ⟨pid, h⟩⟩ := superviseCall_cases (s := s.unannounced) hg s.serverCall
    .announced hquiet
  · exact ⟨.releases ⟨h.guarded, h.held, h.readers⟩, hholds⟩
  · exact ⟨.engages ⟨h.guarded, h.held, h.running, h.fresh, h.known, h.readers⟩, hholds⟩

theorem endStart {result : Session × Except Failure Unit} (h : PassesOn s result.1) (id : TaskId) :
    PassesOn s (Session.endStart id result) := by
  obtain ⟨u, why | _⟩ := result
  · exact h.same (.refl _) rfl rfl
  · exact h.same (.refl _) rfl rfl

theorem awaitPhase (h : PassesOn s t) (id : TaskId) : PassesOn s (t.awaitPhase id) := by
  obtain ⟨hworld, -, hsame⟩ := t.awaitPhase_same id
  refine h.same hsame ?_ hworld
  unfold Session.awaitPhase
  split <;> rfl

theorem launch (s : Session) (id : TaskId) (path : Text) (target : VerificationTarget)
    (address : Text) : PassesOn s (s.launch id path target address) := by
  obtain ⟨_, -, -, hserver⟩ := Handles.launch s id path target address
  exact of_server hserver (launch_holds ..)

theorem answerNews (s : Session) (id : TaskId) : PassesOn s (s.answerNews id) := by
  obtain ⟨findings, answer, he⟩ := s.answerNews_eq id
  rw [he]
  exact of_server rfl (.refl _)

theorem useServer (s : Session) (id : TaskId) (answer : Answer) :
    PassesOn s (s.useServer id answer) := by
  unfold Session.useServer
  split
  next => exact launch s id _ _ _
  next => split <;> exact of_server rfl (.refl _)
  next => exact of_server rfl (.refl _)

theorem requireServer (s : Session) (id : TaskId) : PassesOn s (s.requireServer id) := by
  unfold Session.requireServer
  split
  next => exact useServer s id _
  next =>
    have hjoin : s.joinStartup.1.server = s.server ∧ s.joinStartup.1.world = s.world := by
      unfold joinStartup
      split
      next => split <;> exact ⟨rfl, rfl⟩
      next => exact ⟨rfl, rfl⟩
    exact of_server hjoin.1 (hjoin.2 ▸ .refl _)

theorem begin (hg : s.server.supervisor.Guarded) (id : TaskId) : PassesOn s (s.begin id) := by
  have hsame : ∀ {t : Session}, t.server = s.server → t.world = s.world → PassesOn s t :=
    fun hserver hworld => of_server hserver (hworld ▸ .refl _)
  unfold Session.begin
  split
  next request hk =>
    split
    next => exact hsame rfl rfl
    next =>
      split
      next =>
        split
        next =>
          split
          · exact requireServer s id
          · exact launch s id _ _ _
        next => exact requireServer s id
      next => exact hsame rfl rfl
    next => exact launch s id _ _ _
    next =>
      split
      next => exact hsame rfl rfl
      next => exact answerNews s id
    next =>
      split
      next => exact hsame rfl rfl
      next => exact answerNews s id
    next => exact requireServer s id
    next => exact (refl s).awaitPhase id
    next => exact (startServer hg).endStart id
    next => exact (superviseCall hg _ _ (lineUseOf_ne_announced _)).endStart id
    next =>
      have hstart := startServer hg
      split
      next u hu =>
        rw [hu] at hstart
        exact hstart.awaitPhase id
      next u why hu =>
        rw [hu] at hstart
        exact hstart.same (.refl _) rfl rfl
    next => exact hsame rfl rfl
  next => exact refl s

theorem awaitExit (hg : s.server.supervisor.Guarded) (pid : Pid) : PassesOn s (s.awaitExit pid) := by
  have hasked := World.Holds.awaitExit s.world pid
  unfold Session.awaitExit
  split
  next code r id _ _ _ =>
    obtain ⟨hworld, hserver, -⟩ := conclude_same
      { s with engine := (s.engine.finish r code s.world.clock).1 } id
      (s.engine.finish r code s.world.clock).2
    exact of_server hserver (Eq.symm hworld ▸ .refl _)
  next w _ _ hw _ _ =>
    rw [hw] at hasked
    exact of_server rfl hasked
  next =>
    by_cases hheld : s.server.supervisor.held = some pid
    · obtain ⟨phases, ended, -, he, hcurrent, hstates⟩ := hg.processEnded_eq hheld
      rw [he]
      refine ⟨.crashes hheld ⟨hstates, ?_⟩ hcurrent rfl rfl, .refl _⟩
      show false = phases.current.isLive
      rw [hcurrent]
      rfl
    · rw [Supervisor.processEnded, if_neg hheld]
      exact of_server rfl (.refl _)
  next w hw _ =>
    rw [hw] at hasked
    exact of_server rfl hasked

theorem resume (s : Session) (id : TaskId) : PassesOn s (s.resume id) := by
  unfold Session.resume
  split
  next =>
    unfold concludeNews
    split
    next => exact answerNews s id
    next => exact of_server rfl (.refl _)
  next ready crashed _ =>
    have hgiven : Supervisor.Same s.server.supervisor
        ((s.server.supervisor.cancelWait ready).cancelWait crashed) :=
      (Supervisor.same_cancelWait ..).trans (Supervisor.same_cancelWait ..)
    unfold concludePhase
    dsimp only
    split <;> exact ⟨.rests hgiven rfl, .refl _⟩
  next => exact useServer s id _
  next => exact refl s

theorem streamEnded (s : Session) (pid : Pid) : PassesOn s (s.streamEnded pid) := by
  unfold Session.streamEnded
  split
  next => exact refl s
  next =>
    split
    · exact of_server rfl (.refl _)
    · exact of_server rfl (.refl _)
    · exact refl s

theorem phaseEnded (s : Session) (id : TaskId) : PassesOn s (s.phaseEnded id) := by
  unfold Session.phaseEnded
  split <;> exact of_server rfl (.refl _)

theorem startupEnded (s : Session) (id : TaskId) : PassesOn s (s.startupEnded id) := by
  unfold Session.startupEnded
  split
  next => split <;> exact of_server rfl (.refl _)
  next => exact refl s

/-- **What a notice does that wakes no reader.** -/
theorem react (hg : s.server.supervisor.Guarded)
    (hn : ∀ pid stream, n ≠ .wake (.output pid stream)) : PassesOn s (s.react n) := by
  cases n with
  | begin id => exact begin hg id
  | wake wake =>
    cases wake with
    | output pid stream => exact absurd rfl (hn pid stream)
    | exit pid => exact awaitExit hg pid
  | streamEnded pid => exact streamEnded s pid
  | outputEnded pid => exact awaitExit hg pid
  | phaseEnded id => exact phaseEnded s id
  | startupEnded id => exact startupEnded s id
  | resume id => exact resume s id

/-- A stop lets the process go, whatever becomes of the startup under way. -/
theorem stopServer (hg : s.server.supervisor.Guarded) : PassesOn s s.stopServer.1 := by
  have hgiven : ∀ (v : Session) standing,
      Supervisor.Same v.server.supervisor (v.giveUp standing).server.supervisor ∧
        World.Holds v.world (v.giveUp standing).world := by
    intro v standing
    cases standing with
    | awaitingPhase | phaseCame =>
      exact ⟨(Supervisor.same_cancelWait ..).trans (Supervisor.same_cancelWait ..), .refl _⟩
    | awaitingOutput pid | awaitingExit pid => exact ⟨.refl _, .abandon v.world pid⟩
    | _ => exact ⟨.refl _, .refl _⟩
  have hcancelled : ∀ (v : Session) id,
      Supervisor.Same v.server.supervisor (v.cancel id).server.supervisor ∧
        World.Holds v.world (v.cancel id).world := by
    intro v id
    rcases v.cancel_quits id with ⟨-, he⟩ | ⟨k, hq⟩
    · rw [he]
      exact ⟨.refl _, .refl _⟩
    · refine ⟨hq.server, ?_⟩
      rw [hq.result]
      exact (hgiven v k.standing).2
  obtain ⟨u, he, hu⟩ := s.stopServer_cases
  have hsame : Supervisor.Same s.server.supervisor u.server.supervisor ∧
      World.Holds s.world u.world := by
    rcases hu with ⟨-, rfl⟩ | ⟨id, -, rfl⟩
    · exact ⟨.refl _, .refl _⟩
    · exact hcancelled s.unannounced id
  obtain ⟨-, h, hholds⟩ :=
    stopSupervised_releases (s := { u with startup := none }) (hg.same hsame.1)
  rw [he]
  refine ⟨.releases ⟨h.guarded, h.held, h.readers.trans ?_⟩, hsame.2.trans hholds⟩
  show u.server.supervisor.bystanders = _
  rw [Supervisor.bystanders, Supervisor.bystanders, hsame.1.readers, hsame.1.held]

end PassesOn

end Session

end VerifierHost
