import VerifierHost.Proofs.Server.Callers

/-! # Every notice keeps a session concerted

A startup that begins starts the server and watches it; one that goes on looks which of its waits
has come to its end (`Session.Takes.concludePhase`), and whoever waits for it is told what it has
ended with. All other notices leave the startup and its waits as they are. -/

namespace VerifierHost.Session

variable {s₀ s t u : Session} {hs : List Happening} {n : Notice} {ns : List Notice}
  {id i : TaskId} {k : Task} {answer : Answer} {ready crashed : WaitId} {pid : Pid}

theorem readyAddress_cases (s : Session) :
    (∃ address, s.server.address = some address ∧ s.readyAddress = .address address) ∨
      s.server.address = none ∧ s.readyAddress = .failed (.violation readyWithoutAddress) := by
  unfold readyAddress
  cases s.server.address with
  | none => exact .inr ⟨rfl, rfl⟩
  | some address => exact .inl ⟨address, rfl, rfl⟩

theorem Owed.of_asksNews (h : k.request.AsksNews) : s₀.Owed hs s id k.request answer := by
  cases hr : k.request with
  | hover | hints | news => trivial
  | _ => rw [hr] at h; cases h

theorem Starting.signals {call : Call} {stdout stderr : LineUse} {outcome : Except Failure Unit}
    (h : Starting call stdout stderr s (t, outcome)) : Signals False s t := by
  cases h with
  | refused clears => exact clears.toSignals
  | @started u pid adopts =>
    refine adopts.toSignals.trans (.of_same rfl rfl rfl fun i hi => ?_)
    refine (List.mem_append.mp hi).resolve_right fun hi => ?_
    simp [firstWakes] at hi

theorem readServer_signals (s : Session) (r : StreamReader) : Signals False s (s.readServer r) := by
  obtain ⟨-, hserver, htasks, hstartup, hqueue⟩ := s.readServer_same r
  generalize r.read (s.world.collect r.pid r.stream).2.1 (s.world.collect r.pid r.stream).2.2 =
    reading at hserver hqueue
  refine ⟨htasks, hstartup, (s.server.takeLines r.lineUse reading.2.1).2, ?_, fun i hi => ?_⟩
  · rw [hserver]
    exact SharedServer.takeLines_moves ..
  · rw [hqueue] at hi
    rcases List.mem_append.mp hi with hi | hi
    · exact .inl hi
    · obtain ⟨j, he, hw⟩ := mem_phaseNotices hi
      cases he
      exact .inr hw

theorem runs?_open (h : k.standing.runs? = some pid) : k.hasEnded = false := by
  cases hs : k.standing with
  | ended => rw [hs] at h; cases h
  | _ => exact Task.hasEnded_eq_false hs not_false

theorem eq_ended_of_answer? (h : k.answer? = some answer) : k = ⟨k.request, .ended answer⟩ := by
  unfold Task.answer? at h
  split at h
  next hs =>
    cases h
    rw [← hs]
  next => cases h

theorem streamEnded_tasks (s : Session) (pid : Pid) : (s.streamEnded pid).tasks = s.tasks ∨
    ∃ id k m, s.task? id = some k ∧ k.standing.runs? = some pid ∧
      (s.streamEnded pid).tasks = (s.setStanding id (.awaitingOutput pid m)).tasks := by
  unfold streamEnded
  split
  next => exact .inl rfl
  next id ht =>
    obtain ⟨k, hk, hrun⟩ := taskOfRun?_some ht
    split
    next => exact .inr ⟨id, k, 1, hk, hrun, rfl⟩
    next => exact .inr ⟨id, k, _, hk, hrun, rfl⟩
    next => exact .inl rfl

/-- A session that has gone through a history takes a notice from its queue. -/
structure Takes (s₀ : Session) (hs : List Happening) (n : Notice) (s : Session) : Prop where
  now : s₀.through hs = { s with queue := n :: s.queue }
  concerted : Concerted s₀ hs (s₀.through hs)
  listens : Listens (fun pid => s₀.printed pid hs) (s₀.through hs)

namespace Takes

theorem task? (h : Takes s₀ hs n s) (id : TaskId) : (s₀.through hs).task? id = s.task? id := by
  rw [h.now]
  rfl

theorem server (h : Takes s₀ hs n s) : (s₀.through hs).server = s.server := by rw [h.now]

theorem queue (h : Takes s₀ hs n s) : (s₀.through hs).queue = n :: s.queue := by rw [h.now]

theorem next (h : Takes s₀ hs n s) : s₀.through (hs ++ [.act .step]) = s.react n := by
  rw [through_concat, h.now]
  rfl

theorem sound (h : Takes s₀ hs n s) : Sound (n :: s.queue) s := by
  have hsound := h.listens.steady.sound
  rw [h.now] at hsound
  exact hsound.congr rfl rfl rfl rfl

theorem knows (h : Takes s₀ hs n s) : s.KnowsStartup := by
  have hknows := h.listens.steady.startup
  rw [h.now] at hknows
  exact hknows

theorem kept (h : Takes s₀ hs n s) : s.server.supervisor.Kept :=
  h.server ▸ h.listens.steady.attended.kept

/-- Without the notice all are concerted still. -/
theorem rest (h : Takes s₀ hs n s) : Concerted s₀ (hs ++ [.act .step]) s := by
  have hc := h.concerted.concat rfl (.act .step)
  rw [h.now] at hc
  refine hc.signals (.of_same rfl rfl rfl fun i hi => ?_)
  exact List.mem_cons_of_mem _ hi

/-- An address that is known is settled. -/
theorem address (h : Takes s₀ hs n s) (id : TaskId) {address : Text}
    (ha : s.server.address = some address) :
    s₀.Fate (hs ++ [.act .step]) id (.address address) := by
  rw [← h.server] at ha
  obtain ⟨pid, known, hheld, hknown, hannounces⟩ :=
    h.listens.announces (address_eq_some.mp ha).1
  cases ha.symm.trans hknown
  exact (Settles.ready hheld ha hannounces).fate

/-- A startup looks which of its waits has come to its end. -/
theorem concludePhase (h : Takes s₀ hs (.resume id) s) (hk : s.task? id = some k)
    (hs' : k.standing = .phaseCame ready crashed) :
    Concerted s₀ (hs ++ [.act .step]) (s.concludePhase id ready crashed) := by
  have hfits := h.concerted.fits id k ((h.task? id).trans hk)
  rw [hs'] at hfits
  obtain ⟨hr, hwatching, hcame⟩ := hfits
  have hopen : k.hasEnded = false := watched?_open (by rw [hs']; rfl)
  have htask : (s₀.through hs).task? id = some ⟨.startup, .phaseCame ready crashed⟩ := by
    rw [h.task?, hk, ← hr, ← hs']
  have hend : ∀ answer, s₀.Fate (hs ++ [.act .step]) id answer →
      Concerted s₀ (hs ++ [.act .step]) ((s.setSupervisor
        ((s.server.supervisor.cancelWait ready).cancelWait crashed) []).endTask id answer) := by
    intro answer hfate
    refine h.rest.turn hk hopen rfl rfl (.inr ⟨hr, (h.rest.calm.cancel ready).cancel crashed⟩)
      (fun i hi => ?_) (hr ▸ hfate) (by rintro ⟨⟩) False.elim
    have hi := (Apart.endTask _ id answer).mem_queue_of_phaseEnded hi
    rcases List.mem_append.mp hi with hi | hi
    · exact hi
    · exact absurd hi List.not_mem_nil
  have hdied : s.server.supervisor.waitStatus ready ≠ .released →
      s₀.Fate (hs ++ [.act .step]) id
        (.failed (.server s.server.supervisor.name .diedBeforeReady)) := by
    intro hstatus
    rw [Came, h.server] at hcame
    rcases hcame with hc | hc
    · exact absurd (by rw [Supervisor.waitStatus, hc]; rfl) hstatus
    · rw [← h.server] at hc ⊢
      exact (Settles.died h.queue (hwatching.died hc)).fate
  unfold Session.concludePhase
  dsimp only
  split
  next hstatus =>
    refine hend _ ?_
    have hready : (s.setSupervisor
        ((s.server.supervisor.cancelWait ready).cancelWait crashed) []).readyAddress =
          s.readyAddress := rfl
    rw [hready]
    rcases s.readyAddress_cases with ⟨address, ha, he⟩ | ⟨hnone, he⟩
    · rw [he]
      exact h.address id ha
    · rw [he]
      rw [← h.server] at hstatus hnone
      refine (Settles.overtaken ⟨ready, crashed, _, h.queue, htask, hstatus, fun hstate => ?_⟩).fate
      obtain ⟨-, _, -, hknown, -⟩ := h.listens.announces hstate
      cases hnone.symm.trans hknown
  next hstatus => exact hend _ (hdied (by rw [hstatus]; rintro ⟨⟩))
  next hstatus => exact hend _ (hdied (by rw [hstatus]; rintro ⟨⟩))

/-- The startup starts the server. -/
theorem startup (h : Takes s₀ hs (.begin id) s)
    (hk : s.task? id = some ⟨.startup, .queued⟩) :
    Concerted s₀ (hs ++ [.act .step])
      (match s.startServer with
      | (s, .ok ()) => s.awaitPhase id
      | (s, .error why) => s.endTask id (.failed why)) := by
  have hunannounced : Concerted s₀ (hs ++ [.act .step]) s.unannounced :=
    h.rest.signals (.of_same rfl rfl rfl fun _ hi => hi)
  have hstarting : Starting s.serverCall .announced .dropped s.unannounced s.startServer :=
    superviseCall_spec (s := s.unannounced) h.kept s.serverCall .announced .dropped
  generalize s.startServer = result at hstarting
  have hsignals : Signals False s.unannounced result.1 := hstarting.signals
  have hstarted := hunannounced.signals hsignals
  have hk' : result.1.task? id = some ⟨.startup, .queued⟩ :=
    (task?_congr hsignals.tasks id).trans hk
  cases hstarting with
  | @refused t fault clears refusal =>
    refine hstarted.endTask hk' rfl ?_
    have hspawn : (s₀.through hs).world.spawn.2 = .error fault := by
      rw [h.now]
      exact refusal
    have hfate := (Settles.refused h.queue ((h.task? id).trans hk) hspawn).fate
    rw [h.now] at hfate
    exact hfate
  | started adopts => exact hstarted.awaitPhase hk' rfl rfl adopts.kept.states adopts.running

/-- A task begins. -/
theorem begin (h : Takes s₀ hs (.begin id) s) :
    Concerted s₀ (hs ++ [.act .step]) (s.begin id) := by
  have hruns := h.sound.runners
  unfold Session.begin
  split
  next request hk =>
    have hnews : ∀ file, Concerted s₀ (hs ++ [.act .step]) (s.awaitNews id file) := fun file =>
      h.rest.advance (.awaitNews s id file) hk rfl rfl trivial (by rintro ⟨⟩) False.elim
    have hanswer : (Task.mk request .queued).request.AsksNews →
        Concerted s₀ (hs ++ [.act .step]) (s.answerNews id) := by
      intro hasks
      obtain ⟨answer, htasks⟩ := s.answerNews_tasks id
      exact h.rest.advance (.answerNews s id) hk rfl htasks (Owed.of_asksNews hasks)
        (by rintro ⟨⟩) False.elim
    have hrequire : request ≠ .startup → Concerted s₀ (hs ++ [.act .step]) (s.requireServer id) :=
      fun hne => h.rest.requireServer hruns h.knows hk rfl hne fun _ => h.address id
    have hreached := (h.rest.reached_of_queued hk rfl).2
    have hstart : (∀ t answer, s₀.Owed (hs ++ [.act .step]) t id request answer) →
        ∀ {v call stdout stderr result}, Starting call stdout stderr v result →
        Signals False s v → Concerted s₀ (hs ++ [.act .step]) (endStart id result) := by
      rintro howed v call stdout stderr ⟨t, outcome⟩ hstarting hv
      have hsignals := hv.trans hstarting.signals
      have hstarted := h.rest.signals hsignals
      have hk' := (task?_congr hsignals.tasks id).trans hk
      cases outcome with
      | ok => exact hstarted.endTask hk' rfl (howed _ _)
      | error => exact hstarted.endTask hk' rfl (howed _ _)
    split
    next => exact h.rest.endTask hk rfl trivial
    next =>
      split
      next =>
        split
        next =>
          split
          · exact hrequire (by rintro ⟨⟩)
          · exact h.rest.launch hruns hk rfl trivial hreached ..
        next => exact hrequire (by rintro ⟨⟩)
      next hdetached =>
        refine h.rest.endTask hk rfl (.detached hreached rfl ?_)
        rw [h.now]
        exact Bool.eq_false_iff.mpr hdetached
    next => exact h.rest.launch hruns hk rfl trivial hreached ..
    next =>
      split
      next => exact hnews _
      next => exact hanswer trivial
    next =>
      split
      next => exact hnews _
      next => exact hanswer trivial
    next => exact hrequire (by rintro ⟨⟩)
    next => exact absurd rfl (h.rest.plain id _ hk)
    next =>
      exact hstart (fun _ _ => trivial) (superviseCall_spec (s := s.unannounced) h.kept ..)
        (.of_same rfl rfl rfl fun _ hi => hi)
    next call stdout stderr =>
      exact hstart (fun _ _ => trivial) (superviseCall_spec h.kept ..)
        (.of_same rfl rfl rfl fun _ hi => hi)
    next => exact h.startup hk
    next => exact hnews _
  next => exact h.rest

/-- A task that waited goes on. -/
theorem resume (h : Takes s₀ hs (.resume id) s) :
    Concerted s₀ (hs ++ [.act .step]) (s.resume id) := by
  unfold Session.resume
  cases hk : s.task? id with
  | none => exact h.rest
  | some k =>
    dsimp only [Option.map_some]
    cases hs' : k.standing with
    | awaitingNews wait =>
      have hopen : k.hasEnded = false := Task.hasEnded_eq_false hs' not_false
      have hasks := (h.sound.waiters.waiting id k wait hk hs').1
      dsimp only
      unfold concludeNews
      split
      next =>
        obtain ⟨answer, htasks⟩ := s.answerNews_tasks id
        exact h.rest.advance (.answerNews s id) hk hopen htasks (Owed.of_asksNews hasks)
          (by rintro ⟨⟩) False.elim
      next => exact h.rest.endTask hk hopen (Owed.of_asksNews hasks)
    | phaseCame ready crashed => exact h.concludePhase hk hs'
    | startupCame answer =>
      have hfits := h.rest.fits id k hk
      rw [hs'] at hfits
      obtain ⟨hne, htold⟩ := hfits
      have hopen : k.hasEnded = false := Task.hasEnded_eq_false hs' not_false
      exact h.rest.useServer h.sound.runners hk hopen hne htold
    | _ => exact h.rest

/-- A startup hears that one of its waits has ended. -/
theorem phaseEnded (h : Takes s₀ hs (.phaseEnded id) s) :
    Concerted s₀ (hs ++ [.act .step]) (s.phaseEnded id) := by
  unfold Session.phaseEnded
  cases hk : s.task? id with
  | none => exact h.rest
  | some k =>
    dsimp only [Option.map_some]
    cases hs' : k.standing with
    | awaitingPhase ready crashed =>
      have hfits := h.rest.fits id k hk
      rw [hs'] at hfits
      obtain ⟨hr, hwatching⟩ := hfits
      obtain ⟨k', hk', -, hcame⟩ := h.concerted.roused id (h.queue ▸ List.mem_cons_self)
      cases hk.symm.trans ((h.task? id).symm.trans hk')
      have hcame := hcame ready crashed hs'
      rw [Came, h.server] at hcame
      dsimp only
      refine h.rest.turn hk (watched?_open (by rw [hs']; rfl)) rfl rfl (.inl rfl) (fun i hi => ?_)
        ⟨hr, ⟨hwatching.watches, hwatching.died⟩, hcame⟩ (by rintro ⟨⟩) False.elim
      refine (List.mem_append.mp hi).resolve_right fun hi => ?_
      cases List.mem_singleton.mp hi
    | _ => exact h.rest

/-- One who waits for the startup hears that it has ended. -/
theorem startupEnded (h : Takes s₀ hs (.startupEnded id) s) :
    Concerted s₀ (hs ++ [.act .step]) (s.startupEnded id) := by
  have ha := Apart.startupEnded s id
  unfold Session.startupEnded at ha ⊢
  cases hk : s.task? id with
  | none => exact h.rest
  | some k =>
    rw [hk] at ha
    dsimp only [Option.map_some] at ha ⊢
    cases hs' : k.standing with
    | awaitingStartup startup =>
      rw [hs'] at ha
      have hfits := h.rest.fits id k hk
      rw [hs'] at hfits
      obtain ⟨hne, k', hk', hr⟩ := hfits
      have hopen : k.hasEnded = false := Task.hasEnded_eq_false hs' not_false
      dsimp only at ha ⊢
      rw [hk', Option.bind_some] at ha ⊢
      cases ha' : k'.answer? with
      | none => exact h.rest
      | some answer =>
        rw [ha'] at ha
        have hjoined : s₀.Joined (hs ++ [.act .step]) id startup :=
          joined_concat.mpr (.inr ⟨k, (h.task? id).trans hk, hs'⟩)
        have hended : s.task? startup = some ⟨.startup, .ended answer⟩ := by
          rw [hk', eq_ended_of_answer? ha', hr]
        exact h.rest.advance ha hk hopen rfl ⟨hne, .shared hjoined hended⟩ (by rintro ⟨⟩)
          False.elim
    | _ => exact h.rest

/-- The exit of a process ends its run, or is a crash of the server. -/
theorem awaitExit (h : Takes s₀ hs n s) (hreact : s.react n = s.awaitExit pid) :
    Concerted s₀ (hs ++ [.act .step]) (s.awaitExit pid) := by
  have hnext := h.next
  rw [hreact] at hnext
  have hruns := h.sound.runners
  have htouch := World.touches_awaitExit s.world pid
  generalize hafter : s.awaitExit pid = t at hnext ⊢
  unfold Session.awaitExit at hafter
  split at hafter
  next code r id hw hr ht =>
    subst hafter
    obtain ⟨k, hk, hrun⟩ := taskOfRun?_some ht
    obtain ⟨answer, htasks, hanswer⟩ := conclude_answer
      (s := { s with engine := (s.engine.finish r code s.world.clock).1 }) hk
      (s.engine.finish r code s.world.clock).2
    exact h.rest.advance (.finishRun s id r code) hk (runs?_open hrun) htasks
      (Owed.of_run (hruns.tasks id k pid hk hrun).1 ((h.rest.fits id k hk).reached hrun) hanswer)
      (by rintro ⟨⟩) False.elim
  next w r id hw hr ht =>
    subst hafter
    obtain ⟨k, hk, hrun⟩ := taskOfRun?_some ht
    obtain ⟨hmem, rfl⟩ := mem_runs_of_run? hr
    rw [hw] at htouch
    exact h.rest.advance ((Apart.touch htouch (hruns.apart r hmem)).trans (.setStanding _ id _)) hk
      (runs?_open hrun) rfl ((h.rest.fits id k hk).reached hrun) (by rintro ⟨⟩) False.elim
  next w code hw hother =>
    split at hafter
    next supervisor ended he =>
      by_cases hheld : s.server.supervisor.held = some pid
      · obtain ⟨phases, ended', -, he', hcurrent, -⟩ := h.kept.guarded.processEnded_eq hheld
        have hmoves := Supervisor.processEnded_moves he
        cases he'.symm.trans he
        have hcrashed : t.server.supervisor.state = .crashed := by
          rw [← hafter]
          exact hcurrent
        have hdied : ∀ i, t.Underway i → s₀.Died (hs ++ [.act .step]) i := fun i hi =>
          ⟨_, [], (List.append_nil _).symm, by rw [hnext, hcrashed], hnext ▸ hi⟩
        have hsignals := Signals.setSupervisor hmoves
        rw [hafter] at hsignals
        exact h.rest.moves hsignals fun _ => hdied
      · rw [Supervisor.processEnded, if_neg hheld] at he
        cases he
        subst hafter
        exact h.rest.signals (.setSupervisor (.refl _))
    next =>
      subst hafter
      exact h.rest
  next w hw hother =>
    subst hafter
    exact h.rest.signals (.of_same rfl rfl rfl fun _ hi => hi)

theorem read (h : Takes s₀ hs n s) (pid : Pid) (stream : Stream) :
    Concerted s₀ (hs ++ [.act .step]) (s.read pid stream) := by
  have hruns := h.sound.runners
  unfold Session.read
  split
  next r hr =>
    obtain ⟨hmem, rfl⟩ := mem_runs_of_run? hr
    refine h.rest.apart (.readVerifier hruns hmem stream) ?_
    cases hopen : (r.tap stream).ended with
    | false =>
      obtain ⟨w, chunks, closed, -, -, htasks, -⟩ := readVerifier_spec hruns hmem hopen
      exact htasks
    | true => rw [readVerifier, hopen, if_pos rfl]
  next r hr hreader => exact h.rest.signals (readServer_signals s r)
  next => exact h.rest

/-- **Every notice keeps a session concerted.** -/
theorem react (h : Takes s₀ hs n s) : Concerted s₀ (hs ++ [.act .step]) (s.react n) := by
  cases n with
  | begin id => exact h.begin
  | wake wake =>
    cases wake with
    | output pid stream => exact h.read pid stream
    | exit pid => exact h.awaitExit rfl
  | streamEnded pid =>
    have ha := Apart.streamEnded h.sound.runners (h.sound.runners.noticed pid List.mem_cons_self)
    rcases s.streamEnded_tasks pid with htasks | ⟨id, k, m, hk, hrun, htasks⟩
    · exact h.rest.apart ha htasks
    · exact h.rest.advance ha hk (runs?_open hrun) htasks ((h.rest.fits id k hk).reached hrun)
        (by rintro ⟨⟩) False.elim
  | outputEnded pid => exact h.awaitExit rfl
  | phaseEnded id => exact h.phaseEnded
  | startupEnded id => exact h.startupEnded
  | resume id => exact h.resume

end Takes

end VerifierHost.Session
