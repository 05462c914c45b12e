import VerifierHost.Proofs.Server.Startup

/-! # What those who ask for the server are told

A request that asks for the server uses the address that is known, or waits for the startup that all
share (`Session.Concerted.requireServer`). Once it is told what became of that, it ends or a run is
launched for it, and the run says nothing more about the server. -/

namespace VerifierHost.Session

variable {s₀ s t u : Session} {hs : List Happening} {n : Notice} {ns : List Notice}
  {id i : TaskId} {k : Task} {answer : Answer} {ready crashed : WaitId} {pid : Pid}

/-! ## Answers of runs -/

/-- What a run that is concluded answers to the request for it. -/
theorem conclude_answer (hk : s.task? id = some k) (c : Conclusion) : ∃ answer,
    (s.conclude id c).tasks = (s.setStanding id (.ended answer)).tasks ∧
      ∀ path target address, k.request = .verify path target address → answer.OfRun := by
  obtain ⟨request, standing⟩ := k
  have hfound : ((s.showAll c.effects).noticeNews c.released).task? id =
      some ⟨request, standing⟩ := hk
  unfold conclude answerRun
  rw [hfound]
  split
  next => exact ⟨_, rfl, fun _ _ _ _ => trivial⟩
  all_goals
    split
    next => exact ⟨_, setStanding_tasks_congr (refreshHints_tasks _) id _, fun _ _ _ _ => trivial⟩
    next hno =>
      refine ⟨_, rfl, fun path target address hr => ?_⟩
      cases hr
      exact absurd rfl (hno path target address standing)

/-- A run that is launched goes on, or its request is answered at once. -/
theorem launch_answer (hk : s.task? id = some k) (path : Text) (target : VerificationTarget)
    (address : Text) : ∃ standing,
      (s.launch id path target address).tasks = (s.setStanding id standing).tasks ∧
        ((∃ pid, standing = .awaitingOutput pid 0) ∨ ∃ answer, standing = .ended answer ∧
          ∀ path target address, k.request = .verify path target address → answer.OfRun) := by
  have hlaunch := s.launch_spec id path target address
  generalize s.launch id path target address = t at hlaunch ⊢
  cases hlaunch with
  | spawned _ tasks => exact ⟨_, tasks, .inl ⟨_, rfl⟩⟩
  | @refused u _ tasks =>
    have hu : u.task? id = some k := (task?_congr tasks id).trans hk
    obtain ⟨answer, htasks, hrun⟩ := conclude_answer
      (s := { u with
        engine := (u.engine.conclude u.engine.runCount target (shownName path) .crash none).1 }) hu
      (u.engine.conclude u.engine.runCount target (shownName path) .crash none).2
    exact ⟨_, htasks.trans (setStanding_tasks_congr tasks id _), .inr ⟨answer, rfl, hrun⟩⟩
  | aborted _ tasks =>
    exact ⟨_, setStanding_tasks_congr tasks id _, .inr ⟨_, rfl, fun _ _ _ _ => trivial⟩⟩

/-- A request to verify that a run has answered has its answer. -/
theorem Owed.of_run (hver : k.request.Verifies) (hreached : s₀.Reached hs s id)
    (hrun : ∀ path target address, k.request = .verify path target address → answer.OfRun) :
    s₀.Owed hs s id k.request answer := by
  cases hr : k.request with
  | verify path target address => exact .ran hreached (hrun path target address hr)
  | run => trivial
  | _ => rw [hr] at hver; cases hver

namespace Concerted

theorem launch (h : Concerted s₀ hs s) (hruns : Runners ns s) (hk : s.task? id = some k)
    (hopen : k.hasEnded = false) (hver : k.request.Verifies) (hreached : s₀.Reached hs s id)
    (path : Text) (target : VerificationTarget) (address : Text) :
    Concerted s₀ hs (s.launch id path target address) := by
  have ha := Apart.launch hruns id path target address
  obtain ⟨standing, htasks, hcases⟩ := launch_answer hk path target address
  rcases hcases with ⟨pid, rfl⟩ | ⟨answer, rfl, hrun⟩
  · exact h.advance ha hk hopen htasks hreached (by rintro ⟨⟩) False.elim
  · exact h.advance ha hk hopen htasks (Owed.of_run hver hreached hrun) (by rintro ⟨⟩) False.elim

/-! ## The startup and those who wait for it -/

/-- Whoever is told of an address has waited for no startup that came to nothing. -/
theorem reached_of_told (h : Concerted s₀ hs s) {address : Text}
    (ht : s₀.Told hs s id (.address address)) : s₀.Reached hs s id := by
  intro i hi
  cases ht with
  | known alone => exact absurd hi (alone i)
  | shared joined ended =>
    obtain ⟨_, _, _, hone⟩ := h.devoted id i hi
    cases hone _ (.inr joined)
    exact ⟨address, ended⟩

/-- One goes on who was told what became of the server. -/
theorem useServer (h : Concerted s₀ hs s) (hruns : Runners ns s) (hk : s.task? id = some k)
    (hopen : k.hasEnded = false) (hne : k.request ≠ .startup) (ht : s₀.Told hs s id answer) :
    Concerted s₀ hs (s.useServer id answer) := by
  unfold Session.useServer
  split
  next hk' =>
    cases hk.symm.trans hk'
    exact h.launch hruns hk hopen trivial (h.reached_of_told ht) ..
  next why hk' =>
    cases hk.symm.trans hk'
    have hreply : s₀.Replied hs s id why.reply := by
      cases ht with
      | shared joined ended => exact .unreached joined ended
    unfold Failure.reply at hreply
    split
    next hr =>
      rw [hr] at hreply
      exact h.endTask hk hopen hreply
    next hr =>
      rw [hr] at hreply
      exact h.endTask hk hopen hreply
  next hno hno' =>
    refine h.endTask hk hopen ?_
    obtain ⟨request, standing⟩ := k
    cases request with
    | verify path target address =>
      cases ht with
      | known => exact absurd rfl (hno path target address standing _ hk)
      | shared joined ended =>
        obtain ⟨before, x, later, -, hsettles⟩ := h.fits _ _ ended
        cases hsettles with
        | ready => exact absurd rfl (hno path target address standing _ hk)
        | _ => exact absurd rfl (hno' path target address standing _ hk)
    | ensureReady => exact ht
    | startup => exact absurd rfl hne
    | _ => trivial

theorem joinStartup (h : Concerted s₀ hs s) (hknows : s.KnowsStartup) :
    Concerted s₀ hs s.joinStartup.1 ∧ s.joinStartup.1.IsStartup s.joinStartup.2 := by
  have hadd : (∀ i k, s.task? i = some k → k.request = .startup → k.hasEnded = true) →
      Concerted s₀ hs { (s.addTask .startup).1 with startup := some (s.addTask .startup).2 } ∧
        IsStartup { (s.addTask .startup).1 with startup := some (s.addTask .startup).2 }
          (s.addTask .startup).2 := by
    intro hover
    refine ⟨h.add rfl (by rintro ⟨⟩) (.inr ⟨rfl, hover⟩) rfl fun i hi => ?_, ⟨.startup, .queued⟩,
      List.getElem?_concat_length, rfl⟩
    rcases List.mem_append.mp hi with hi | hi
    · exact hi
    · cases List.mem_singleton.mp hi
  unfold Session.joinStartup
  split
  next j hj =>
    obtain ⟨k, hk, hr⟩ := hknows j hj
    split
    next hended =>
      refine hadd fun i k' hk' hr' => ?_
      rw [hk, Option.any_some] at hended
      by_contra hopen
      have hi := h.sole i k' hk' hr' (Bool.eq_false_iff.mpr hopen)
      cases hj.symm.trans hi
      cases hk.symm.trans hk'
      exact hopen hended
    next => exact ⟨h, k, hk, hr⟩
  next hnone =>
    refine hadd fun i k' hk' hr' => ?_
    by_contra hopen
    cases hnone.symm.trans (h.sole i k' hk' hr' (Bool.eq_false_iff.mpr hopen))

/-- The server is used at once if it is ready; otherwise its startup is awaited. -/
theorem requireServer (h : Concerted s₀ hs s) (hruns : Runners ns s) (hknows : s.KnowsStartup)
    (hk : s.task? id = some k) (hq : k.standing = .queued) (hne : k.request ≠ .startup)
    (hready : ∀ address, s.server.address = some address → s₀.Fate hs id (.address address)) :
    Concerted s₀ hs (s.requireServer id) := by
  have hopen : k.hasEnded = false := Task.hasEnded_eq_false hq not_false
  unfold Session.requireServer
  split
  next address ha =>
    exact h.useServer hruns hk hopen hne (.known (h.reached_of_queued hk hq).1 (hready address ha))
  next =>
    obtain ⟨hjoined, hstartup⟩ := h.joinStartup hknows
    exact hjoined.advance (.setStanding _ id _) (Deals.joinStartup_task? hk) hopen rfl
      ⟨hne, hstartup⟩ (by rintro ⟨⟩) fun _ => hq

/-- A startup that has started the server begins to watch it. -/
theorem awaitPhase (h : Concerted s₀ hs s) (hk : s.task? id = some k) (hq : k.standing = .queued)
    (hr : k.request = .startup)
    (hstates : s.server.supervisor.phases.states = ServerState.all)
    (hrunning : s.server.supervisor.state = .running) : Concerted s₀ hs (s.awaitPhase id) := by
  have hopen : k.hasEnded = false := Task.hasEnded_eq_false hq not_false
  have hcurrent : s.server.supervisor.phases.current = .running := hrunning
  obtain ⟨hcalm, hwatches, hpending, -⟩ := Supervisor.watches_waitFor hstates h.calm
    (by rw [hcurrent]; decide) (by rw [hcurrent]; decide)
  unfold Session.awaitPhase
  rw [hrunning]
  refine h.turn hk hopen rfl rfl (.inr ⟨hr, hcalm⟩) (fun i hi => ?_) ⟨hr, hwatches, fun hc => ?_⟩
    (by rintro ⟨⟩) fun _ => hq
  · rcases List.mem_append.mp hi with hi | hi
    · exact hi
    · -- nobody else watches the server, whose waits would have been replaced
      obtain ⟨j, -, k', ready, crashed, hk', hs, -⟩ := mem_phaseNotices hi
      have hk' : s.task? j = some k' := hk'
      have hj := (h.startup_of_watched hk' (by rw [hs]; rfl)).2
      cases hj.symm.trans (h.sole id k hk hr hopen)
      cases hk.symm.trans hk'
      cases hs.symm.trans hq
  · exact absurd (Option.some.inj (hpending.symm.trans hc)) (by decide)

end Concerted

end VerifierHost.Session
