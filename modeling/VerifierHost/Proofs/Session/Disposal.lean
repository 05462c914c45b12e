import VerifierHost.Proofs.Session.Astray
import VerifierHost.Proofs.Session.Resigned

/-! # What a dispose leaves

A dispose kills the verifiers of all runs, stops the server and cancels all waits. Whatever happened
before, it kills all processes that were started and have not ended but those that were lost, it
tells everyone who waits, and if nobody was about to use the server nothing starts any more
(`Session.Fresh.disposed`). -/

namespace VerifierHost

namespace Session

variable {s t u v : Session} {id : TaskId} {k : Task} {request : Request} {standing : Standing}
  {xs : List Occurrence} {lost : List Pid}

/-- A task that may use a server still when all waits are cancelled: it has not begun, or the
startup it asked for has come to an address. -/
def Poised (s : Session) (id : TaskId) : Prop :=
  ∃ k, s.task? id = some k ∧
    (k.standing = .queued ∨ ∃ a, s.prospect? k.standing = some (.address a))

/-- Once nothing is left to notice nobody is poised. -/
theorem Cared.not_poised (h : s.Cared) (hq : s.queue = []) : ¬ s.Poised id := by
  have hnone : ∀ {m : Notice}, m ∉ s.queue := by
    rw [hq]
    exact List.not_mem_nil
  rintro ⟨k, hk, hqueued | ⟨a, ha⟩⟩
  · exact hnone (h.sound.waiters.queued id k hk hqueued)
  · cases hs : k.standing with
    | startupCame answer => exact hnone (h.linked.came id k answer hk hs).2.2
    | awaitingStartup i =>
      rw [hs] at ha
      obtain ⟨ki, hki, hanswer⟩ := Option.bind_eq_some_iff.mp ha
      obtain ⟨-, hduly⟩ := h.linked.waits id k i hk hs
      refine hnone (hduly.told ?_)
      rw [hki, Option.any_some, Task.hasEnded, hanswer]
      rfl
    | _ => rw [hs] at ha; cases ha

/-- All waits are cancelled, and those who waited are told. -/
def cancelWaits (s : Session) : Session :=
  (s.setSupervisor s.server.supervisor.cancelWaits.1
    s.server.supervisor.cancelWaits.2).disposeFindings

theorem mem_cancelWaits {m : Notice} (hm : m ∈ s.queue) : m ∈ s.cancelWaits.queue :=
  List.mem_append_left _ (List.mem_append_left _ hm)

/-- From one session to another all verifiers were killed and the server was stopped, and its
startup is over. -/
structure Cleared (s v : Session) : Prop where
  cared : v.Cared
  startup : v.startup = none
  stopped : v.server.supervisor.state = .stopped
  held : v.server.supervisor.held = none
  engine : v.engine = s.engine
  handles : Handles (s.engine.pids ++ s.server.supervisor.held.toList) [] s v
  tasks : ∀ id, v.task? id = s.task? id ∨ ∃ k, s.task? id = some k ∧
    v.task? id = some { k with standing := .ended (.failed .cancelled) }

theorem stopServer_task? (s : Session) (id : TaskId) : s.stopServer.1.task? id = s.task? id ∨
    ∃ k, s.task? id = some k ∧
      s.stopServer.1.task? id = some { k with standing := .ended (.failed .cancelled) } := by
  obtain ⟨u, he, hu⟩ := s.stopServer_cases
  have hlast : s.stopServer.1.task? id = u.task? id := by
    rw [he]
    exact task?_congr (stopSupervised_tasks { u with startup := none }) id
  rw [hlast]
  rcases hu with ⟨-, rfl⟩ | ⟨i, -, rfl⟩
  · exact .inl rfl
  · rcases s.unannounced.cancel_quits i with ⟨-, hsame⟩ | ⟨k, hq⟩
    · rw [hsame]
      exact .inl rfl
    · by_cases hid : id = i
      · subst hid
        exact .inr ⟨k, hq.task, hq.self⟩
      · exact .inl (hq.others hid)

/-- **A dispose succeeds.** -/
theorem Cared.dispose_ok (h : s.Cared) (hruns : s.attached = true ∨ s.engine.pids = []) :
    ∃ v, s.dispose = (v.cancelWaits, .ok ()) ∧ Cleared s v := by
  obtain ⟨s₁, hs₁, hc, hkilled, hengine, hserver, htasks⟩ : ∃ s₁,
      (if s.attached then s.killRuns else s) = s₁ ∧ s₁.Cared ∧ Handles s.engine.pids [] s s₁ ∧
        s₁.engine = s.engine ∧ s₁.server = s.server ∧ s₁.tasks = s.tasks := by
    by_cases hattached : s.attached = true
    · obtain ⟨hengine, htasks, hserver, -⟩ := s.killRuns_same
      exact ⟨_, if_pos hattached, h.killRuns, .killRuns s, hengine, hserver, htasks⟩
    · refine ⟨s, if_neg hattached, h, ?_, rfl, rfl, rfl⟩
      rw [hruns.resolve_left hattached]
      exact .refl s
  obtain ⟨t, ht, hkeeps, hsame, -, hnone⟩ := hc.stopServer_ok
  have hct : t.Cared := by
    have hstop := hc.stop
    rwa [ht] at hstop
  obtain ⟨v, hv, hhandles, -, hstopped, hheld⟩ := stopSupervised_ok hct.guarded
  rw [hnone] at hhandles
  have hcv : v.Cared := by
    have hstop := hct.stopSupervised
    rwa [hv] at hstop
  have htasks' : ∀ id, v.task? id = s₁.stopServer.1.task? id := fun id => by
    refine task?_congr ?_ id
    rw [ht, ← stopSupervised_tasks t, hv]
  refine ⟨v, ?_, hcv, ?_, hstopped, hheld, ?_, ?_, fun id => ?_⟩
  · unfold dispose
    dsimp only
    rw [hs₁, ht]
    dsimp only
    rw [disposeSupervisor, hv]
    rfl
  · have hstartup := s₁.stopServer_startup
    rw [ht, ← stopSupervised_startup t, hv] at hstartup
    exact hstartup
  · have haside := (Aside.stopSupervised t).engine
    rw [hv] at haside
    exact haside.trans (hsame.trans hengine)
  · have hall := (hkilled.trans hkeeps.handles).before hhandles
    rwa [hserver] at hall
  · rw [htasks' id, ← task?_congr htasks id]
    exact s₁.stopServer_task? id

namespace Cleared

/-- Whoever was not poised has resigned. -/
theorem resigned (h : Cleared s v) (hk : s.task? id = some k) (hnot : ¬ s.Poised id) :
    ∃ standing, v.task? id = some ⟨k.request, standing⟩ ∧ v.Resigned standing ∧
      (standing = k.standing ∨ standing.IsEnded) := by
  rcases h.tasks id with hsame | ⟨k', hk', hcancelled⟩
  rotate_left
  · cases hk.symm.trans hk'
    exact ⟨_, hcancelled, fun hway => hway.elim, .inr trivial⟩
  have hkv := hsame.trans hk
  refine ⟨k.standing, hkv, fun hway => ?_, .inl rfl⟩
  cases hs : k.standing with
  | queued => exact absurd ⟨k, hk, .inl hs⟩ hnot
  | startupCame answer =>
    have hserver := (h.cared.linked.came id k answer hkv hs).2.1
    cases answer with
    | address a => exact absurd ⟨k, hk, .inr ⟨a, by rw [hs]; rfl⟩⟩ hnot
    | failed why => exact ⟨why, rfl⟩
    | _ => exact hserver.elim
  | awaitingStartup i =>
    obtain ⟨-, ki, hki, hr, -, hunder⟩ := h.cared.linked.waits id k i hkv hs
    have hended : ki.hasEnded = true := by
      by_contra hopen
      cases h.startup.symm.trans (hunder (Bool.eq_false_iff.mpr hopen))
    obtain ⟨answer, hanswer⟩ := Option.isSome_iff_exists.mp hended
    have hserver := h.cared.linked.tells i ki answer hki hr
      (congrArg Task.standing (eq_ended_of_answer? hanswer))
    have hprospect : v.prospect? (.awaitingStartup i) = some answer :=
      Option.bind_eq_some_iff.mpr ⟨ki, hki, hanswer⟩
    cases answer with
    | failed why => exact ⟨why, hprospect⟩
    | address a =>
      refine absurd ⟨k, hk, .inr ⟨a, ?_⟩⟩ hnot
      rcases h.tasks i with hsame | ⟨k', -, hcancelled⟩
      · rw [hs]
        exact Option.bind_eq_some_iff.mpr ⟨ki, hsame.symm.trans hki, hanswer⟩
      · cases hcancelled.symm.trans hki
        cases hanswer
    | _ => exact hserver.elim
  | _ => rw [hs] at hway; exact hway.elim

/-- **Whoever waits is told** that there is nothing to wait for any more. -/
theorem summoned (h : Cleared s v) (hk : v.task? id = some ⟨request, standing⟩)
    (hidle : standing.runs? = none) :
    standing.IsEnded ∨ ∃ m, standing.summons? id = some m ∧ m ∈ v.cancelWaits.queue := by
  cases standing with
  | ended => exact .inl trivial
  | queued => exact .inr ⟨_, rfl, mem_cancelWaits (h.cared.sound.waiters.queued id _ hk rfl)⟩
  | awaitingNews w =>
    refine .inr ⟨_, rfl, ?_⟩
    rcases (h.cared.sound.waiters.waiting id _ w hk rfl).2 with hexpects | ⟨-, hmem⟩
    · exact resume_mem_noticeNews.mpr (.inr ⟨w, hexpects.cancelled, _, hk, rfl⟩)
    · exact mem_cancelWaits hmem
  | awaitingPhase ready crashed =>
    refine .inr ⟨_, rfl, ?_⟩
    rcases h.cared.watchers.waits id _ ready crashed hk rfl with hmem | ⟨hhopes, -⟩
    · exact mem_cancelWaits hmem
    · exact List.mem_append_left _ (List.mem_append_right _
        (mem_phaseNotices_of hk rfl (.inl hhopes.cancelled)))
  | phaseCame ready crashed =>
    exact .inr ⟨_, rfl, mem_cancelWaits (h.cared.watchers.looks id _ ready crashed hk rfl)⟩
  | awaitingStartup i =>
    obtain ⟨-, ki, hki, -, hover, hunder⟩ := h.cared.linked.waits id _ i hk rfl
    refine .inr ⟨_, rfl, mem_cancelWaits (hover ?_)⟩
    by_contra hopen
    cases h.startup.symm.trans (hunder (Bool.eq_false_iff.mpr hopen))
  | startupCame answer =>
    exact .inr ⟨_, rfl, mem_cancelWaits (h.cared.linked.came id _ answer hk rfl).2.2⟩
  | awaitingOutput | awaitingExit => cases hidle

/-- Whoever runs no verifier and was not poised winds up. -/
theorem winds_up (h : Cleared s v) (hk : s.task? id = some k) (hidle : k.standing.runs? = none)
    (hnot : ¬ s.Poised id) : v.cancelWaits.WindsUp id k.request := by
  obtain ⟨standing, hkv, hresigned, hor⟩ := h.resigned hk hnot
  refine ⟨standing, hkv, hresigned.keeps (.of_tasks rfl), h.summoned hkv ?_⟩
  rcases hor with rfl | hended
  · exact hidle
  · cases standing with
    | ended => rfl
    | _ => exact hended.elim

/-- If nobody was poised nothing starts any more. -/
theorem still (h : Cleared s v) (hnone : ∀ id, ¬ s.Poised id) : v.cancelWaits.Still := by
  refine ⟨⟨h.cared.guarded.states, h.cared.guarded.guard⟩, h.stopped, fun id k hk => ?_⟩
  have hkv : v.task? id = some k := hk
  obtain ⟨k', hk'⟩ : ∃ k', s.task? id = some k' := by
    rcases h.tasks id with hsame | ⟨k', hk', -⟩
    · exact ⟨k, hsame.symm.trans hkv⟩
    · exact ⟨k', hk'⟩
  obtain ⟨standing, hkv', hresigned, -⟩ := h.resigned hk' (hnone id)
  cases hkv.symm.trans hkv'
  exact hresigned.keeps (.of_tasks rfl)

/-- **What has not ended was killed**, unless it was lost. -/
theorem killed_iff (h : Cleared s v) (htally : Tally lost s) (hs : s.world.Sane) :
    ∀ pid ∈ v.spawned, ¬ v.world.HasEnded pid → (pid ∈ v.killed ↔ pid ∉ lost) := by
  intro pid hpid halive
  have howned : s.Owned pid ↔ pid ∈ s.engine.pids ++ s.server.supervisor.held.toList := by
    rw [Owned, List.mem_append, Option.mem_toList]
  rw [h.handles.spawned, List.append_nil] at hpid
  rw [h.handles.killed, List.mem_append, ← howned]
  constructor
  · rintro hor hlost
    obtain ⟨-, hnot, hfree⟩ := htally.astray pid hlost
    exact hor.elim hnot hfree
  · intro hfound
    rcases htally.cover pid hpid with hended | hkilled | hown | hlost
    · exact absurd (h.handles.ages.ended hs pid hended) halive
    · exact .inl hkilled
    · exact .inr hown
    · exact absurd hlost hfound

end Cleared

/-- No process is held, no address is known and no wait is left. -/
structure Bare (s : Session) : Prop where
  stopped : s.server.supervisor.state = .stopped
  held : s.server.supervisor.held = none
  address : s.server.address = none
  startup : s.startup = none
  news : s.engine.updates.pending = []
  phases : s.server.supervisor.phases.waiting = []

theorem Cleared.bare (h : Cleared s v) : v.cancelWaits.Bare := by
  have hstopped : v.cancelWaits.server.supervisor.state = .stopped := h.stopped
  refine ⟨hstopped, h.held, ?_, h.startup, rfl, rfl⟩
  unfold SharedServer.address
  rw [hstopped]
  exact if_neg nofun

/-- **What a dispose leaves**, whatever was asked and cancelled before and however often the server
was started and stopped. No process is held and nothing is waited for. What was started has ended
or was killed, except for the verifiers that were lost: those whose tasks were cancelled before they
were killed. Everyone who waited ends, and nothing is started any more whatever processes do, unless
something is asked; only who is about to use the server may still do so, which nobody is once
nothing is left to notice. -/
theorem Fresh.disposed (h : s.Fresh) (xs : List Occurrence)
    (hruns : s.attached = true ∨ (s.enduring xs).engine.pids = []) :
    ∃ u, (s.enduring xs).dispose = (u, .ok ()) ∧ u.Bare ∧
      (∀ pid ∈ u.spawned, ¬ u.world.HasEnded pid → (pid ∈ u.killed ↔ pid ∉ s.lost xs)) ∧
      (∀ id k, (s.enduring xs).task? id = some k → k.standing.runs? = none →
        ¬ (s.enduring xs).Poised id → ∀ later, ∃ m answer,
          ((u.after later).run m).task? id = some ⟨k.request, .ended answer⟩) ∧
      ((∀ id, ¬ (s.enduring xs).Poised id) → ∀ later, (∀ request, .ask request ∉ later) →
        (u.after later).spawned = u.spawned ∧
          (u.after later).server.supervisor.state = .stopped ∧
          (u.after later).server.supervisor.held = none ∧
          (u.after later).server.address = none) ∧
      ((s.enduring xs).queue = [] → ∀ id, ¬ (s.enduring xs).Poised id) := by
  obtain ⟨hcared, htally, hattached⟩ := h.enduring xs
  obtain ⟨v, he, hcleared⟩ := hcared.dispose_ok (hruns.imp_left hattached.trans)
  refine ⟨v.cancelWaits, he, hcleared.bare, ?_, fun id k hk hidle hnot later => ?_,
    fun hnone later hlater => ?_, fun hq id => hcared.not_poised hq⟩
  · exact hcleared.killed_iff htally hcared.sound.runners.sane
  · exact ((hcleared.winds_up hk hidle hnot).after later).ends
  · obtain ⟨hstill, hquiet⟩ := (hcleared.still hnone).after hlater
    refine ⟨?_, hstill.stopped, hstill.held, hstill.address⟩
    rw [hquiet.spawned, List.append_nil]

/-- Hints wait for a run whose verifier is lost, and a caller waits for the server. -/
def straying : List Occurrence :=
  let steps := List.replicate 8 (.meets (.act .step))
  .meets (.act (.ask (.run "/w/a.rs" .file "here"))) :: steps ++
    .meets (.act (.ask (.hints "/w/a.rs"))) :: steps ++
    .meets (.cancel 0) :: .meets (.act (.ask .ensureReady)) :: steps

theorem disposed_straying : quiet.Fresh ∧ quiet.attached = true ∧
    (quiet.enduring straying).queue = [] ∧ quiet.lost straying = [1] ∧
    (quiet.enduring straying).tasks.map Task.hasEnded = [true, false, false, false] ∧
    ∃ u, (quiet.enduring straying).dispose = (u, .ok ()) ∧ u.Bare ∧
      1 ∈ u.spawned ∧ ¬ u.world.HasEnded 1 ∧ 1 ∉ u.killed ∧
      2 ∈ u.spawned ∧ ¬ u.world.HasEnded 2 ∧ 2 ∈ u.killed ∧
      (∀ id k, (quiet.enduring straying).task? id = some k →
        ∃ m answer, (u.run m).task? id = some ⟨k.request, .ended answer⟩) ∧
      (u.after [.feed 2 .stdout [], .step, .step]).spawned = u.spawned := by
  obtain ⟨u, hu, hbare, hkilled, hends, hquiet, hpoised⟩ := fresh_quiet.disposed straying (.inl rfl)
  obtain rfl : u = (quiet.enduring straying).dispose.1 := (congrArg Prod.fst hu).symm
  obtain ⟨hqueue, hlost, hopen, hidle, hspawned, hfirst, hsecond⟩ :
      (quiet.enduring straying).queue = [] ∧ quiet.lost straying = [1] ∧
      (quiet.enduring straying).tasks.map Task.hasEnded = [true, false, false, false] ∧
      (∀ k ∈ (quiet.enduring straying).tasks, k.standing.runs? = none) ∧
      (quiet.enduring straying).dispose.1.spawned = [1, 2] ∧
      ((quiet.enduring straying).dispose.1.world.process? 1).bind Process.exit = none ∧
      ((quiet.enduring straying).dispose.1.world.process? 2).bind Process.exit = none := by
    decide +kernel
  have halive : ∀ {pid : Pid}, ((quiet.enduring straying).dispose.1.world.process? pid).bind
      Process.exit = none → ¬ (quiet.enduring straying).dispose.1.world.HasEnded pid := by
    rintro pid hnone ⟨p, code, hp, hcode⟩
    rw [hp, Option.bind_some, hcode] at hnone
    cases hnone
  have hone : 1 ∈ (quiet.enduring straying).dispose.1.spawned := by rw [hspawned]; decide
  have htwo : 2 ∈ (quiet.enduring straying).dispose.1.spawned := by rw [hspawned]; decide
  rw [hlost] at hkilled
  refine ⟨fresh_quiet, rfl, hqueue, hlost, hopen, _, hu, hbare, hone, halive hfirst,
    fun hk => (hkilled 1 hone (halive hfirst)).mp hk (by decide), htwo, halive hsecond,
    (hkilled 2 htwo (halive hsecond)).mpr (by decide), fun id k hk => ?_, ?_⟩
  · exact hends id k hk (hidle k (List.mem_of_getElem? hk)) (hpoised hqueue id) []
  · refine (hquiet (hpoised hqueue) _ fun request hm => ?_).1
    rcases List.mem_cons.mp hm with he | hm
    · cases he
    · rcases List.mem_cons.mp hm with he | hm
      · cases he
      · cases List.mem_singleton.mp hm

end Session

end VerifierHost
