import VerifierHost.Proofs.Server.Watching

/-! # Any request can be given up

Whatever a task waits for, it ends when it is cancelled, and what it waited for is its own: nobody
else is forgotten. A verifier whose task is cancelled runs on, but its run is dropped. -/

namespace VerifierHost

namespace Updates

variable {u : Updates} {file : Text} {w id : WaitId}

/-- A wait that is given up is no other one. -/
theorem ExpectsAt.cancel (h : u.ExpectsAt file w) (hne : id ≠ w) :
    (u.cancel id).ExpectsAt file w := by
  refine (u.cancel_settles id).spared file w h fun hm => hne ?_
  exact (List.mem_singleton.mp ((u.book.mem_finishAll [id] cancelled_ne_pending).mp hm).2).symm

/-- What has been released is not given up any more. -/
theorem released_cancel (h : u.book.status? w = some .released) :
    (u.cancel id).book.status? w = some .released :=
  (u.cancel_settles id).book.steady h released_ne_pending

theorem Expects.isSome (h : u.Expects w) : (u.book.status? w).isSome = true := by
  obtain ⟨file, hp, -⟩ := h
  rw [hp]
  rfl

end Updates

namespace Session

variable {s t u : Session} {n : Notice} {ns : List Notice} {id i j : TaskId} {k : Task} {w : WaitId}
  {pid : Pid}

/-! ## What a cancelled task leaves -/

theorem giveUp_rest (s : Session) (standing : Standing) :
    (s.giveUp standing).queue = s.queue ∧ (s.giveUp standing).events = s.events ∧
      Supervisor.Same s.server.supervisor (s.giveUp standing).server.supervisor := by
  have hgiven : ∀ ready crashed, Supervisor.Same s.server.supervisor
      ((s.server.supervisor.cancelWait ready).cancelWait crashed) := fun ready crashed =>
    (Supervisor.same_cancelWait ..).trans (Supervisor.same_cancelWait ..)
  cases standing with
  | awaitingPhase ready crashed | phaseCame ready crashed =>
    exact ⟨List.append_nil _, rfl, hgiven ready crashed⟩
  | _ => exact ⟨rfl, rfl, .refl _⟩

/-- From one session to another a task has been cancelled. -/
structure Quits (id : TaskId) (k : Task) (s t : Session) : Prop where
  task : s.task? id = some k
  opened : k.hasEnded = false
  tasks : t.tasks = (s.setStanding id (.ended (.failed .cancelled))).tasks
  startup : t.startup = s.startup
  queue : t.queue = s.queue ++ (s.tasksWhere (awaitsStartup id)).map .startupEnded
  events : t.events = s.events
  server : Supervisor.Same s.server.supervisor t.server.supervisor
  result : t = (s.giveUp k.standing).endTask id (.failed .cancelled)

/-- A task that has not ended gives up what it waits for. -/
theorem cancel_quits (s : Session) (id : TaskId) :
    ((∀ k, s.task? id = some k → k.hasEnded = true) ∧ s.cancel id = s) ∨
      ∃ k, Quits id k s (s.cancel id) := by
  cases hk : s.task? id with
  | none =>
    have hover : ∀ k, s.task? id = some k → k.hasEnded = true := fun k hk' => by
      cases hk.symm.trans hk'
    exact .inl ⟨hk ▸ hover, cancel_of_ended hover⟩
  | some k =>
    cases hended : k.hasEnded with
    | true =>
      have hover : ∀ k', s.task? id = some k' → k'.hasEnded = true := fun k' hk' => by
        cases hk.symm.trans hk'
        exact hended
      exact .inl ⟨hk ▸ hover, cancel_of_ended hover⟩
    | false =>
      have he : s.cancel id = (s.giveUp k.standing).endTask id (.failed .cancelled) := by
        unfold cancel
        rw [hk]
        exact if_neg (by rw [hended]; exact Bool.false_ne_true)
      obtain ⟨htasks, hstartup⟩ := s.giveUp_same k.standing
      obtain ⟨hqueue, hevents, hserver⟩ := s.giveUp_rest k.standing
      refine .inr ⟨k, hk, hended, ?_, ?_, ?_, ?_, ?_, he⟩ <;> rw [he]
      · exact setStanding_tasks_congr htasks id _
      · exact hstartup
      · show (s.giveUp k.standing).queue ++
          ((s.giveUp k.standing).tasksWhere (awaitsStartup id)).map Notice.startupEnded = _
        rw [hqueue, tasksWhere, htasks]
        rfl
      · exact hevents
      · exact hserver

/-! ## Who waits for news -/

/-- No two tasks wait for the same news. -/
def NewsApart (s : Session) : Prop :=
  ∀ i j ki kj w, s.task? i = some ki → s.task? j = some kj → ki.standing = .awaitingNews w →
    kj.standing = .awaitingNews w → i = j

theorem NewsApart.of_subset (h : s.NewsApart)
    (hold : ∀ i k w, t.task? i = some k → k.standing = .awaitingNews w → s.task? i = some k) :
    t.NewsApart := fun i j ki kj w hi hj hwi hwj =>
  h i j ki kj w (hold i ki w hi hwi) (hold j kj w hj hwj) hwi hwj

theorem Waiters.known (h : Waiters ns s) (hk : s.task? id = some k)
    (hw : k.standing = .awaitingNews w) : (s.engine.updates.book.status? w).isSome = true := by
  rcases (h.waiting id k w hk hw).2 with he | ⟨hr, -⟩
  · exact he.isSome
  · rw [hr]
    rfl

/-- Whoever begins to wait for news does so for news of its own. -/
theorem Errand.newsApart (he : Errand n s t) (hs : Waiters ns s) (h : s.NewsApart) :
    t.NewsApart := by
  obtain ⟨id, hoff⟩ := he.off_way
  have hcases : ∀ {i k w}, t.task? i = some k → k.standing = .awaitingNews w →
      s.task? i = some k ∨ i = id ∧ s.engine.updates.book.status? w = none := by
    intro i k w hk hw
    refine (hoff i k hk (by rw [hw]; exact not_false)).imp_right ?_
    rintro ⟨hi, k', hk', hwaits, -⟩
    refine ⟨hi, ?_⟩
    rw [hw] at hwaits
    cases hwaits with
    | idles _ news => exact absurd rfl (news w)
    | news fresh => exact fresh
    | begins _ _ _ here => exact absurd trivial here
  intro i j ki kj w hi hj hwi hwj
  rcases hcases hi hwi with hi | ⟨hid, hnone⟩
  · rcases hcases hj hwj with hj | ⟨-, hnone⟩
    · exact h i j ki kj w hi hj hwi hwj
    · have hknown := hs.known hi hwi
      rw [hnone] at hknown
      cases hknown
  · rcases hcases hj hwj with hj | ⟨hjd, -⟩
    · have hknown := hs.known hj hwj
      rw [hnone] at hknown
      cases hknown
    · exact hid.trans hjd.symm

theorem NewsApart.act (h : s.NewsApart) (hs : Waiters s.queue s) (a : Action) :
    (s.act a).NewsApart := by
  cases a with
  | ask request =>
    refine h.of_subset fun i k w hk hw => ?_
    rcases task?_added_cases rfl hk with hk | ⟨-, rfl⟩
    · exact hk
    · cases hw
  | feed | exit => exact h
  | step =>
    cases hq : s.queue with
    | nil =>
      rw [Session.act, step_nil hq]
      exact h
    | cons n rest =>
      rw [hq] at hs
      exact (step_errand hq).newsApart (s := { s with queue := rest }) (hs.congr rfl rfl) h

/-! ## Everyone else is taken care of -/

namespace Quits

variable (h : Quits id k s t)

include h

theorem others (hi : i ≠ id) : t.task? i = s.task? i := task?_setStanding_of_ne h.tasks i hi

theorem self : t.task? id = some { k with standing := .ended (.failed .cancelled) } :=
  task?_setStanding_self h.task h.tasks

/-- Whoever has not ended was there before. -/
theorem before {k' : Task} (hk : t.task? i = some k') (hopen : k'.hasEnded = false) :
    i ≠ id ∧ s.task? i = some k' := by
  have hi : i ≠ id := by
    rintro rfl
    cases h.self.symm.trans hk
    cases hopen
  exact ⟨hi, (h.others hi).symm.trans hk⟩

theorem mem_queue {m : Notice} (hm : m ∈ s.queue) : m ∈ t.queue := by
  rw [h.queue]
  exact List.mem_append_left _ hm

theorem newsApart (ha : s.NewsApart) : t.NewsApart :=
  ha.of_subset fun _ _ _ hk hw => (h.before hk (Task.hasEnded_eq_false hw not_false)).2

/-- Those who waited for a startup hear of its end. -/
theorem linked (hl : Linked s.queue s) : Linked t.queue t := by
  refine hl.moves _ h.task h.opened h.tasks h.startup (fun m hm _ => h.mem_queue hm) nofun nofun
    fun answer ha => ⟨fun _ => ?_, fun j kj hkj hj => ?_⟩
  · cases ha
    trivial
  · rw [h.queue]
    refine List.mem_append_right _ (List.mem_map_of_mem (mem_tasksWhere.mpr ⟨kj, hkj, ?_⟩))
    rw [hj]
    exact decide_eq_true rfl

/-- Only the waits of the task itself are given up. -/
theorem watchers (hw : Watchers s.queue s) : Watchers t.queue t := by
  have hgiven : ∀ {ready crashed}, k.standing.watched? = some (ready, crashed) →
      Minds k.standing.Owns s (s.setSupervisor
        ((s.server.supervisor.cancelWait ready).cancelWait crashed) []) := fun he =>
    have howns := Standing.owns_of_watched? he
    .setSupervisor ((Phases.Yields.cancel _ howns.1).trans (.cancel _ howns.2))
      fun hc => (hc.cancel _).cancel _
  have hminds : Minds k.standing.Owns s t := by
    rw [h.result]
    cases hs : k.standing with
    | awaitingPhase ready crashed | phaseCame ready crashed =>
      rw [hs] at hgiven
      exact (hgiven rfl).trans (.of_phases rfl) rfl fun m hm => List.mem_append_left _ hm
    | _ => exact .of_phases rfl
  refine hw.moves id hminds fun i k' hk' hwatched => ?_
  have hopen : k'.hasEnded = false := Task.hasEnded_eq_false rfl fun hended => by
    cases hs : k'.standing <;> rw [hs] at hwatched hended <;> first | exact hended | cases hwatched
  obtain ⟨hi, hold⟩ := h.before hk' hopen
  exact .same hold (fun w hown hgiven => hi (hw.own i id k' k w hold h.task hown hgiven))
    fun m _ hm => h.mem_queue hm

theorem eq_cancel : t = s.cancel id := by
  unfold cancel
  rw [h.task]
  exact h.result.trans (if_neg (by rw [h.opened]; exact Bool.false_ne_true)).symm

end Quits

/-- A wait for news is given up that nobody has. -/
theorem Waiters.giveUp (h : Waiters ns s)
    (hnone : ∀ i k, s.task? i = some k → k.standing ≠ .awaitingNews w) :
    Waiters ns { s with engine := { s.engine with updates := s.engine.updates.cancel w } } := by
  refine ⟨h.queued, fun i k w' hk hw => ?_, h.aloof, fun i hi => ?_⟩
  · have hne : w ≠ w' := by
      rintro rfl
      exact hnone i k hk hw
    obtain ⟨hasks, hwaits⟩ := h.waiting i k w' hk hw
    refine ⟨hasks, hwaits.imp (fun ⟨file, hat⟩ => ⟨file, hat.cancel hne⟩) fun ⟨hr, hm⟩ => ?_⟩
    exact ⟨Updates.released_cancel hr, hm⟩
  · obtain ⟨k, hk, hq, hreleased⟩ := h.resumes i hi
    exact ⟨k, hk, hq, fun w' hw => Updates.released_cancel (hreleased w' hw)⟩

/-- Who waits for news gives it up. -/
theorem Quits.sound_news (h : Quits id k s t) (hs : Sound s.queue s) (ha : s.NewsApart)
    (hw : k.standing = .awaitingNews w) : Sound t.queue t := by
  have hidle : ∀ k', s.task? id = some k' → k'.standing.runs? = none := fun k' hk' => by
    cases h.task.symm.trans hk'
    rw [hw]
    rfl
  have hbefore : Sound ([] ++ s.queue) s := hs
  have hended := Sound.endTask (.failed .cancelled) hbefore hidle
  have hresult := h.result
  rw [hw] at hresult
  subst hresult
  refine ⟨hended.waiters.giveUp fun i k' hk' hw' => ?_,
    hended.runners.congr rfl rfl rfl rfl (Nat.le_refl _)⟩
  have hk' : (s.setStanding id (.ended (.failed .cancelled))).task? i = some k' := hk'
  rcases task?_setStanding_cases rfl hk' with ⟨_, -, -, rfl⟩ | ⟨hi, hk'⟩
  · cases hw'
  · exact hi (ha id i k k' w h.task hk' hw hw').symm

/-- A run is dropped whose process nobody waits for any more. -/
theorem Quits.sound_run (h : Quits id k s t) (hs : Sound s.queue s)
    (hrun : k.standing.runs? = some pid) : Sound t.queue t := by
  obtain ⟨-, hpid⟩ := hs.runners.tasks id k pid h.task hrun
  obtain ⟨r, hr, rfl⟩ := List.mem_map.mp hpid
  -- first the run is dropped and its task ends, then the process is let go
  have hresult : t = { { s with engine := s.engine.dropRun r.pid }.endTask id
      (.failed .cancelled) with world := s.world.abandon r.pid } := by
    rw [h.result]
    cases hst : k.standing <;> rw [hst] at hrun <;> cases hrun <;> rfl
  have hnone : ∀ pid, .streamEnded pid ∉
      (s.tasksWhere (awaitsStartup id)).map Notice.startupEnded := fun _ hm => by
    obtain ⟨_, -, he⟩ := List.mem_map.mp hm
    cases he
  have hwaiters : Waiters ([] ++ s.queue) { s with engine := s.engine.dropRun r.pid } :=
    hs.waiters.congr rfl rfl
  have hrunners : Runners s.queue ({ s with engine := s.engine.dropRun r.pid }.endTask id
      (.failed .cancelled)) := hs.runners.finish h.task hrun rfl rfl rfl rfl rfl
  have hended : Sound _ ({ s with engine := s.engine.dropRun r.pid }.endTask id
      (.failed .cancelled)) :=
    ⟨Waiters.endTask _ hwaiters, hrunners.append hnone⟩
  have hgone : r.pid ∉ (s.engine.dropRun r.pid).pids := by
    intro hm
    obtain ⟨q, hq, he⟩ := List.mem_map.mp hm
    exact (of_decide_eq_true (List.mem_filter.mp hq).2) he
  rw [hresult]
  exact Sound.aside [] hended (Aside.touch (World.touches_abandon ..) (.inr hgone))

/-- **Whoever is cancelled**, everybody else is taken care of. -/
theorem Quits.sound (h : Quits id k s t) (hs : Sound s.queue s) (ha : s.NewsApart) :
    Sound t.queue t := by
  have haside : k.standing = .queued ∨ k.standing.OnServer ∨ k.standing.IsEnded →
      Sound t.queue t := by
    intro hst
    rw [h.eq_cancel]
    refine Sound.aside [] hs (cancel_aside fun k' hk' => ?_)
    cases h.task.symm.trans hk'
    exact hst
  cases hst : k.standing with
  | queued => exact haside (.inl hst)
  | awaitingNews w => exact h.sound_news hs ha hst
  | awaitingOutput pid ended => exact h.sound_run hs (by rw [hst]; rfl)
  | awaitingExit pid => exact h.sound_run hs (by rw [hst]; rfl)
  | ended answer => exact haside (.inr (.inr (hst ▸ trivial)))
  | awaitingPhase | phaseCame | awaitingStartup | startupCame =>
    exact haside (.inr (.inl (hst ▸ trivial)))

/-! ## Whatever happens -/

/-- Everyone is taken care of, nobody shares what it waits for, and the server is guarded. -/
structure Cared (s : Session) : Prop where
  sound : Sound s.queue s
  linked : Linked s.queue s
  watchers : Watchers s.queue s
  newsApart : s.NewsApart
  guarded : s.server.supervisor.Guarded

namespace Cared

theorem act (h : s.Cared) (a : Action) : (s.act a).Cared :=
  ⟨h.sound.act a, h.linked.act h.sound a, h.watchers.act h.guarded a,
    h.newsApart.act h.sound.waiters a, (act_toll h.guarded a).guarded h.guarded⟩

theorem quits (h : s.Cared) (hq : Quits id k s t) : t.Cared :=
  ⟨hq.sound h.sound h.newsApart, hq.linked h.linked, hq.watchers h.watchers,
    hq.newsApart h.newsApart, h.guarded.same hq.server⟩

theorem cancel (h : s.Cared) (id : TaskId) : (s.cancel id).Cared := by
  rcases s.cancel_quits id with ⟨-, he⟩ | ⟨k, hq⟩
  · rw [he]
    exact h
  · exact h.quits hq

/-- No task moves, and whoever watches the server is told of its moves. -/
theorem rests (h : s.Cared) (hs : Sound t.queue t) (hm : Minds (fun _ => False) s t)
    (hg : t.server.supervisor.Guarded) (htasks : t.tasks = s.tasks)
    (hstartup : t.startup = s.startup) (hqueue : ∀ m ∈ s.queue, m ∈ t.queue) : t.Cared := by
  have hsame : ∀ {i k}, t.task? i = some k → s.task? i = some k := fun {i} {k} hk =>
    (task?_congr htasks i).symm.trans hk
  exact ⟨hs, h.linked.same htasks hstartup fun m hm _ => hqueue m hm,
    h.watchers.moves 0 hm fun i k hk _ =>
      .same (hsame hk) (fun _ _ => not_false) fun m _ hm => hqueue m hm,
    h.newsApart.of_subset fun _ _ _ hk _ => hsame hk, hg⟩

theorem killRuns (h : s.Cared) : s.killRuns.Cared := by
  obtain ⟨-, htasks, hserver, -⟩ := s.killRuns_same
  have hidles : Idles (fun _ => True) (fun _ => True) s s.killRuns := .killRuns s fun _ _ => trivial
  have hsound : Sound ([] ++ s.queue) s := h.sound
  obtain ⟨more, hqueue, -⟩ := hidles.queue
  refine h.rests hsound.killRuns (.of_server hserver) (hserver ▸ h.guarded) htasks hidles.startup
    fun m hm => ?_
  rw [hqueue]
  exact List.mem_append_left _ hm

theorem unannounced (h : s.Cared) : s.unannounced.Cared :=
  h.rests (Sound.aside [] h.sound s.unannounced_aside) (.of_phases rfl) h.guarded rfl rfl
    fun _ hm => hm

theorem stopSupervised (h : s.Cared) : s.stopSupervised.1.Cared := by
  obtain ⟨t, he, -, hg, -⟩ := stopSupervised_ok h.guarded
  have hidles : Idles (fun _ => True) (fun _ => True) s s.stopSupervised.1 :=
    .stopSupervised s fun _ _ => trivial
  obtain ⟨more, hqueue, -⟩ := hidles.queue
  refine h.rests (Sound.aside [] h.sound (.stopSupervised s)) (.stopSupervised s) (he ▸ hg)
    (stopSupervised_tasks s) (stopSupervised_startup s) fun m hm => ?_
  rw [hqueue]
  exact List.mem_append_left _ hm

/-- Once the startup is over nobody waits for it any longer. -/
theorem forget (h : s.Cared)
    (hover : ∀ i, s.startup = some i → (s.task? i).any Task.hasEnded = true) :
    Cared { s with startup := none } := by
  refine ⟨h.sound.congr rfl rfl rfl rfl, ⟨fun _ hi => (by cases hi), fun id k i hk hs => ?_,
    h.linked.came, h.linked.tells⟩, ?_, h.newsApart, h.guarded⟩
  · obtain ⟨hcalls, ki, hki, hr, hended, hunder⟩ := h.linked.waits id k i hk hs
    refine ⟨hcalls, ki, hki, hr, hended, fun ho => ?_⟩
    have hi := hover i (hunder ho)
    rw [hki, Option.any_some, ho] at hi
    cases hi
  · exact ⟨h.watchers.calm, h.watchers.known, h.watchers.own, h.watchers.waits, h.watchers.looks⟩

/-- A stop ends the startup under way. -/
theorem stopServer_over (h : s.Cared) : ∃ u : Session,
    s.stopServer = { u with startup := none }.stopSupervised ∧ u.Cared ∧
      ∀ i, u.startup = some i → (u.task? i).any Task.hasEnded = true := by
  obtain ⟨u, he, hu⟩ := s.stopServer_cases
  refine ⟨u, he, ?_⟩
  rcases hu with ⟨hnone, rfl⟩ | ⟨i, hi, rfl⟩
  · refine ⟨h.unannounced, fun i hi => ?_⟩
    cases hnone.symm.trans hi
  · refine ⟨h.unannounced.cancel i, fun j hj => ?_⟩
    rcases s.unannounced.cancel_quits i with ⟨hended, hsame⟩ | ⟨k, hq⟩
    · rw [hsame] at hj ⊢
      cases hi.symm.trans hj
      obtain ⟨k, hk, -⟩ := h.unannounced.linked.startup i hi
      rw [hk, Option.any_some]
      exact hended k hk
    · cases hi.symm.trans (hq.startup.symm.trans hj)
      rw [hq.self]
      rfl

theorem stop (h : s.Cared) : s.stopServer.1.Cared := by
  obtain ⟨u, he, hu, hover⟩ := h.stopServer_over
  rw [he]
  exact (hu.forget hover).stopSupervised

end Cared

theorem Fresh.cared (h : s.Fresh) : s.Cared := by
  refine ⟨h.sound, h.linked, h.watchers, fun _ _ _ _ _ hk => absurd hk h.task?_ne_some, ?_⟩
  obtain ⟨_, _, _, _, _, _, _, _, _, rfl⟩ := h
  exact .idle _

end Session

end VerifierHost
