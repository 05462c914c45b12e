import Mathlib.Data.List.Induction
import VerifierHost.Proofs.Session.Steps

/-! # Who is left waiting

A request for what is known about a file waits while any run is in progress, but only the end of the
latest run releases those who wait. So a request is forsaken that begins to wait when only
superseded runs are left, or whose latest run comes to an early end; until a later run completes
nobody will tell it anything. -/

namespace VerifierHost.Session

variable {s t u : Session} {n : Notice} {ns : List Notice} {id : TaskId} {k : Task}

/-- The latest run is in progress. -/
def Listening (s : Session) : Prop := ∃ r ∈ s.engine.runs, r.number = s.engine.runCount

/-- A task waits for news that has not come. -/
def Waits (s : Session) (id : TaskId) : Prop :=
  ∃ k w, s.task? id = some k ∧ k.standing = .awaitingNews w ∧ s.engine.updates.Expects w

/-- From one session to the next it was told how a run ended. -/
def Completes (s t : Session) : Prop :=
  ∃ effects, t.shown = s.shown ++ effects ∧ ∃ effect ∈ effects, effect.TellsEnd

/-- From one session to the next a request for a run failed: its path cannot be worked on, or a file
with findings cannot be shown. -/
def Raises (s t : Session) : Prop :=
  ∃ id k why, s.task? id = some k ∧ k.request.Verifies ∧ ¬ k.standing.IsEnded ∧
    t.task? id = some ⟨k.request, .ended (.failed why)⟩ ∧
    ((∃ fault, why = .badPath fault) ∨ ∃ file, why = .noUri file)

/-- A task that waits for news which no run in progress will bring. -/
inductive Forsaken (s : Session) (id : TaskId) : List Action → Prop
  /-- It begins to wait when the latest run is over. -/
  | late {before a} (silent : ¬ (s.after before).Listening) (fresh : ¬ (s.after before).Waits id)
      (waits : (s.after (before ++ [a])).Waits id) : Forsaken s id (before ++ [a])
  /-- The latest run fails. -/
  | raised {before a} (waits : (s.after before).Waits id)
      (raises : Raises (s.after before) (s.after (before ++ [a])))
      (untold : ¬ Completes (s.after before) (s.after (before ++ [a]))) :
      Forsaken s id (before ++ [a])
  | still {before a} (forsaken : Forsaken s id before)
      (untold : ¬ Completes (s.after before) (s.after (before ++ [a]))) :
      Forsaken s id (before ++ [a])

/-! ## Completing -/

theorem not_completes_of_shown (h : t.shown = s.shown) : ¬ Completes s t := by
  rintro ⟨effects, he, effect, hm, -⟩
  rw [h] at he
  rw [List.self_eq_append_right.mp he] at hm
  exact List.not_mem_nil hm

theorem not_completes_of_effects {effects : List Effect} (h : t.shown = s.shown ++ effects)
    (hnone : ∀ effect ∈ effects, ¬ effect.TellsEnd) : ¬ Completes s t := by
  rintro ⟨effects', he, effect, hm, ht⟩
  rw [h] at he
  rw [← List.append_cancel_left he] at hm
  exact hnone effect hm ht

/-! ## What a step does to those who wait -/

/-- A task ends or goes on with a run. Either it is told how a run ended, and all who wait are
released, or nobody is; and if the latest run is over without being told of, its request failed. -/
structure Handled (s t : Session) : Prop where
  task : ∃ id k standing, s.task? id = some k ∧
    (∀ w, k.standing = .awaitingNews w → s.engine.updates.book.status? w = some .released) ∧
    (standing.IsEnded ∨ standing.runs?.isSome) ∧ t.tasks = (s.setStanding id standing).tasks
  released : ∀ w, s.engine.updates.book.status? w = some .released →
    t.engine.updates.book.status? w = some .released
  tells : (Completes s t ∧ ∀ w, s.engine.updates.Expects w →
      t.engine.updates.book.status? w = some .released) ∨
    ¬ Completes s t ∧ t.engine.updates = s.engine.updates
  listens : s.Listening → t.Listening ∨ Completes s t ∨ Raises s t

theorem Listening.congr (h : s.Listening) (hruns : t.engine.runs = s.engine.runs)
    (hcount : t.engine.runCount = s.engine.runCount) : t.Listening := by
  obtain ⟨r, hr, hn⟩ := h
  exact ⟨r, hruns ▸ hr, hn.trans hcount.symm⟩

/-- Most steps leave waits and runs as they are, and nothing is said about the end of a run. -/
theorem Handled.of_quiet {standing : Standing} {effects : List Effect} (hk : s.task? id = some k)
    (hw : ∀ w, k.standing = .awaitingNews w → s.engine.updates.book.status? w = some .released)
    (hst : standing.IsEnded ∨ standing.runs?.isSome)
    (htasks : t.tasks = (s.setStanding id standing).tasks)
    (hupdates : t.engine.updates = s.engine.updates) (hshown : t.shown = s.shown ++ effects)
    (hnone : ∀ effect ∈ effects, ¬ effect.TellsEnd)
    (hlistens : s.Listening → t.Listening ∨ Raises s t) : Handled s t :=
  ⟨⟨id, k, standing, hk, hw, hst, htasks⟩, fun w h => by rwa [hupdates],
    .inr ⟨not_completes_of_effects hshown hnone, hupdates⟩, fun h => (hlistens h).imp_right .inr⟩

/-- So it is if nothing at all is shown. -/
theorem Handled.of_silent {standing : Standing} (hk : s.task? id = some k)
    (hw : ∀ w, k.standing = .awaitingNews w → s.engine.updates.book.status? w = some .released)
    (hst : standing.IsEnded ∨ standing.runs?.isSome)
    (htasks : t.tasks = (s.setStanding id standing).tasks)
    (hupdates : t.engine.updates = s.engine.updates) (hruns : t.engine.runs = s.engine.runs)
    (hcount : t.engine.runCount = s.engine.runCount) (hshown : t.shown = s.shown) : Handled s t :=
  .of_quiet hk hw hst htasks hupdates (hshown.trans (List.append_nil _).symm)
    (fun _ he => absurd he List.not_mem_nil) fun hl => .inl (hl.congr hruns hcount)

theorem raises_of_tasks {why : Failure} (hk : s.task? id = some k) (hver : k.request.Verifies)
    (hlive : ¬ k.standing.IsEnded)
    (htasks : t.tasks = (s.setStanding id (.ended (.failed why))).tasks)
    (hwhy : (∃ fault, why = .badPath fault) ∨ ∃ file, why = .noUri file) : Raises s t :=
  ⟨id, k, why, hk, hver, hlive, task?_setStanding_self hk htasks, hwhy⟩

/-- The end of a run, told or not. -/
theorem Handled.conclude {u : Session} {c : Conclusion} {before : List Effect}
    (hk : s.task? id = some k) (hver : k.request.Verifies) (hlive : ¬ k.standing.IsEnded)
    (hw : ∀ w, k.standing ≠ .awaitingNews w) (htasks : u.tasks = s.tasks)
    (hshown : u.shown = s.shown ++ before) (hbefore : ∀ effect ∈ before, ¬ effect.TellsEnd)
    (hnotifies : s.engine.updates.Notifies u.engine.updates c.released)
    (hall : (∃ outcome, c.ending = .ended outcome) → ∀ w, s.engine.updates.Expects w →
      u.engine.updates.book.status? w = some .released)
    (htells : ((∃ outcome, c.ending = .ended outcome) ∧ ∃ effect ∈ c.effects, effect.TellsEnd) ∨
      u.engine.updates = s.engine.updates ∧ (∀ effect ∈ c.effects, ¬ effect.TellsEnd) ∧
        ((∃ file, c.ending = .stuck file) ∨ (s.Listening → (u.conclude id c).Listening))) :
    Handled s (u.conclude id c) := by
  obtain ⟨-, -, -, -, -, hupdates, ⟨answer, ht⟩, -⟩ := u.conclude_same id c
  obtain ⟨more, hsh, hmore⟩ := u.conclude_shown id c
  have hmore : ∀ effect ∈ more, ¬ effect.TellsEnd := by
    intro effect he
    rcases hmore with rfl | rfl
    · cases he
    · rw [List.mem_singleton.mp he]
      exact not_false
  rw [hshown, List.append_assoc, List.append_assoc] at hsh
  refine ⟨⟨id, k, .ended answer, hk, fun w hs => absurd hs (hw w), .inl trivial,
    ht.trans (setStanding_tasks_congr htasks id _)⟩,
    fun w hr => hupdates ▸ hnotifies.released w hr, ?_, ?_⟩
  · rcases htells with ⟨hended, effect, he, htell⟩ | ⟨hsame, hnone, -⟩
    · refine .inl ⟨⟨_, hsh, effect, ?_, htell⟩, fun w hx => hupdates ▸ hall hended w hx⟩
      exact List.mem_append_right _ (List.mem_append_left _ he)
    · refine .inr ⟨not_completes_of_effects hsh fun effect he => ?_, hupdates.trans hsame⟩
      rcases List.mem_append.mp he with he | he
      · exact hbefore effect he
      · exact (List.mem_append.mp he).elim (hnone effect) (hmore effect)
  · intro hl
    rcases htells with ⟨-, effect, he, htell⟩ | ⟨-, -, ⟨file, hstuck⟩ | hlisten⟩
    · refine .inr (.inl ⟨_, hsh, effect, ?_, htell⟩)
      exact List.mem_append_right _ (List.mem_append_left _ he)
    · refine .inr (.inr (raises_of_tasks hk hver hlive ?_ (.inr ⟨file, rfl⟩)))
      exact (u.conclude_stuck id hstuck).trans (setStanding_tasks_congr htasks id _)
    · exact .inl (hlisten hl)

theorem Listening.of_spawned {target : VerificationTarget} {name : Text} {invocation : Invocation}
    {pid : Pid} {start : Millis} (h : t.engine =
      (s.engine.startRun target name).1.launched invocation target name pid start) :
    t.Listening := by
  obtain ⟨r, hruns, hnumber, -⟩ :=
    (s.engine.startRun target name).1.launched_runs invocation target name pid start
  refine ⟨r, ?_, ?_⟩
  · rw [h, hruns]
    exact List.mem_append_right _ (List.mem_singleton.mpr rfl)
  · rw [h]
    exact hnumber

/-- The latest run goes on while a run is read. -/
theorem Listening.of_putRun {r r' : ActiveRun} (h : Runners ns s) (hr : r ∈ s.engine.runs)
    (hpid : r'.pid = r.pid) (hnumber : r'.number = r.number)
    (hruns : t.engine.runs = (s.engine.putRun r').runs)
    (hcount : t.engine.runCount = s.engine.runCount) (hl : s.Listening) : t.Listening := by
  obtain ⟨q, hq, hn⟩ := hl
  rw [← hcount] at hn
  have hmem : (if q.pid = r'.pid then r' else q) ∈ t.engine.runs := by
    rw [hruns]
    exact List.mem_map.mpr ⟨q, hq, rfl⟩
  by_cases hp : q.pid = r'.pid
  · rw [if_pos hp] at hmem
    rw [h.eq_of_pid hq hr (hp.trans hpid)] at hn
    exact ⟨r', hmem, hnumber.trans hn⟩
  · rw [if_neg hp] at hmem
    exact ⟨q, hmem, hn⟩

/-- The latest run goes on when another one ends. -/
theorem Listening.of_dropRun {r : ActiveRun} (h : Runners ns s) (hr : r ∈ s.engine.runs)
    (hold : r.number ≠ s.engine.runCount)
    (hruns : t.engine.runs = (s.engine.dropRun r.pid).runs)
    (hcount : t.engine.runCount = s.engine.runCount) (hl : s.Listening) : t.Listening := by
  obtain ⟨q, hq, hn⟩ := hl
  refine ⟨q, ?_, hn.trans hcount.symm⟩
  rw [hruns, Engine.dropRun, List.mem_filter, decide_eq_true_eq]
  refine ⟨hq, fun hp => hold ?_⟩
  rw [← h.eq_of_pid hq hr hp]
  exact hn

theorem Launch.handled {target : VerificationTarget} {name : Text}
    (h : Launch id target name s t) (hk : s.task? id = some k) (hver : k.request.Verifies)
    (hlive : ¬ k.standing.IsEnded) (hw : ∀ w, k.standing ≠ .awaitingNews w) : Handled s t := by
  have hstart := s.engine.startRun_not_tellsEnd target name
  have hnews : ∀ w, k.standing = .awaitingNews w →
      s.engine.updates.book.status? w = some .released := fun w hs => absurd hs (hw w)
  cases h with
  | spawned engine tasks fresh length shown =>
    exact .of_quiet hk hnews (.inr rfl) tasks (by rw [engine]; rfl) shown hstart
      fun _ => .inl (.of_spawned engine)
  | @refused u engine tasks length shown =>
    obtain ⟨updates, hu, hnotifies, hall⟩ :=
      u.engine.conclude_spec u.engine.runCount target name .crash none
    have hupdates : u.engine.updates = s.engine.updates := by rw [engine]; rfl
    rw [hupdates] at hnotifies hall
    refine .conclude hk hver hlive hw tasks shown hstart ?_ ?_ ?_
    · rw [hu]
      exact hnotifies
    · rw [hu]
      exact hall
    · rcases u.engine.conclude_tells u.engine.runCount target name .crash none with
        ht | ⟨hsame, hnone, hstuck | hno⟩
      · exact .inl ht
      · refine .inr ⟨?_, hnone, .inl hstuck⟩
        rw [hsame]
        exact hupdates
      · exact absurd rfl hno
  | @aborted u fault engine tasks length shown =>
    have ht := setStanding_tasks_congr tasks id (.ended (.failed (.badPath fault)))
    have hupdates : u.engine.updates = s.engine.updates := by rw [engine]; rfl
    have hended : Standing.IsEnded (.ended (.failed (.badPath fault))) := trivial
    exact .of_quiet hk hnews (.inl hended) ht hupdates shown hstart
      fun _ => .inr (raises_of_tasks hk hver hlive ht (.inl ⟨fault, rfl⟩))

theorem Course.handled (h : Runners ns s) (hc : Course n s t) :
    Aside s t ∨ (∃ id k file, s.task? id = some k ∧ k.standing = .queued ∧
      t = s.awaitNews id file) ∨ Handled s t := by
  cases hc with
  | aside ha _ => exact .inl ha
  | waits _ hk hq _ _ => exact .inr (.inl ⟨_, _, _, hk, hq, rfl⟩)
  | @answers i k hk _ hn =>
    refine .inr (.inr ?_)
    obtain ⟨findings, answer, he⟩ := s.answerNews_eq i
    have hended : Standing.IsEnded (.ended answer) := trivial
    rw [he]
    refine .of_silent hk ?_ (.inl hended) rfl rfl rfl rfl rfl
    intro w hs
    rcases hn with ⟨-, hq⟩ | ⟨-, w', hw, hr⟩
    · cases hq.symm.trans hs
    · cases hw.symm.trans hs
      exact hr
  | @launches i k path target address hk hver hn =>
    refine .inr (.inr ((launch_spec s i path target address).handled hk hver ?_ ?_))
    · rcases hn with ⟨-, hs⟩ | ⟨-, a, hs⟩
      · rw [hs]; exact not_false
      · rw [hs]; exact not_false
    · rcases hn with ⟨-, hs⟩ | ⟨-, a, hs⟩
      · rw [hs]; simp
      · rw [hs]; simp
  | @reads r stream _ hr hopen =>
    refine .inr (.inr ?_)
    obtain ⟨i, k, hk, hprogress⟩ := h.running r hr
    obtain ⟨w, chunks, closed, -, -, ht, he, hsh⟩ := readVerifier_spec h hr hopen
    obtain ⟨board, hb⟩ := s.engine.takeOutput_spec r stream chunks closed
    have hlines := s.engine.onlyDiagnostics_takeOutput r stream chunks closed
    have hrun := hprogress.runs?
    rw [hb] at he
    refine .of_quiet hk ?_ (.inr (by rw [hrun]; rfl)) (ht.trans (setStanding_self hk).symm)
      (by rw [he]; rfl) hsh hlines.not_tellsEnd ?_
    · intro w hs
      rw [hs] at hrun
      cases hrun
    · exact fun hl => .inl (hl.of_putRun h hr (r.read_pid ..) (r.read_number ..)
        (by rw [he]) (by rw [he]; rfl))
  | @counts i k pid m _ hk hs =>
    refine .inr (.inr ?_)
    obtain ⟨hengine, hshown, -⟩ := s.counts_same i pid m
    exact .of_silent hk (fun w hw => by cases hs.symm.trans hw) (.inr rfl) (s.counts_tasks ..)
      (by rw [hengine]) (by rw [hengine]) (by rw [hengine]) hshown
  | awaits _ _ hk hs _ =>
    refine .inr (.inr (.of_silent hk (fun w hw => ?_) (.inr rfl) rfl rfl rfl rfl rfl))
    rw [hw] at hs
    cases hs
  | @finishes r i k code _ hr hk hs =>
    obtain ⟨board, updates, he, hnotifies, hall⟩ := s.engine.finish_spec r code s.world.clock
    obtain ⟨-, hruns, hcount, -⟩ := s.finishRun_same i r code
    obtain ⟨hver, -⟩ := h.tasks i k r.pid hk hs
    have hlive : ¬ k.standing.IsEnded := by
      intro hended
      cases hst : k.standing <;> simp_all [Standing.IsEnded, Standing.runs?]
    have hwaits : ∀ w, k.standing ≠ .awaitingNews w := by
      intro w hw
      rw [hw] at hs
      cases hs
    have hupdates : (s.engine.finish r code s.world.clock).1.updates = updates := by rw [he]
    rw [← hupdates] at hnotifies hall
    refine .inr (.inr (.conclude hk hver hlive hwaits rfl (List.append_nil _).symm
      (fun _ he => absurd he List.not_mem_nil) hnotifies hall ?_))
    rcases s.engine.finish_tells r code s.world.clock with ht | ⟨hsame, hnone, hwhy⟩
    · exact .inl ht
    · exact .inr ⟨hsame, hnone, hwhy.imp_right fun hold hl => hl.of_dropRun h hr hold hruns hcount⟩

/-! ## From one session to the next -/

/-- Those who wait do so until it is told how a run ended. Nobody else begins to wait, unless the
latest run goes on as it did; and it goes on until its end is told or its request fails. -/
structure Tended (s t : Session) : Prop where
  told : Completes s t → ∀ id, ¬ t.Waits id
  waits : ¬ Completes s t → ∀ id, s.Waits id → t.Waits id
  begins : ∀ id, t.Waits id → s.Waits id ∨ (s.Listening → t.Listening)
  listens : s.Listening → t.Listening ∨ Completes s t ∨ Raises s t

/-- What leaves the engine and those who wait alone. -/
theorem Tended.of_same (hengine : t.engine = s.engine) (hshown : t.shown = s.shown)
    (hold : ∀ id k w, k.standing = .awaitingNews w → s.task? id = some k → t.task? id = some k)
    (hnew : ∀ id k w, k.standing = .awaitingNews w → t.task? id = some k → s.task? id = some k) :
    Tended s t where
  told h := absurd h (not_completes_of_shown hshown)
  waits _ := by
    rintro id ⟨k, w, hk, hw, hx⟩
    exact ⟨k, w, hold id k w hw hk, hw, hengine ▸ hx⟩
  begins := by
    rintro id ⟨k, w, hk, hw, hx⟩
    exact .inl ⟨k, w, hnew id k w hw hk, hw, hengine ▸ hx⟩
  listens hl := .inl (hl.congr (by rw [hengine]) (by rw [hengine]))

theorem Aside.tended (h : Aside s t) : Tended s t := by
  have hold : ∀ id k w, k.standing = .awaitingNews w → s.task? id = some k →
      t.task? id = some k := by
    intro id k w hw hk
    obtain ⟨k', hk', hpass⟩ := h.old id k hk
    rcases hpass with rfl | ⟨-, hq | ho, -⟩
    · exact hk'
    · cases hw.symm.trans hq
    · rw [hw] at ho; cases ho
  refine .of_same h.engine h.shown hold fun id k w hw hk => ?_
  cases hs : s.task? id with
  | none =>
    rcases h.new id k hs hk with ⟨hq, -⟩ | hal
    · cases hw.symm.trans hq
    · exact absurd hw (hal.ne_awaitingNews w)
  | some k' =>
    obtain ⟨k'', hk'', hpass⟩ := h.old id k' hs
    cases hk.symm.trans hk''
    rcases hpass with rfl | ⟨-, -, hal⟩
    · rfl
    · exact absurd hw (hal.ne_awaitingNews w)

theorem awaitNews_tended (hk : s.task? id = some k) (hq : k.standing = .queued) (file : Text) :
    Tended s (s.awaitNews id file) where
  told h := absurd h (not_completes_of_shown rfl)
  waits _ := by
    rintro i ⟨k', w, hk', hw, f, hat⟩
    refine ⟨k', w, (task?_setStanding_of_ne rfl i ?_).trans hk', hw, f, hat.waitFor⟩
    rintro rfl
    cases hk.symm.trans hk'
    cases hw.symm.trans hq
  begins _ _ := .inr fun hl => hl.congr rfl rfl
  listens hl := .inl (hl.congr rfl rfl)

theorem Handled.tended (h : Handled s t) (hs : Waiters ns s) : Tended s t := by
  obtain ⟨id, k, standing, hk, hreleased, hst, ht⟩ := h.task
  have hbefore : ∀ i k' w, k'.standing = .awaitingNews w → t.task? i = some k' →
      s.task? i = some k' := by
    intro i k' w hw hk'
    rcases task?_setStanding_cases ht hk' with ⟨_, -, -, rfl⟩ | ⟨-, hk'⟩
    · cases hw
      simp [Standing.IsEnded, Standing.runs?] at hst
    · exact hk'
  -- whoever still waits was expected before, for what was released stays released
  have hexpected : ∀ i k' w, s.task? i = some k' → k'.standing = .awaitingNews w →
      t.engine.updates.Expects w → s.engine.updates.Expects w := by
    rintro i k' w hk' hw ⟨file, hpending, -⟩
    obtain ⟨-, hx | ⟨hr, -⟩⟩ := hs.waiting i k' w hk' hw
    · exact hx
    · cases hpending.symm.trans (h.released w hr)
  refine ⟨?_, ?_, ?_, h.listens⟩
  · rintro hc i ⟨k', w, hk', hw, hx⟩
    have hk' := hbefore i k' w hw hk'
    rcases h.tells with ⟨-, hall⟩ | ⟨hno, -⟩
    · have hr := hall w (hexpected i k' w hk' hw hx)
      obtain ⟨file, hpending, -⟩ := hx
      cases hpending.symm.trans hr
    · exact hno hc
  · rintro hno i ⟨k', w, hk', hw, hx⟩
    rcases h.tells with ⟨hc, -⟩ | ⟨-, hupdates⟩
    · exact absurd hc hno
    · refine ⟨k', w, (task?_setStanding_of_ne ht i ?_).trans hk', hw, hupdates ▸ hx⟩
      rintro rfl
      cases hk.symm.trans hk'
      obtain ⟨file, hpending, -⟩ := hx
      cases hpending.symm.trans (hreleased w hw)
  · rintro i ⟨k', w, hk', hw, hx⟩
    have hk' := hbefore i k' w hw hk'
    exact .inl ⟨k', w, hk', hw, hexpected i k' w hk' hw hx⟩

theorem Course.tended (h : Sound (n :: ns) s) (hc : Course n s t) : Tended s t := by
  rcases hc.handled h.runners with ha | ⟨id, k, file, hk, hq, rfl⟩ | hh
  · exact ha.tended
  · exact awaitNews_tended hk hq file
  · exact hh.tended h.waiters

/-- Whatever happens, those who wait are minded. -/
theorem act_tended (h : Sound s.queue s) (a : Action) : Tended s (s.act a) := by
  cases a with
  | ask request => exact (Aside.addTask s request).tended
  | feed => exact .of_same rfl rfl (fun _ _ _ _ => id) fun _ _ _ _ => id
  | exit => exact .of_same rfl rfl (fun _ _ _ _ => id) fun _ _ _ _ => id
  | step =>
    rcases step_course h with he | ⟨n, rest, -, hc, hs⟩
    · rw [Session.act, he]
      exact .of_same rfl rfl (fun _ _ _ _ => id) fun _ _ _ _ => id
    · have ht := hc.tended hs
      exact ⟨ht.told, ht.waits, ht.begins, ht.listens⟩

/-! ## The whole history -/

/-- Whoever waits will be told by the latest run, or is forsaken. -/
theorem listening_or_forsaken (h : s.Fresh) (actions : List Action)
    (hw : (s.after actions).Waits id) : (s.after actions).Listening ∨ Forsaken s id actions := by
  induction actions using List.reverseRecOn with
  | nil =>
    obtain ⟨k, w, hk, -⟩ := hw
    exact absurd hk h.task?_ne_some
  | append_singleton before a ih =>
    have ht := act_tended (h.sound_after before) a
    rw [← after_concat] at ht
    have huntold : ¬ Completes (s.after before) (s.after (before ++ [a])) :=
      fun hc => ht.told hc id hw
    by_cases hwaits : (s.after before).Waits id
    · rcases ih hwaits with hl | hf
      · rcases ht.listens hl with hl | hc | hr
        · exact .inl hl
        · exact absurd hc huntold
        · exact .inr (.raised hwaits hr huntold)
      · exact .inr (.still hf huntold)
    · by_cases hl : (s.after before).Listening
      · exact .inl (((ht.begins id hw).resolve_left hwaits) hl)
      · exact .inr (.late hl hwaits hw)

/-- Whoever is forsaken waits. -/
theorem Forsaken.waits (h : s.Fresh) {actions : List Action} (hf : Forsaken s id actions) :
    (s.after actions).Waits id := by
  induction hf with
  | late _ _ hw => exact hw
  | @raised before a hw _ huntold =>
    rw [after_concat] at huntold ⊢
    exact (act_tended (h.sound_after before) a).waits huntold id hw
  | @still before a _ huntold ih =>
    rw [after_concat] at huntold ⊢
    exact (act_tended (h.sound_after before) a).waits huntold id ih

/-- **Who is still waiting when all is over.** When nothing is left to be done and the processes of
all runs have ended, a request for what is known is still pending exactly if it is forsaken. -/
theorem pending_iff_forsaken (h : s.Fresh) (actions : List Action)
    (hq : (s.after actions).queue = [])
    (hended : ∀ r ∈ (s.after actions).engine.runs, (s.after actions).world.HasEnded r.pid)
    (hk : (s.after actions).task? id = some k) (ha : k.request.AsksNews) :
    ¬ k.standing.IsEnded ↔ Forsaken s id actions := by
  have hs := h.sound_after actions
  rw [hq] at hs
  constructor
  · intro hopen
    have hwaits : (s.after actions).Waits id := by
      cases hst : k.standing with
      | queued => exact absurd (hs.waiters.queued id k hk hst) List.not_mem_nil
      | awaitingNews w =>
        obtain ⟨-, hx | ⟨-, hm⟩⟩ := hs.waiters.waiting id k w hk hst
        · exact ⟨k, w, hk, hst, hx⟩
        · exact absurd hm List.not_mem_nil
      | ended answer => exact absurd (hst ▸ trivial) hopen
      | awaitingOutput pid m =>
        obtain ⟨hver, -⟩ := hs.runners.tasks id k pid hk (by rw [hst]; rfl)
        exact absurd ha hver.not_asksNews
      | awaitingExit pid =>
        obtain ⟨hver, -⟩ := hs.runners.tasks id k pid hk (by rw [hst]; rfl)
        exact absurd ha hver.not_asksNews
      | _ => exact absurd ha (hs.waiters.aloof id k hk (by rw [hst]; trivial))
    rcases listening_or_forsaken h actions hwaits with ⟨r, hr, -⟩ | hf
    · obtain ⟨i, k', -, hprogress⟩ := hs.runners.running r hr
      exact absurd (hended r hr) (hprogress.alive hs.runners.sane)
    · exact hf
  · intro hf hend
    obtain ⟨k', w, hk', hw, -⟩ := hf.waits h
    cases hk.symm.trans hk'
    rw [hw] at hend
    exact hend

/-! Two runs of which the second has ended, and then a request that waits for the end of the first;
when the first one ends as well, nobody tells the request. -/

def forsaking : List Action :=
  [.ask (.run "/w/a.rs" .file "here"), .step, .step, .step,
    .ask (.run "/w/b.rs" .file "here"), .step, .step, .step,
    .exit 2 (some 0) .zero, .step, .step, .step, .step, .step,
    .ask (.hints "/w/a.rs"), .step,
    .exit 1 (some 0) .zero, .step, .step, .step, .step, .step]

theorem forsaken_forsaking : Forsaken quiet 2 forsaking := by
  have hq : (quiet.after forsaking).queue = [] := by decide +kernel
  have hruns : (quiet.after forsaking).engine.runs = [] := by decide +kernel
  obtain ⟨k, hk, ha, hopen⟩ : ∃ k ∈ (quiet.after forsaking).task? 2,
      k.request.AsksNews ∧ ¬ k.standing.IsEnded := by decide +kernel
  refine (pending_iff_forsaken fresh_quiet forsaking hq ?_ hk ha).mp hopen
  rw [hruns]
  exact fun r hr => absurd hr List.not_mem_nil

end VerifierHost.Session
