import VerifierHost.Proofs.Server.Sharing

/-! # Those who share a startup

Whoever has joined a startup is told what it comes to, whoever else gives up; left to itself a
session gets there, unless its server is still about to get ready. After a failed startup or a crash
the next call makes a fresh attempt. -/

namespace VerifierHost

namespace Session

variable {s t u : Session} {x : Incident} {xs before later : List Incident} {n : Notice}
  {id i j : TaskId} {k : Task} {answer : Answer} {standing : Standing} {pid : Pid}
  {ready crashed : WaitId}

/-! ## A session goes on by itself -/

theorem run_eq (s : Session) (m : Nat) :
    s.run m = s.meeting (List.replicate m (.act .step)) := by
  induction m generalizing s with
  | zero => rfl
  | succ m ih =>
    have hstep : s.step = s.meet (.act .step) := rfl
    rw [List.replicate_succ, meeting, List.foldl_cons, ← hstep, ← meeting, ← ih, run]
    split
    next hq =>
      have hq := List.isEmpty_iff.mp hq
      rw [step_nil hq]
      cases m with
      | zero => rfl
      | succ m => exact (if_pos (List.isEmpty_iff.mpr hq)).symm
    next => rfl

theorem run_add (s : Session) (m k : Nat) : s.run (m + k) = (s.run m).run k := by
  rw [run_eq, run_eq, run_eq, List.replicate_add, meeting, List.foldl_append]
  rfl

theorem run_succ (s : Session) (m : Nat) : s.run (m + 1) = (s.run m).step := by
  rw [run_eq, run_eq, List.replicate_succ', meeting_concat]
  rfl

theorem sharing_steps (s : Session) (m : Nat) :
    s.Sharing (List.replicate m (.act .step)) := by
  induction m generalizing s with
  | zero => trivial
  | succ m ih => exact ⟨trivial, ih _⟩

theorem Convened.run (h : Convened s) (m : Nat) : Convened (s.run m) := by
  rw [run_eq]
  exact h.meeting (s.sharing_steps m)

/-- **What is in the queue comes up**, and all that stays so while what is before it is noticed
stays until then. -/
theorem comes_up {P : Session → Prop} {pre rest : List Notice} (hq : s.queue = pre ++ n :: rest)
    (hp : P s) (hstays : ∀ t m rest, t.queue = m :: rest → m ∈ pre → P t → P t.step) :
    ∃ m rest', (s.run m).queue = n :: rest' ∧ P (s.run m) := by
  induction pre generalizing s rest with
  | nil => exact ⟨0, rest, hq, hp⟩
  | cons m pre ih =>
    obtain ⟨more, hmore⟩ := (step_errand hq).queue
    obtain ⟨k, rest', hqueue, hthere⟩ := ih (s := s.step)
      (hmore.trans (List.append_assoc pre (n :: rest) more))
      (hstays s m _ hq List.mem_cons_self hp)
      fun t m rest htq hm => hstays t m rest htq (List.mem_cons_of_mem _ hm)
    have hrun : s.run (1 + k) = s.step.run k := run_add s 1 k ▸ by rw [run_succ]; rfl
    exact ⟨1 + k, rest', by rw [hrun]; exact hqueue, by rw [hrun]; exact hthere⟩

/-- Nobody goes on without being summoned. -/
theorem Errand.stays (he : Errand n s t) (hk : s.task? j = some k) {m : Notice}
    (hm : k.standing.summons? j = some m) (hne : n ≠ m) : t.task? j = some k := by
  cases he with
  | rests idles => exact (task?_congr idles.tasks j).trans hk
  | @leaves id k' standing task opened turn cue waits away parts seen departs vain summoned =>
    by_cases hid : j = id
    · subst hid
      cases hk.symm.trans task
      exact absurd (summoned m hm) hne
    · exact (task?_setStanding_of_ne parts.tasks j hid).trans hk
  | @joins id i k' notice task queued calls unknown startup pending result =>
    have hid : j ≠ id := by
      rintro rfl
      cases hk.symm.trans task
      rw [queued] at hm
      cases hm
      exact hne notice
    exact (task?_setStanding_of_ne (by rw [result]) j hid).trans hk
  | @opens id k' notice task queued calls unknown spent result =>
    have hid : j ≠ id := by
      rintro rfl
      cases hk.symm.trans task
      rw [queued] at hm
      cases hm
      exact hne notice
    rw [result]
    exact (task?_setStanding_of_ne rfl j hid).trans (task?_addTask hk .startup)
  | @hears id i k' answer notice task waits ended result =>
    have hid : j ≠ id := by
      rintro rfl
      cases hk.symm.trans task
      rw [waits] at hm
      cases hm
      exact hne notice
    exact (task?_setStanding_of_ne (by rw [result]; rfl) j hid).trans hk

/-- Whoever is summoned is where it was when that comes up. -/
theorem summoned (hk : s.task? j = some k) (hn : k.standing.summons? j = some n)
    (hm : n ∈ s.queue) :
    ∃ m rest, (s.run m).queue = n :: rest ∧ (s.run m).task? j = some k := by
  obtain ⟨pre, rest, hq, hnot⟩ := List.eq_append_cons_of_mem hm
  refine comes_up (P := fun t => t.task? j = some k) hq hk fun t m rest htq hpre htk => ?_
  refine (step_errand htq).stays (s := { t with queue := rest }) htk hn ?_
  rintro rfl
  exact hnot hpre

/-! ## A startup goes on -/

/-- **The end of a server's process is on its way** to be noticed, which is a crash. -/
theorem Convened.nears_exit (h : Convened s) {rest : List Notice} (hq : s.queue = n :: rest)
    (hp : s.server.supervisor.held = some pid) (hended : s.world.HasEnded pid) :
    s.step.server.supervisor.state = .crashed ∨ n ≠ .wake (.exit pid) ∧
      s.step.server.supervisor.held = some pid ∧ s.step.world.HasEnded pid := by
  have hsane := h.sound.runners.sane
  have hg := h.shared.upheld.guarded
  have hlive : s.server.supervisor.state.isLive = true := by
    rw [← hg.guard, hp]
    rfl
  obtain ⟨hs, -, hsh⟩ := h.taken hq
  have hduty : Duty n { s with queue := rest } s.step := by
    rw [step_cons hq]
    exact react_duty hs.runners hg h.shared.roles.unmeddled
  cases hduty with
  | spares spares other =>
    refine .inr ⟨other pid hp, ?_, spares.ages.ended hsane pid hended⟩
    rw [spares.server]
    exact hp
  | @reads r _ _ notice result =>
    refine .inr ⟨by rw [notice]; exact nofun, ?_, ?_⟩
    · rw [result, (readServer_same _ r).2.1]
      exact (SharedServer.takeLines_guarded hg r.lineUse _).held.trans hp
    · rw [result]
      exact (Abstains.readServer { s with queue := rest } r).ages.ended hsane pid hended
  | @awaits q w notice alive result =>
    have hages := (World.touches_awaitExit s.world q).ages
    have alive : s.world.awaitExit q = (w, none) := alive
    rw [alive] at hages
    rw [result]
    refine .inr ⟨?_, hp, hages.ended hsane pid hended⟩
    rintro rfl
    obtain hn | hn := notice
    · cases hn
      obtain ⟨p, code, hknown, hexit⟩ := hended
      rcases World.awaitExit_cases hknown with ⟨code', -, he⟩ | ⟨hnone, -⟩
      · cases alive.symm.trans he
      · cases hnone.symm.trans hexit
    · cases hn
  | @ends q w code supervisor ended notice gone crash result =>
    rw [result]
    obtain ⟨m, e, he, -, ⟨-, hcrashed, -⟩ | ⟨hother, rfl⟩⟩ := hg.processEnded q
    · cases he.symm.trans crash
      exact .inl hcrashed
    · cases he.symm.trans crash
      refine .inr ⟨?_, hp, hended⟩
      rintro rfl
      obtain hn | hn := notice
      · cases hn
        exact hother hp
      · cases hn
  | begins notice task =>
    have hi := h.shared.roles.sole _ _ task rfl rfl
    obtain ⟨standing, hk, hstage⟩ := h.shared.leads.stage _ hi
    cases task.symm.trans hk
    cases hstage.1.symm.trans hlive
  | @looks id k ready crashed notice task came =>
    obtain ⟨request, standing⟩ := k
    cases came
    obtain rfl : request = .startup := h.shared.roles.watchers id _ task rfl
    rw [notice] at hsh
    obtain ⟨answer, he, -⟩ := hsh.leads.looks hsh.upheld (hsh.roles.sole id _ task rfl rfl) task
    have he : s.step = { s with queue := rest }.concluded id ready crashed answer := by
      rw [step_cons hq, notice]
      exact he
    rw [he]
    have hsame := (Supervisor.same_cancelWait s.server.supervisor ready).trans
      (Supervisor.same_cancelWait _ crashed)
    exact .inr ⟨by rw [notice]; exact nofun, hsame.held.trans hp, hended⟩

/-- Once a server's process has ended its crash is noticed. -/
theorem Convened.crashes (h : Convened s) (hp : s.server.supervisor.held = some pid)
    (hended : s.world.HasEnded pid) : ∃ m, (s.run m).server.supervisor.state = .crashed := by
  by_contra hnever
  have hm : .wake (.exit pid) ∈ s.queue := (h.shared.upheld.exits pid hp).2.resolve_right
    (h.sound.runners.sane.not_awaitsExit hended)
  obtain ⟨pre, rest, hq⟩ := List.append_of_mem hm
  obtain ⟨m, rest', hq', ⟨k, he⟩, hp', hended'⟩ := comes_up hq
    (P := fun t => (∃ m, t = s.run m) ∧ t.server.supervisor.held = some pid ∧
      t.world.HasEnded pid) ⟨⟨0, rfl⟩, hp, hended⟩ fun t n rest htq _ ⟨⟨m, he⟩, hp, hended⟩ => by
        have hstep : t.step = s.run (m + 1) := by rw [he, run_succ]
        rcases (he ▸ h.run m).nears_exit htq hp hended with hcrashed | ⟨-, hp, hended⟩
        · exact absurd ⟨m + 1, hstep ▸ hcrashed⟩ hnever
        · exact ⟨⟨m + 1, hstep⟩, hp, hended⟩
  rcases (h.run m).nears_exit hq' hp' hended' with hcrashed | ⟨hne, -⟩
  · exact hnever ⟨m + 1, by rw [run_succ]; exact hcrashed⟩
  · exact hne rfl

/-- A startup waits for a server whose process goes on. -/
structure Pending (s : Session) (i : TaskId) : Prop where
  startup : s.startup = some i
  task : ∃ ready crashed, s.task? i = some ⟨.startup, .awaitingPhase ready crashed⟩
  running : s.server.supervisor.state = .running
  process : ∃ pid, s.server.supervisor.held = some pid ∧ (s.world.process? pid).isSome = true ∧
    ¬ s.world.HasEnded pid

/-- Left to itself a startup ends, or waits on for a server whose process goes on. -/
def Resolved (s : Session) (i : TaskId) : Prop :=
  ∃ m, (∃ answer, (s.run m).task? i = some ⟨.startup, .ended answer⟩) ∨
    ∀ more, (s.run (m + more)).Pending i

theorem Resolved.of_run (m : Nat) (h : (s.run m).Resolved i) : s.Resolved i := by
  obtain ⟨k, h⟩ := h
  refine ⟨m + k, h.imp (fun h => by rw [run_add]; exact h) fun h more => ?_⟩
  rw [Nat.add_assoc, run_add]
  exact h more

/-- A caller that has joined a startup: it waits for that, or has been told what it has come to. -/
def Partakes (s : Session) (i j : TaskId) : Prop :=
  s.task? j = some ⟨.ensureReady, .awaitingStartup i⟩ ∨
    ∃ answer, s.task? i = some ⟨.startup, .ended answer⟩ ∧
      (s.task? j = some ⟨.ensureReady, .startupCame answer⟩ ∨
        s.task? j = some ⟨.ensureReady, .ended answer⟩)

theorem Partakes.transfer (h : s.Partakes i j) (hkeeps : KeepsAnswers s t)
    (hj : t.task? j = s.task? j) : t.Partakes i j := by
  rcases h with h | ⟨answer, hi, h⟩
  · exact .inl (hj.trans h)
  · exact .inr ⟨answer, hkeeps i _ hi rfl, h.imp hj.trans hj.trans⟩

/-- A notice tells the caller of the end of its startup, or lets it go on with that. -/
theorem Errand.partakes {ns : List Notice} (he : Errand n s t) (hl : Linked ns s)
    (h : s.Partakes i j) : t.Partakes i j := by
  have hkeeps := he.proceeds.keeps
  have hqueued : ∀ {id k}, s.task? id = some k → k.standing = .queued → j ≠ id := by
    rintro id k hk hq rfl
    rcases h with hj | ⟨answer, -, hj | hj⟩
    all_goals
      cases hk.symm.trans hj
      cases hq
  cases he with
  | rests idles => exact h.transfer hkeeps (task?_congr idles.tasks j)
  | @leaves id k standing task opened turn cue waits away parts seen departs vain =>
    by_cases hid : j = id
    · subst hid
      rcases h with hj | ⟨answer, hi, hj | hj⟩
      · cases hj.symm.trans task
        obtain ⟨-, hq⟩ | ⟨-, a, ha⟩ := turn trivial
        · cases hq
        · cases ha
      · cases hj.symm.trans task
        obtain rfl : standing = .ended answer := departs.heeds answer rfl
        exact .inr ⟨answer, hkeeps i _ hi rfl, .inr (task?_setStanding_self hj parts.tasks)⟩
      · cases hj.symm.trans task
        cases opened
    · exact h.transfer hkeeps (task?_setStanding_of_ne parts.tasks j hid)
  | joins _ task queued _ _ _ _ result =>
    exact h.transfer hkeeps (task?_setStanding_of_ne (by rw [result]) j (hqueued task queued))
  | opens _ task queued _ _ _ result =>
    obtain ⟨kj, hkj⟩ : ∃ kj, s.task? j = some kj := by
      rcases h with hj | ⟨answer, -, hj | hj⟩
      all_goals exact ⟨_, hj⟩
    refine h.transfer hkeeps
      ((task?_setStanding_of_ne (by rw [result]) j (hqueued task queued)).trans ?_)
    exact (task?_addTask hkj .startup).trans hkj.symm
  | @hears id i' k answer notice task waits ended result =>
    by_cases hid : j = id
    · subst hid
      rcases h with hj | ⟨answer', hi, hj | hj⟩
      · cases hj.symm.trans task
        cases waits
        obtain ⟨-, ki, hki, hr, -⟩ := hl.waits j _ i hj rfl
        rw [hki, Option.bind_some] at ended
        obtain rfl : ki = ⟨.startup, .ended answer⟩ := by
          rw [eq_ended_of_answer? ended, hr]
        exact .inr ⟨answer, hkeeps i _ hki rfl,
          .inl (task?_setStanding_self hj (by rw [result]; rfl))⟩
      all_goals
        cases hj.symm.trans task
        cases waits
    · exact h.transfer hkeeps (task?_setStanding_of_ne (by rw [result]; rfl) j hid)

theorem Convened.partakes (h : Convened s) (hx : s.Permits x) (hne : x ≠ .cancel j)
    (hp : s.Partakes i j) : (s.meet x).Partakes i j := by
  have hkeeps := (h.proceeds hx).keeps
  cases x with
  | cancel id =>
    refine hp.transfer hkeeps ?_
    show (s.cancel id).task? j = s.task? j
    rcases h.cancel_eq hx with ⟨-, he⟩ | ⟨k, hk, -, -, he⟩
    · rw [he]
    · rw [he]
      exact task?_setStanding_of_ne rfl j fun hj => hne (hj ▸ rfl)
  | act a =>
    cases a with
    | ask request =>
      obtain ⟨kj, hkj⟩ : ∃ kj, s.task? j = some kj := by
        rcases hp with hj | ⟨answer, -, hj | hj⟩
        all_goals exact ⟨_, hj⟩
      exact hp.transfer hkeeps ((task?_addTask hkj request).trans hkj.symm)
    | feed | exit => exact hp.transfer hkeeps rfl
    | step =>
      show s.step.Partakes i j
      cases hq : s.queue with
      | nil =>
        rw [step_nil hq]
        exact hp
      | cons n rest =>
        exact (step_errand hq).partakes (h.taken hq).2.1 hp

theorem Convened.keeps_meeting (h : Convened u) (hl : u.Sharing later) :
    KeepsAnswers u (u.meeting later) := by
  induction later using List.reverseRecOn with
  | nil => exact .of_tasks rfl
  | append_singleton before x ih =>
    obtain ⟨hbefore, hx⟩ := sharing_concat.mp hl
    rw [meeting_concat]
    exact (ih hbefore).trans ((h.meeting hbefore).proceeds hx).keeps

/-! ## Callers are told -/

/-- A caller that goes on with what its startup has come to ends with that. -/
theorem resume_startupCame (hk : s.task? j = some ⟨.ensureReady, .startupCame answer⟩) :
    s.resume j = s.endTask j answer := by
  unfold Session.resume useServer
  rw [hk]
  rfl

theorem startupEnded_awaitingStartup (hk : s.task? j = some ⟨.ensureReady, .awaitingStartup i⟩)
    (hi : s.task? i = some ⟨.startup, .ended answer⟩) :
    s.startupEnded j = (s.setStanding j (.startupCame answer)).enqueue [.resume j] := by
  unfold Session.startupEnded
  rw [hk]
  dsimp only [Option.map_some]
  rw [hi]
  rfl

theorem Convened.told_of_came (h : Convened s)
    (hk : s.task? j = some ⟨.ensureReady, .startupCame answer⟩) :
    ∃ m, (s.run m).task? j = some ⟨.ensureReady, .ended answer⟩ := by
  obtain ⟨m, rest, hq, hkm⟩ := summoned hk rfl (h.linked.came j _ answer hk rfl).2.2
  refine ⟨m + 1, ?_⟩
  have hkm' : { s.run m with queue := rest }.task? j = _ := hkm
  rw [run_succ, step_cons hq]
  show Session.task? (Session.resume _ j) j = _
  rw [resume_startupCame hkm']
  exact task?_setStanding_self hkm' rfl

/-- Whoever has joined a startup that has ended ends with what that has come to. -/
theorem Convened.told (h : Convened s) (hp : s.Partakes i j)
    (hi : s.task? i = some ⟨.startup, .ended answer⟩) :
    ∃ m, (s.run m).task? j = some ⟨.ensureReady, .ended answer⟩ := by
  rcases hp with hj | ⟨answer', hi', hj | hj⟩
  · obtain ⟨-, ki, hki, -, hended, -⟩ := h.linked.waits j _ i hj rfl
    cases hi.symm.trans hki
    obtain ⟨m, rest, hq, hkm⟩ := summoned hj rfl (hended rfl)
    have him : (s.run m).task? i = some ⟨.startup, .ended answer⟩ := by
      rw [run_eq]
      exact h.keeps_meeting (s.sharing_steps m) i _ hi rfl
    have hkm' : { s.run m with queue := rest }.task? j = _ := hkm
    have hcame : (s.run (m + 1)).task? j = some ⟨.ensureReady, .startupCame answer⟩ := by
      rw [run_succ, step_cons hq]
      show Session.task? (Session.startupEnded _ j) j = _
      rw [startupEnded_awaitingStartup hkm' him]
      exact task?_setStanding_self hkm' rfl
    obtain ⟨m', hended⟩ := (h.run (m + 1)).told_of_came hcame
    exact ⟨m + 1 + m', by rw [run_add]; exact hended⟩
  · cases hi.symm.trans hi'
    exact h.told_of_came hj
  · cases hi.symm.trans hi'
    exact ⟨0, hj⟩

/-- No server is live, and no startup is under way. -/
def Down (s : Session) : Prop :=
  s.server.supervisor.state.isLive = false ∧
    ∀ i, s.startup = some i → (s.task? i).any Task.hasEnded = true

/-- A startup has failed, or the server has crashed and nothing of the startup is left to notice. -/
def Failed (s : Session) : Prop :=
  (∃ i why, s.startup = some i ∧ s.task? i = some ⟨.startup, .ended (.failed why)⟩) ∨
    s.server.supervisor.state = .crashed ∧ (s.queue = [] ∨ ∃ i answer, s.startup = some i ∧
      s.task? i = some ⟨.startup, .ended answer⟩)

theorem Down.stays (h : s.Down) (hp : Proceeds s t) (hr : Rests s t)
    (hstartup : t.startup = s.startup) : t.Down := by
  refine ⟨hr.dead h.1, fun i hi => ?_⟩
  have hover := h.2 i (hstartup.symm.trans hi)
  cases hk : s.task? i with
  | none => rw [hk] at hover; cases hover
  | some k =>
    rw [hk] at hover
    rw [hp.keeps i k hk hover]
    exact hover

/-- Left to itself a session makes one attempt more than it has made. -/
def Attempts (s : Session) : Prop :=
  ∃ m event more, (s.run m).attempts = s.attempts ++ event :: more

theorem Attempts.of_run (m : Nat) (h : (s.run m).Attempts)
    (hsame : (s.run m).attempts = s.attempts) : s.Attempts := by
  obtain ⟨k, event, more, h⟩ := h
  exact ⟨m + k, event, more, by rw [run_add, h, hsame]⟩

end Session

end VerifierHost
