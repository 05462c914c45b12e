import VerifierHost.Proofs.Server.Joining
import VerifierHost.Proofs.Session.Handling

/-! # Tasks that start nothing any more

A task has resigned once it has begun and, if it asked for the server, the startup it asked for has
failed (`Session.Resigned`). It stays so, and it ends by itself if it is summoned. While all tasks
have resigned and the server is stopped nothing is started, whatever processes do
(`Session.Still`). -/

namespace VerifierHost.Session

variable {s t : Session} {n : Notice} {id : TaskId} {k : Task} {request : Request}
  {standing : Standing} {answer : Answer} {actions : List Action}

/-- What the startup has come to that a task asked for. -/
def prospect? (s : Session) : Standing → Option Answer
  | .startupCame answer => some answer
  | .awaitingStartup i => (s.task? i).bind Task.answer?
  | _ => none

/-- Whoever is on the way to the server will hear of a failure. -/
def Resigned (s : Session) (standing : Standing) : Prop :=
  standing.OnTheWay → ∃ why, s.prospect? standing = some (.failed why)

theorem KeepsAnswers.prospect? (h : KeepsAnswers s t) (ha : s.prospect? standing = some answer) :
    t.prospect? standing = some answer := by
  cases standing with
  | startupCame => exact ha
  | awaitingStartup i =>
    obtain ⟨k, hk, hanswer⟩ := Option.bind_eq_some_iff.mp ha
    refine Option.bind_eq_some_iff.mpr ⟨k, h i k hk ?_, hanswer⟩
    rw [Task.hasEnded, hanswer]
    rfl
  | _ => cases ha

theorem Resigned.keeps (h : s.Resigned standing) (hkeeps : KeepsAnswers s t) :
    t.Resigned standing :=
  fun hway => (h hway).imp fun _ ha => hkeeps.prospect? ha

theorem Resigned.not_queued (h : s.Resigned standing) : standing ≠ .queued := by
  rintro rfl
  obtain ⟨why, hnone⟩ := h trivial
  cases hnone

/-! ## Resigned tasks stay resigned -/

theorem Errand.resigned (he : Errand n s t) (hk : s.task? id = some ⟨request, standing⟩)
    (hi : s.Resigned standing) : ∃ standing, t.task? id = some ⟨request, standing⟩ ∧
      t.Resigned standing := by
  have hstays : t.task? id = s.task? id → ∃ standing, t.task? id = some ⟨request, standing⟩ ∧
      t.Resigned standing := fun h => ⟨standing, h.trans hk, hi.keeps he.proceeds.keeps⟩
  have hne : ∀ {i k}, s.task? i = some k → k.standing = .queued → id ≠ i := by
    rintro i k hk' hq rfl
    cases hk.symm.trans hk'
    exact hi.not_queued hq
  cases he with
  | rests idles => exact hstays (task?_congr idles.tasks id)
  | @leaves i k' standing task opened turn cue waits away parts =>
    by_cases hid : id = i
    · subst hid
      cases hk.symm.trans task
      exact ⟨standing, task?_setStanding_self task parts.tasks, fun hway => absurd hway away⟩
    · exact hstays (task?_setStanding_of_ne parts.tasks id hid)
  | joins _ task queued _ _ _ _ result =>
    exact hstays (task?_setStanding_of_ne (by rw [result]) id (hne task queued))
  | opens _ task queued _ _ _ result =>
    refine hstays ((task?_setStanding_of_ne (by rw [result]) id (hne task queued)).trans ?_)
    exact (task?_addTask hk .startup).trans hk.symm
  | @hears i j k' answer notice task waits ended result =>
    by_cases hid : id = i
    · subst hid
      cases hk.symm.trans task
      cases waits
      obtain ⟨why, hwhy⟩ := hi trivial
      cases ended.symm.trans hwhy
      exact ⟨.startupCame (.failed why), task?_setStanding_self task (by rw [result]; rfl),
        fun _ => ⟨why, rfl⟩⟩
    · exact hstays (task?_setStanding_of_ne (by rw [result]; rfl) id hid)

/-- Where all tasks are resigned nobody opens a startup, so no task is new. -/
theorem Errand.all_resigned (he : Errand n s t)
    (h : ∀ id k, s.task? id = some k → s.Resigned k.standing) :
    ∀ id k, t.task? id = some k → t.Resigned k.standing := by
  intro id k hk
  cases hs : s.task? id with
  | some k' =>
    obtain ⟨standing, hk', hi⟩ := he.resigned hs (h id k' hs)
    cases hk'.symm.trans hk
    exact hi
  | none =>
    exfalso
    have hsame : t.task? id ≠ s.task? id := by
      rw [hk, hs]
      exact nofun
    have hne : ∀ {i k}, s.task? i = some k → id ≠ i := by
      rintro i k hk' rfl
      cases hs.symm.trans hk'
    cases he with
    | rests idles => exact hsame (task?_congr idles.tasks id)
    | leaves task _ _ _ _ _ parts =>
      exact hsame (task?_setStanding_of_ne parts.tasks id (hne task))
    | joins _ task queued | opens _ task queued => exact (h _ _ task).not_queued queued
    | hears _ task _ _ result =>
      exact hsame (task?_setStanding_of_ne (by rw [result]; rfl) id (hne task))

/-! ## Resigned tasks end -/

/-- A resigned task that goes on from where it waited ends. -/
theorem resume_resigned (hk : s.task? id = some ⟨request, standing⟩) (hi : s.Resigned standing)
    (hn : standing.summons? id = some (.resume id)) : ∃ standing',
      (s.resume id).task? id = some ⟨request, standing'⟩ ∧ standing'.IsEnded := by
  have hended : ∀ {u : Session} (answer : Answer), u.task? id = s.task? id →
      ∃ standing', (u.endTask id answer).task? id = some ⟨request, standing'⟩ ∧
        standing'.IsEnded := fun answer hu =>
    ⟨.ended answer, task?_setStanding_self (hu.trans hk) rfl, trivial⟩
  unfold resume
  rw [hk]
  dsimp only [Option.map_some]
  cases standing with
  | awaitingNews w =>
    dsimp only
    unfold concludeNews
    split
    next =>
      obtain ⟨findings, answer, he⟩ := s.answerNews_eq id
      rw [he]
      exact hended answer rfl
    next => exact hended _ rfl
  | phaseCame ready crashed =>
    dsimp only
    unfold concludePhase
    dsimp only
    split <;> exact hended _ rfl
  | startupCame answer =>
    obtain ⟨why, hwhy⟩ := hi trivial
    cases hwhy
    dsimp only
    unfold useServer
    split
    next ha => cases ha
    next => split <;> exact hended _ rfl
    next => exact hended _ rfl
  | queued => exact absurd rfl hi.not_queued
  | _ => cases hn

/-- A resigned task that is given its summons ends, or is about to look what has come. -/
theorem react_summoned (hk : s.task? id = some ⟨request, standing⟩) (hi : s.Resigned standing)
    (hn : standing.summons? id = some n) : ∃ standing',
      (s.react n).task? id = some ⟨request, standing'⟩ ∧ (standing'.IsEnded ∨ n ≠ .resume id ∧
        standing'.summons? id = some (.resume id) ∧ .resume id ∈ (s.react n).queue) := by
  have hlast : Notice.resume id ∈ s.queue ++ [.resume id] :=
    List.mem_append_right _ (List.mem_singleton.mpr rfl)
  cases standing with
  | queued => exact absurd rfl hi.not_queued
  | awaitingPhase ready crashed =>
    cases hn
    have he : s.react (.phaseEnded id) =
        (s.setStanding id (.phaseCame ready crashed)).enqueue [.resume id] := by
      show s.phaseEnded id = _
      unfold phaseEnded
      rw [hk]
      rfl
    rw [he]
    exact ⟨_, task?_setStanding_self hk rfl, .inr ⟨nofun, rfl, hlast⟩⟩
  | awaitingStartup i =>
    cases hn
    obtain ⟨why, hwhy⟩ := hi trivial
    have he : s.react (.startupEnded id) =
        (s.setStanding id (.startupCame (.failed why))).enqueue [.resume id] := by
      show s.startupEnded id = _
      have hwhy : (s.task? i).bind Task.answer? = some (.failed why) := hwhy
      unfold startupEnded
      rw [hk]
      dsimp only [Option.map_some]
      rw [hwhy]
    rw [he]
    exact ⟨_, task?_setStanding_self hk rfl, .inr ⟨nofun, rfl, hlast⟩⟩
  | awaitingNews | phaseCame | startupCame =>
    cases hn
    obtain ⟨standing', hk', hover⟩ := resume_resigned hk hi rfl
    exact ⟨standing', hk', .inl hover⟩
  | _ => cases hn

/-- A resigned task that has ended or is summoned. -/
def WindsUp (s : Session) (id : TaskId) (request : Request) : Prop :=
  ∃ standing, s.task? id = some ⟨request, standing⟩ ∧ s.Resigned standing ∧
    (standing.IsEnded ∨ ∃ m, standing.summons? id = some m ∧ m ∈ s.queue)

theorem WindsUp.step (h : s.WindsUp id request) : s.step.WindsUp id request := by
  obtain ⟨standing, hk, hi, htold⟩ := h
  cases hq : s.queue with
  | nil =>
    rw [step_nil hq]
    exact ⟨standing, hk, hi, htold⟩
  | cons n rest =>
    have he := step_errand hq
    obtain ⟨standing', hk', hi'⟩ := he.resigned (s := { s with queue := rest }) hk hi
    refine ⟨standing', hk', hi', ?_⟩
    rcases htold with hended | ⟨m, hm, hmem⟩
    · have hkept := he.proceeds.keeps id _ hk (Task.hasEnded_iff.mpr hended)
      cases hk'.symm.trans hkept
      exact .inl hended
    · by_cases hn : n = m
      · subst hn
        rw [step_cons hq] at hk' ⊢
        obtain ⟨standing'', hk'', hover⟩ :=
          react_summoned (s := { s with queue := rest }) hk hi hm
        cases hk'.symm.trans hk''
        exact hover.imp_right fun hlooks => ⟨_, hlooks.2⟩
      · have hstays := he.stays (s := { s with queue := rest }) hk hm hn
        cases hk'.symm.trans hstays
        rw [hq] at hmem
        obtain ⟨more, hqueue⟩ := he.queue
        refine .inr ⟨m, hm, ?_⟩
        rw [hqueue]
        exact List.mem_append_left _ ((List.mem_cons.mp hmem).resolve_left (Ne.symm hn))

theorem WindsUp.act (h : s.WindsUp id request) (a : Action) : (s.act a).WindsUp id request := by
  have hqueue : ∀ {more : List Notice} {standing : Standing},
      (standing.IsEnded ∨ ∃ m, standing.summons? id = some m ∧ m ∈ s.queue) →
      standing.IsEnded ∨ ∃ m, standing.summons? id = some m ∧ m ∈ s.queue ++ more :=
    fun h => h.imp_right fun ⟨m, hm, hmem⟩ => ⟨m, hm, List.mem_append_left _ hmem⟩
  cases a with
  | step => exact h.step
  | ask request' =>
    obtain ⟨standing, hk, hi, htold⟩ := h
    exact ⟨standing, task?_addTask hk request', hi.keeps fun _ _ hi _ => task?_addTask hi request',
      hqueue htold⟩
  | feed | exit =>
    obtain ⟨standing, hk, hi, htold⟩ := h
    exact ⟨standing, hk, hi, hqueue htold⟩

theorem WindsUp.after (h : s.WindsUp id request) (actions : List Action) :
    (s.after actions).WindsUp id request :=
  after_induction (P := fun s => s.WindsUp id request) h (fun _ a h => h.act a) actions

theorem WindsUp.run (h : s.WindsUp id request) (m : Nat) : (s.run m).WindsUp id request := by
  induction m with
  | zero => exact h
  | succ m ih =>
    rw [run_succ]
    exact ih.step

/-- Its summons comes up, and then it ends or is about to look what has come. -/
theorem WindsUp.goes_on (h : s.WindsUp id request) (hk : s.task? id = some ⟨request, standing⟩)
    (hn : standing.summons? id = some n) (hm : n ∈ s.queue) : ∃ m standing',
      (s.run m).task? id = some ⟨request, standing'⟩ ∧ (standing'.IsEnded ∨ n ≠ .resume id ∧
        standing'.summons? id = some (.resume id) ∧ .resume id ∈ (s.run m).queue) := by
  obtain ⟨m, rest, hq, hkm⟩ := summoned hk hn hm
  obtain ⟨standing', hk', hi, -⟩ := h.run m
  cases hkm.symm.trans hk'
  obtain ⟨standing', hk', hover⟩ :=
    react_summoned (s := { s.run m with queue := rest }) hkm hi hn
  refine ⟨m + 1, standing', ?_⟩
  rw [run_succ, step_cons hq]
  exact ⟨hk', hover⟩

/-- **A task that winds up ends** by itself. -/
theorem WindsUp.ends (h : s.WindsUp id request) :
    ∃ m answer, (s.run m).task? id = some ⟨request, .ended answer⟩ := by
  have hended : ∀ {m standing}, (s.run m).task? id = some ⟨request, standing⟩ →
      standing.IsEnded → ∃ m answer, (s.run m).task? id = some ⟨request, .ended answer⟩ := by
    intro m standing hk hover
    cases standing with
    | ended answer => exact ⟨m, answer, hk⟩
    | _ => exact hover.elim
  have hwinds := h
  obtain ⟨standing, hk, -, hover | ⟨n, hn, hm⟩⟩ := h
  · exact hended (m := 0) hk hover
  obtain ⟨m, standing', hkm, hover | ⟨-, hlooks, hmem⟩⟩ := hwinds.goes_on hk hn hm
  · exact hended hkm hover
  obtain ⟨m', standing'', hkm', hover | ⟨hne, -⟩⟩ := (hwinds.run m).goes_on hkm hlooks hmem
  · rw [← run_add] at hkm'
    exact hended hkm' hover
  · exact absurd rfl hne

/-! ## Nothing is started -/

/-- The server is stopped, and nobody is going to start it or a verifier. -/
structure Still (s : Session) : Prop where
  guarded : s.server.supervisor.Guarded
  stopped : s.server.supervisor.state = .stopped
  resigned : ∀ id k, s.task? id = some k → s.Resigned k.standing

theorem Still.held (h : s.Still) : s.server.supervisor.held = none :=
  h.guarded.held_eq_none (by rw [h.stopped]; rfl)

theorem Still.address (h : s.Still) : s.server.address = none := by
  unfold SharedServer.address
  rw [h.stopped]
  exact if_neg nofun

/-- Where all tasks are resigned a notice starts and kills nothing. -/
theorem react_sustains (h : ∀ id k, s.task? id = some k → s.Resigned k.standing) (n : Notice) :
    Sustains s (s.react n) := by
  cases n with
  | begin id =>
    show Sustains s (s.begin id)
    unfold Session.begin
    split
    next hk => exact absurd rfl (h id _ hk).not_queued
    next => exact .refl s
  | wake wake =>
    cases wake with
    | output pid stream => exact .read s pid stream
    | exit pid => exact .awaitExit s pid
  | streamEnded pid => exact .streamEnded s pid
  | outputEnded pid => exact .awaitExit s pid
  | phaseEnded id => exact .phaseEnded s id
  | startupEnded id => exact .startupEnded s id
  | resume id =>
    show Sustains s (s.resume id)
    unfold Session.resume
    split
    next => exact .concludeNews s id _
    next => exact .concludePhase s id _ _
    next answer hs =>
      obtain ⟨k, hk, hs⟩ := Option.map_eq_some_iff.mp hs
      obtain ⟨why, hwhy⟩ := h id k hk (hs ▸ trivial)
      rw [hs] at hwhy
      cases hwhy
      unfold useServer
      split
      next ha => cases ha
      next => split <;> exact .endTask s id _
      next => exact .endTask s id _
    next => exact .refl s

/-- **Whatever processes do**, nothing is started. -/
theorem Still.act (h : s.Still) {a : Action} (ha : ∀ request, a ≠ .ask request) :
    (s.act a).Still ∧ Handles [] [] s (s.act a) := by
  have hrests : ∀ {t}, Sustains s t → (∀ id k, t.task? id = some k → t.Resigned k.standing) →
      t.Still ∧ Handles [] [] s t := fun hsame hresigned =>
    ⟨⟨hsame.guarded h.guarded, (hsame.still h.guarded h.held).trans h.stopped, hresigned⟩,
      hsame.handles⟩
  cases a with
  | ask request => exact absurd rfl (ha request)
  | feed pid stream chunk =>
    exact hrests (.of_engine (.touch (World.touches_feed ..) rfl rfl) rfl rfl (.refl _)) h.resigned
  | exit pid code time =>
    exact hrests (.of_engine (.touch (World.touches_exit ..) rfl rfl) rfl rfl (.refl _)) h.resigned
  | step =>
    cases hq : s.queue with
    | nil =>
      rw [Session.act, step_nil hq]
      exact ⟨h, .refl s⟩
    | cons n rest =>
      have hresigned := (step_errand hq).all_resigned (s := { s with queue := rest }) h.resigned
      have hsame := react_sustains (s := { s with queue := rest }) h.resigned n
      rw [Session.act]
      rw [step_cons hq] at hresigned ⊢
      exact hrests ⟨hsame.handles.of_start rfl rfl, hsame.count, hsame.pids, hsame.runs, hsame.held,
        hsame.guarded, hsame.still⟩ hresigned

theorem Still.after (h : s.Still) (ha : ∀ request, .ask request ∉ actions) :
    (s.after actions).Still ∧ Handles [] [] s (s.after actions) := by
  induction actions using List.reverseRecOn with
  | nil => exact ⟨h, .refl s⟩
  | append_singleton before a ih =>
    obtain ⟨hstill, hquiet⟩ := ih fun request hm => ha request (List.mem_append_left _ hm)
    rw [after_concat]
    have hlast : ∀ request, a ≠ .ask request := by
      rintro request rfl
      exact ha request (List.mem_append_right _ (List.mem_singleton.mpr rfl))
    exact (hstill.act hlast).imp_right hquiet.after

end VerifierHost.Session
