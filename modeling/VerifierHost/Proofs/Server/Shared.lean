import VerifierHost.Proofs.Server.Stages

/-! # One startup for all

A startup that begins makes one attempt to start the server, and only then is one made; it goes on
once the server is ready or has crashed, and what it ends with agrees with that. So every notice
keeps the server shared (`Session.Shared.react`). -/

namespace VerifierHost.Session

variable {s t u : Session} {n : Notice} {ns ns' : List Notice} {id i j : TaskId} {k : Task}
  {w : World} {pid : Pid} {fault : Fault} {supervisor : Supervisor} {ended : List WaitId}
  {answer : Answer} {ready crashed : WaitId}

/-! ## The startup begins -/

/-- A session whose server has just been started. -/
def withServer (s : Session) (w : World) (pid : Pid) (supervisor : Supervisor)
    (ended : List WaitId) : Session :=
  (({ s.unannounced with world := w }.record [.spawned pid s.serverCall]).setSupervisor
    supervisor ended).enqueue (firstWakes pid)

/-- What a start comes to while no server is live. -/
inductive Launched (s : Session) : Session × Except Failure Unit → Prop
  | refused {w : World} {fault : Fault} (refusal : s.world.spawn = (w, .error fault)) :
      Launched s ({ s.unannounced with world := w }.record [.refused s.serverCall],
        .error (.spawn s.toolchain.server fault))
  | started {w : World} {pid : Pid} {supervisor : Supervisor} {ended : List WaitId}
      (success : s.world.spawn = (w, .ok pid))
      (adopts : s.server.supervisor.adopt pid .announced .dropped = .ok (supervisor, ended)) :
      Launched s (s.withServer w pid supervisor ended, .ok ())

theorem startServer_launched (hg : s.server.supervisor.Guarded)
    (hdead : s.server.supervisor.state.isLive = false) : Launched s s.startServer := by
  have hlive : ¬ s.unannounced.server.supervisor.state.isLive = true := by
    show ¬ s.server.supervisor.state.isLive = true
    rw [hdead]
    exact Bool.false_ne_true
  show Launched s (s.unannounced.superviseCall s.serverCall .announced .dropped)
  unfold superviseCall
  rw [if_neg hlive]
  unfold spawn
  dsimp only
  cases hw : s.world.spawn with
  | mk w result =>
    have hw' : s.unannounced.world.spawn = (w, result) := hw
    rw [hw']
    cases result with
    | error fault => exact .refused hw
    | ok pid =>
      obtain ⟨supervisor, ended, he, -⟩ := hg.adopt pid .announced .dropped
      have he' : ({ s.unannounced with
          world := w }.record [.spawned pid s.serverCall]).server.supervisor.adopt
            pid .announced .dropped = .ok (supervisor, ended) := he
      dsimp only
      rw [he']
      exact .started hw he

theorem begin_startup (hk : s.task? id = some ⟨.startup, .queued⟩) : s.begin id =
    (match s.startServer with
    | (s, .ok ()) => s.awaitPhase id
    | (s, .error why) => s.endTask id (.failed why)) := by
  unfold begin
  split
  next request he =>
    cases hk.symm.trans he
    rfl
  next hno => exact absurd hk (hno _)

theorem awaitPhase_running (h : s.server.supervisor.state = .running) :
    ∃ supervisor ready crashed ended, s.awaitPhase id =
      (s.setSupervisor supervisor ended).setStanding id (.awaitingPhase ready crashed) ∧
    Supervisor.Same s.server.supervisor supervisor ∧
    (s.server.supervisor.phases.states = ServerState.all → s.server.supervisor.phases.Calm →
      supervisor.phases.Calm ∧ supervisor.phases.Hopes .ready ready ∧
        supervisor.phases.Hopes .crashed crashed) := by
  have hfirst := Supervisor.same_waitFor s.server.supervisor .ready
  have hsecond := Supervisor.same_waitFor (s.server.supervisor.waitFor .ready).1 .crashed
  have hcurrent : s.server.supervisor.phases.current = .running := h
  have hwatches := fun hstates hcalm =>
    Supervisor.watches_waitFor (s := s.server.supervisor) hstates hcalm
      (by rw [hcurrent]; decide) (by rw [hcurrent]; decide)
  unfold awaitPhase
  rw [h]
  refine ⟨_, _, _, _, rfl, hfirst.trans hsecond, fun hstates hcalm => ?_⟩
  obtain ⟨hc, hw, hpc, hpr⟩ := hwatches hstates hcalm
  exact ⟨hc, hw.ready.hopes hpr, hw.crashed.hopes hpc⟩

theorem mem_setSupervisor_queue (h : .phaseEnded id ∈ (s.setSupervisor supervisor ended).queue) :
    .phaseEnded id ∈ s.queue ∨ ∃ k ready crashed, s.task? id = some k ∧
      k.standing = .awaitingPhase ready crashed := by
  rcases List.mem_append.mp h with h | h
  · exact .inl h
  · obtain ⟨j, he, k, ready, crashed, hk, hs, -⟩ := mem_phaseNotices h
    cases he
    exact .inr ⟨k, ready, crashed, hk, hs⟩

/-- An attempt to start the server is one, whatever comes of it. -/
theorem attempts_concat {event : Event} (h : t.events = s.events ++ [event])
    (hevent : event = .refused s.serverCall ∨ ∃ pid, event = .spawned pid s.serverCall) :
    t.attempts = s.attempts ++ [event] := by
  have hargs : decide (s.serverCall.args = ["--port", "0"]) = true := decide_eq_true rfl
  have hstarts : event.startsServer = true := by
    rcases hevent with rfl | ⟨pid, rfl⟩
    · exact hargs
    · exact hargs
  rw [attempts_append h, List.filter_cons_of_pos hstarts, List.filter_nil]

theorem servers_append {more : List Event} (h : t.attempts = s.attempts ++ more) :
    t.servers = s.servers ++ more.filterMap Event.spawned? := by
  rw [servers, h, List.filterMap_append]
  rfl

section Begins

variable (hup : Upheld (n :: s.queue) s) (hsane : s.world.Sane)
  (hdead : s.server.supervisor.state.isLive = false)

include hup hsane hdead

/-- A start is refused, and no server is live still. -/
theorem Upheld.refused (hw : s.world.spawn = (w, .error fault)) (id : TaskId) (answer : Answer) :
    let t := ({ s.unannounced with world := w }.record [.refused s.serverCall]).endTask id answer
    Upheld t.queue t := by
  intro t
  have hages := (World.grows_spawn s.world).ages
  rw [hw] at hages
  have hnone : t.server.supervisor.held = none := hup.guarded.held_eq_none hdead
  have hattempts : t.attempts = s.attempts ++ [.refused s.serverCall] :=
    attempts_concat rfl (.inl rfl)
  refine ⟨hup.guarded, hup.calm, fun hready => ?_, fun pid hp => ?_, fun pid hp => ?_⟩
  · rw [show s.server.supervisor.state = .ready from hready] at hdead
    cases hdead
  · cases hnone.symm.trans hp
  · rw [servers_append hattempts] at hp
    have hp := (List.mem_append.mp hp).resolve_right List.not_mem_nil
    exact .inr (hages.ended hsane pid (hup.ended_of_dead hdead pid hp))

/-- A start succeeds, and the startup watches the server. -/
theorem Upheld.started (hw : s.world.spawn = (w, .ok pid))
    (hadopt : s.server.supervisor.adopt pid .announced .dropped = .ok (supervisor, ended))
    {supervisor' : Supervisor} {ended' : List WaitId}
    (hsame : Supervisor.Same supervisor supervisor') (hcalm : supervisor'.phases.Calm)
    (id : TaskId) (standing : Standing) :
    let t := ((s.withServer w pid supervisor ended).setSupervisor supervisor' ended').setStanding id
      standing
    Upheld t.queue t := by
  intro t
  have hages := (World.grows_spawn s.world).ages
  rw [hw] at hages
  obtain ⟨m, e, he, hguarded, hrunning, hheld⟩ := hup.guarded.adopt pid .announced .dropped
  cases he.symm.trans hadopt
  obtain ⟨-, -, hknown⟩ := World.spawn_ok hw
  have hheld' : t.server.supervisor.held = some pid := hsame.held.trans hheld
  have hattempts : t.attempts = s.attempts ++ [.spawned pid s.serverCall] :=
    attempts_concat rfl (.inr ⟨pid, rfl⟩)
  refine ⟨hguarded.same hsame, hcalm, fun hready => ?_, fun q hq => ?_, fun q hq => ?_⟩
  · cases (hsame.state.trans hrunning).symm.trans hready
  · cases hheld'.symm.trans hq
    refine ⟨hknown, .inl (List.mem_append_left _ (List.mem_append_right _ ?_))⟩
    simp [firstWakes]
  · rw [servers_append hattempts] at hq
    rcases List.mem_append.mp hq with hq | hq
    · exact .inr (hages.ended hsane q (hup.ended_of_dead hdead q hq))
    · rw [List.mem_singleton.mp hq]
      exact .inl hheld'

end Begins

/-- Who is told of the server when it has just been started has waited for it. -/
theorem mem_withServer_queue {supervisor' : Supervisor} {ended' : List WaitId}
    (h : .phaseEnded id ∈ ((s.withServer w pid supervisor ended).setSupervisor supervisor'
      ended').queue) : .phaseEnded id ∈ s.queue ∨ ∃ k ready crashed, s.task? id = some k ∧
      k.standing = .awaitingPhase ready crashed := by
  rcases mem_setSupervisor_queue h with h | h
  · have hstarted : .phaseEnded id ∈ (({ s.unannounced with world := w }.record
        [.spawned pid s.serverCall]).setSupervisor supervisor ended).queue := by
      refine (List.mem_append.mp h).resolve_right fun h => ?_
      simp [firstWakes] at h
    have hold := mem_setSupervisor_queue hstarted
    exact hold
  · exact .inr h

/-- The latest startup goes on or ends. -/
theorem Leads.turn {standing standing' : Standing} (h : Leads ns s) (hi : s.startup = some i)
    (hk : s.task? i = some ⟨.startup, standing⟩)
    (htasks : t.tasks = (s.setStanding i standing').tasks) (hstartup : t.startup = s.startup)
    (hrouses : ∀ id, .phaseEnded id ∈ ns' → .phaseEnded id ∈ ns ∨ (s.task? id).isSome = true)
    (hstage : Stage ns' t i standing') : Leads ns' t := by
  have hself := task?_setStanding_self hk htasks
  refine ⟨fun id hid => ?_, fun hnone => ?_, fun j hj => ?_⟩
  · by_cases hne : id = i
    · rw [hne, hself]
      rfl
    · rw [task?_setStanding_of_ne htasks id hne]
      exact (hrouses id hid).elim (h.rouses id) fun hknown => hknown
  · cases (hstartup.symm.trans hnone).symm.trans hi
  · cases (hstartup.symm.trans hj).symm.trans hi
    exact ⟨standing', hself, hstage⟩

/-- **The startup begins** with one attempt to start the server. -/
theorem Leads.begins (h : Leads (n :: s.queue) s) (hup : Upheld (n :: s.queue) s)
    (hsane : s.world.Sane) (hi : s.startup = some i)
    (hk : s.task? i = some ⟨.startup, .queued⟩) :
    (∃ event, (s.begin i).attempts = s.attempts ++ [event]) ∧
      Upheld (s.begin i).queue (s.begin i) ∧ Leads (s.begin i).queue (s.begin i) ∧
      (s.begin i).task? i ≠ some ⟨.startup, .queued⟩ := by
  obtain ⟨standing, hk', hdead, hnot⟩ : ∃ standing, s.task? i = some ⟨.startup, standing⟩ ∧
      s.server.supervisor.state.isLive = false ∧ .phaseEnded i ∉ n :: s.queue := by
    obtain ⟨standing, hk', hstage⟩ := h.stage i hi
    cases hk.symm.trans hk'
    exact ⟨_, hk', hstage⟩
  have hlaunched := startServer_launched hup.guarded hdead
  rw [begin_startup hk]
  generalize s.startServer = result at hlaunched
  cases hlaunched with
  | @refused w fault hw =>
    have hself := task?_setStanding_self (t := ({ s.unannounced with world := w }.record
      [.refused s.serverCall]).endTask i (.failed (.spawn s.toolchain.server fault))) hk rfl
    refine ⟨⟨_, attempts_concat rfl (.inl rfl)⟩, hup.refused hsane hdead hw i _,
      h.turn hi hk rfl rfl (fun id hid => ?_) hdead, fun hq => ?_⟩
    · refine .inl (List.mem_cons_of_mem _ ((List.mem_append.mp hid).resolve_right fun hid => ?_))
      obtain ⟨_, -, he⟩ := List.mem_map.mp hid
      cases he
    · cases hself.symm.trans hq
  | @started w pid supervisor ended hw hadopt =>
    obtain ⟨m, e, he, hguarded, hrunning, -⟩ := hup.guarded.adopt pid .announced .dropped
    cases he.symm.trans hadopt
    have hmoves := Supervisor.mark_moves (show Supervisor.mark _ _ = _ from hadopt)
    obtain ⟨supervisor', ready, crashed, ended', hphase, hsame, hwaits⟩ :=
      @awaitPhase_running (s.withServer w pid supervisor ended) i hrunning
    obtain ⟨hcalm, hready, hcrashed⟩ := hwaits hguarded.states (hmoves.calm hup.calm)
    have hstate : supervisor'.state = .running := hsame.state.trans hrunning
    have hself := task?_setStanding_self (t := ((s.withServer w pid supervisor ended).setSupervisor
      supervisor' ended').setStanding i (.awaitingPhase ready crashed)) hk rfl
    dsimp only
    rw [hphase]
    refine ⟨⟨_, attempts_concat rfl (.inr ⟨pid, rfl⟩)⟩,
      hup.started hsane hdead hw hadopt hsame hcalm i _,
      h.turn hi hk rfl rfl (fun id hid => ?_) ⟨fun _ => ⟨hready, hcrashed, fun hid => ?_⟩,
        fun hne => absurd hstate hne, fun hr => ?_⟩, fun hq => ?_⟩
    · refine (mem_withServer_queue hid).imp (List.mem_cons_of_mem _) ?_
      rintro ⟨k, -, -, hk, -⟩
      rw [hk]
      rfl
    · rcases mem_withServer_queue hid with hid | ⟨k, _, _, hk'', hs⟩
      · exact hnot (List.mem_cons_of_mem _ hid)
      · cases hk.symm.trans hk''
        cases hs
    · cases hstate.symm.trans hr
    · cases hself.symm.trans hq

/-! ## The startup goes on -/

/-- The startup hears that the server is ready or has crashed. -/
theorem Leads.comes (h : Leads (.phaseEnded i :: s.queue) s) (hi : s.startup = some i)
    (hk : s.task? i = some ⟨.startup, .awaitingPhase ready crashed⟩) :
    Leads (s.phaseEnded i).queue (s.phaseEnded i) := by
  have he : s.phaseEnded i =
      (s.setStanding i (.phaseCame ready crashed)).enqueue [.resume i] := by
    unfold phaseEnded
    rw [hk]
    rfl
  obtain ⟨hrunning, -, hready⟩ : Stage (.phaseEnded i :: s.queue) s i
      (.awaitingPhase ready crashed) := by
    obtain ⟨standing, hk', hstage⟩ := h.stage i hi
    cases hk.symm.trans hk'
    exact hstage
  rw [he]
  refine h.turn hi hk rfl rfl (fun id hid => .inl (List.mem_cons_of_mem _ ?_))
    ⟨fun hr => (hrunning hr).2.2 List.mem_cons_self, ?_, hready⟩
  · exact (List.mem_append.mp hid).resolve_right fun hid => nomatch List.mem_singleton.mp hid
  · exact List.mem_append_right _ List.mem_cons_self

/-- What the startup leaves behind that has looked which of its waits has ended. -/
def concluded (s : Session) (id : TaskId) (ready crashed : WaitId) (answer : Answer) : Session :=
  (s.setSupervisor ((s.server.supervisor.cancelWait ready).cancelWait crashed) []).endTask id answer

/-- The startup looks which of its waits has ended. -/
theorem Leads.looks (h : Leads (.resume i :: s.queue) s) (hup : Upheld (.resume i :: s.queue) s)
    (hi : s.startup = some i) (hk : s.task? i = some ⟨.startup, .phaseCame ready crashed⟩) :
    ∃ answer, s.resume i = s.concluded i ready crashed answer ∧
      Leads (s.resume i).queue (s.resume i) := by
  obtain ⟨hne, -, hready⟩ : Stage (.resume i :: s.queue) s i (.phaseCame ready crashed) := by
    obtain ⟨standing, hk', hstage⟩ := h.stage i hi
    cases hk.symm.trans hk'
    exact hstage
  have hturn : ∀ answer, (∀ ns t, t.server.supervisor.phases.current =
        s.server.supervisor.phases.current → Stage ns t i (.ended answer)) →
      Leads (s.concluded i ready crashed answer).queue (s.concluded i ready crashed answer) := by
    intro answer hstage
    refine h.turn hi hk rfl rfl (fun id hid => .inl (List.mem_cons_of_mem _ ?_)) (hstage _ _ rfl)
    rcases List.mem_append.mp hid with hid | hid
    · exact (List.mem_append.mp hid).resolve_right List.not_mem_nil
    · obtain ⟨_, -, he⟩ := List.mem_map.mp hid
      cases he
  have hdied : s.server.supervisor.state ≠ .ready → ∀ why,
      Leads (s.concluded i ready crashed (.failed why)).queue
        (s.concluded i ready crashed (.failed why)) := by
    refine fun hunready why => hturn _ fun ns t ht => ?_
    exact (congrArg ServerState.isLive ht).trans (ServerState.isLive_eq_false hne hunready)
  have hlooks : s.resume i = s.concludePhase i ready crashed := by
    unfold resume
    rw [hk]
    rfl
  rw [hlooks]
  unfold concludePhase
  dsimp only
  split
  next =>
    have haddress : (s.setSupervisor ((s.server.supervisor.cancelWait ready).cancelWait crashed)
      []).server.address = s.server.address := rfl
    rcases readyAddress_cases (s.setSupervisor
      ((s.server.supervisor.cancelWait ready).cancelWait crashed) []) with ⟨a, -, he⟩ | ⟨hnone, he⟩
    · rw [he]
      exact ⟨_, rfl, hturn _ fun ns t ht => ne_of_eq_of_ne ht hne⟩
    · rw [he]
      exact ⟨_, rfl, hdied (hup.address_eq_none.mp hnone) _⟩
  all_goals
    next hstatus =>
      refine ⟨_, rfl, hdied (fun hr => ?_) _⟩
      rw [Supervisor.waitStatus, hready hr] at hstatus
      cases hstatus

theorem Upheld.looks (h : Upheld (.resume i :: s.queue) s) (answer : Answer) :
    Upheld (s.concluded i ready crashed answer).queue (s.concluded i ready crashed answer) := by
  have hsame := (Supervisor.same_cancelWait s.server.supervisor ready).trans
    (Supervisor.same_cancelWait _ crashed)
  refine ⟨h.guarded.same hsame, (h.calm.cancel ready).cancel crashed, h.told, fun pid hp => ?_,
    h.fates⟩
  obtain ⟨hknown, hexit⟩ := h.exits pid hp
  refine ⟨hknown, hexit.imp_left fun hm => List.mem_append_left _ (List.mem_append_left _ ?_)⟩
  exact (List.mem_cons.mp hm).resolve_left nofun

/-! ## Everybody else -/

theorem task?_isSome_setStanding {standing : Standing}
    (htasks : t.tasks = (s.setStanding id standing).tasks) (i : TaskId) :
    (t.task? i).isSome = (s.task? i).isSome := by
  rw [task?_congr htasks, setStanding_task?]
  split
  next => exact Option.isSome_map
  next => rfl

/-- A startup that is opened will begin in its turn, and no server is live. -/
theorem Leads.opens (h : Leads (n :: s.queue) s) (hup : Upheld (n :: s.queue) s)
    (hunknown : s.server.address = none)
    (hover : ∀ i, s.startup = some i → (s.task? i).any Task.hasEnded = true)
    (hphases : t.server.supervisor.phases = s.server.supervisor.phases)
    (hnew : ∀ i, .phaseEnded i ∈ t.queue → .phaseEnded i ∈ s.queue)
    (hid : id < s.tasks.length) (ht : t = { (s.addTask .startup).1 with
      startup := some s.tasks.length }.setStanding id (.awaitingStartup s.tasks.length)) :
    Leads t.queue t := by
  have hadded : ∀ i, (s.task? i).isSome = true → (t.task? i).isSome = true := by
    intro i hknown
    rw [task?_isSome_setStanding (by rw [ht]) i]
    obtain ⟨k, hk⟩ := Option.isSome_iff_exists.mp hknown
    exact Option.isSome_of_eq_some (task?_addTask hk .startup)
  have hlast : t.task? s.tasks.length = some ⟨.startup, .queued⟩ := by
    rw [task?_setStanding_of_ne (by rw [ht]) _ (Nat.ne_of_gt hid)]
    exact task?_added_last (s := s) rfl
  refine ⟨fun i hi => hadded i (h.rouses i (List.mem_cons_of_mem _ (hnew i hi))), fun hnone => ?_,
    fun i hi => ?_⟩
  · rw [ht] at hnone
    cases hnone
  · rw [ht] at hi
    cases hi
    refine ⟨.queued, hlast, ?_, fun hm => ?_⟩
    · refine (congrArg (fun p => ServerState.isLive (Phases.current p)) hphases).trans ?_
      exact h.dead (hup.address_eq_none.mp hunknown) hover
    · have hknown := h.rouses _ (List.mem_cons_of_mem _ (hnew _ hm))
      rw [task?, List.getElem?_eq_none (Nat.le_refl _)] at hknown
      cases hknown

/-- Whoever leaves the server as it is leaves the startup where it is, or opens a new one. -/
theorem Leads.stays (h : Leads (n :: s.queue) s) (hup : Upheld (n :: s.queue) s)
    (hs : Sound ns s) (hl : Linked ns' s) (he : Errand n s t) (hno : ∀ i, ¬ s.Advances i n)
    (hphases : t.server.supervisor.phases = s.server.supervisor.phases)
    (hnew : ∀ i, .phaseEnded i ∈ t.queue → .phaseEnded i ∈ s.queue) : Leads t.queue t := by
  have hsame : t.startup = s.startup →
      (∀ i, (s.task? i).isSome = true → (t.task? i).isSome = true) → Leads t.queue t := by
    refine fun hstartup hknown => h.same hphases hstartup (fun i standing hi hk => ⟨?_, ?_⟩) hknown
      fun i hi => List.mem_cons_of_mem _ (hnew i hi)
    · exact he.still hs hl (hno i) hk
    · exact fun m hm hmem => he.mem_queue (mem_queue_of_cue (hno i) hk hm hmem)
  have hknown : ∀ {id standing}, t.tasks = (s.setStanding id standing).tasks → ∀ i,
      (s.task? i).isSome = true → (t.task? i).isSome = true :=
    fun htasks i hi => (task?_isSome_setStanding htasks i).trans hi
  cases he with
  | rests idles =>
    exact hsame idles.startup fun i hi => (task?_congr idles.tasks i).symm ▸ hi
  | leaves _ _ _ _ _ _ parts => exact hsame parts.startup (hknown parts.tasks)
  | joins _ _ _ _ _ _ _ result =>
    exact hsame (by rw [result]; rfl) (hknown (by rw [result]))
  | opens _ task _ _ unknown spent result =>
    exact h.opens hup unknown spent hphases hnew (List.getElem?_eq_some_iff.mp task).1 result
  | hears _ _ _ _ result => exact hsame (by rw [result]; rfl) (hknown (by rw [result]; rfl))

/-! ## Every notice -/

/-- The server is shared: it is kept up, only its startup has to do with it, and it runs only for
that. -/
structure Shared (ns : List Notice) (s : Session) : Prop where
  upheld : Upheld ns s
  roles : Roles s
  leads : Leads ns s

/-- From one session to another no attempt to start the server was made, nor does one run that did
not before; and a startup that has not begun is as it was. -/
structure Rests (s t : Session) : Prop where
  attempts : t.attempts = s.attempts
  queued : ∀ i, s.task? i = some ⟨.startup, .queued⟩ → t.task? i = some ⟨.startup, .queued⟩
  dead : s.server.supervisor.state.isLive = false → t.server.supervisor.state.isLive = false

/-- From one session to another the latest startup has begun, with one attempt to start the server
while none is live. -/
structure Begins (i : TaskId) (s t : Session) : Prop where
  startup : s.startup = some i
  queued : s.task? i = some ⟨.startup, .queued⟩
  dead : s.server.supervisor.state.isLive = false
  attempts : ∃ event, t.attempts = s.attempts ++ [event]
  begun : t.task? i ≠ some ⟨.startup, .queued⟩

/-- A notice that lets no startup go on keeps the server shared: no attempt is made, and no server
comes to life. -/
theorem Duty.shared (hd : Duty n s t) (he : Errand n s t) (hs : Sound (n :: s.queue) s)
    (hl : Linked ns' s) (h : Shared (n :: s.queue) s) (hno : ∀ i, ¬ s.Advances i n) :
    Upheld t.queue t ∧ Leads t.queue t ∧ t.attempts = s.attempts ∧
      (s.server.supervisor.state.isLive = false → t.server.supervisor.state.isLive = false) := by
  have hsane := hs.runners.sane
  have hg := h.upheld.guarded
  cases hd with
  | spares spares other =>
    have hserver := spares.server
    refine ⟨h.upheld.spares hsane spares other fun m => he.mem_queue,
      h.leads.stays h.upheld hs hl he hno (by rw [hserver]) spares.phases, spares.attempts,
      fun hdead => ?_⟩
    rw [hserver]
    exact hdead
  | @reads r pid stream notice result =>
    obtain ⟨-, hserver, -⟩ := s.readServer_same r
    rw [result]
    refine ⟨h.upheld.reads hsane (by rw [notice]; exact fun _ => nofun) r, h.leads.reads hg hno r,
      (Abstains.readServer s r).attempts, fun hdead => ?_⟩
    rw [hserver]
    rcases (SharedServer.takeLines_guarded hg r.lineUse _).state with he | ⟨hlive, -⟩
    · exact (congrArg ServerState.isLive he).trans hdead
    · cases hdead.symm.trans hlive
  | awaits notice alive result =>
    rw [result] at he ⊢
    exact ⟨h.upheld.awaits hsane notice alive,
      h.leads.stays h.upheld hs hl he hno rfl fun _ hi => hi, rfl, fun hdead => hdead⟩
  | @ends pid _ _ _ _ notice gone crash result =>
    rw [result]
    refine ⟨h.upheld.ends notice gone crash, h.leads.ends hg hno crash, rfl, fun hdead => ?_⟩
    obtain ⟨m, e, he, -, ⟨-, hcrashed, -⟩ | ⟨-, rfl⟩⟩ := hg.processEnded pid
    · cases he.symm.trans crash
      exact congrArg ServerState.isLive hcrashed
    · cases he.symm.trans crash
      exact hdead
  | @begins id notice task =>
    rw [notice] at hno
    exact absurd (.begins task) (hno id)
  | @looks id k ready crashed notice task came =>
    have hr := h.roles.watchers id k task (by rw [came]; rfl)
    obtain ⟨request, standing⟩ := k
    cases hr
    cases came
    rw [notice] at hno
    exact absurd (.looks task) (hno id)

/-- **Every notice keeps the server shared**, and only the latest startup makes an attempt to start
it, once, when it begins. -/
theorem Shared.react (h : Shared (n :: s.queue) s) (hs : Sound (n :: s.queue) s)
    (hl : Linked (n :: s.queue) s) :
    Shared (s.react n).queue (s.react n) ∧
      (Rests s (s.react n) ∨ ∃ i, n = .begin i ∧ Begins i s (s.react n)) := by
  have herrand := react_errand s n
  have hroles := herrand.roles h.roles
  -- no other startup is about to begin while one goes on
  have hsole : ∀ {i j standing}, s.task? i = some ⟨.startup, standing⟩ → ¬ standing.IsEnded →
      standing ≠ .queued → s.task? j ≠ some ⟨.startup, .queued⟩ := by
    intro i j standing hi hopen hne hj
    have hsi := h.roles.sole i _ hi rfl (Task.hasEnded_eq_false rfl hopen)
    have hsj := h.roles.sole j _ hj rfl rfl
    cases hsi.symm.trans hsj
    cases hi.symm.trans hj
    exact hne rfl
  by_cases hadv : ∃ i, s.Advances i n
  · obtain ⟨i, hadv⟩ := hadv
    cases hadv with
    | begins task =>
      have hi := h.roles.sole i _ task rfl rfl
      obtain ⟨⟨event, hattempts⟩, hup, hleads, hbegun⟩ :=
        h.leads.begins h.upheld hs.runners.sane hi task
      obtain ⟨standing, hk, hstage⟩ := h.leads.stage i hi
      cases task.symm.trans hk
      exact ⟨⟨hup, hroles, hleads⟩, .inr ⟨i, rfl, hi, task, hstage.1, ⟨event, hattempts⟩, hbegun⟩⟩
    | comes task =>
      have hi := h.roles.sole i _ task rfl rfl
      have hspares := phaseEnded_spares s i
      have hserver : (s.react (.phaseEnded i)).server = s.server := hspares.server
      refine ⟨⟨?_, hroles, h.leads.comes hi task⟩, .inl ⟨hspares.attempts, fun j hj => ?_,
        fun hdead => ?_⟩⟩
      · exact h.upheld.spares hs.runners.sane hspares (fun _ _ => nofun) fun m => herrand.mem_queue
      · exact absurd hj (hsole task not_false nofun)
      · rw [hserver]
        exact hdead
    | looks task =>
      have hi := h.roles.sole i _ task rfl rfl
      obtain ⟨answer, he, hleads⟩ := h.leads.looks h.upheld hi task
      have he : s.react (.resume i) = s.concluded i _ _ answer := he
      refine ⟨⟨?_, hroles, hleads⟩, .inl ⟨?_, fun j hj => ?_, fun hdead => ?_⟩⟩
      · rw [he]
        exact h.upheld.looks answer
      · rw [he]
        rfl
      · exact absurd hj (hsole task not_false nofun)
      · rw [he]
        exact hdead
  · have hno : ∀ i, ¬ s.Advances i n := fun i hi => hadv ⟨i, hi⟩
    have hduty := react_duty hs.runners h.upheld.guarded h.roles.unmeddled
    obtain ⟨hup, hleads, hattempts, hdead⟩ := hduty.shared herrand hs hl h hno
    exact ⟨⟨hup, hroles, hleads⟩,
      .inl ⟨hattempts, fun i hk => herrand.still hs hl (hno i) hk, hdead⟩⟩

end VerifierHost.Session
