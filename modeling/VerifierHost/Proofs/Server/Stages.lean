import VerifierHost.Proofs.Server.Attempts
import VerifierHost.Proofs.Server.Awaiting

/-! # How far the startup has come

The startup begins while no server is live, and watches the one that it has started until that is
ready or has crashed. From then on a notice is about to let it go on, and it ends with an address or
leaves no server that is live (`Session.Stage`). Whoever else starts no server keeps that. -/

namespace VerifierHost

namespace Phases

variable {p p' : Phases ServerState} {state : ServerState} {ended : List WaitId}
  {ready crashed w : WaitId}

/-- A wait for a state that the next move to that state will release. -/
def Hopes (p : Phases ServerState) (state : ServerState) (w : WaitId) : Prop :=
  p.book.status? w = some .pending ∧ p.waiting.get? state = some w

theorem Open.hopes (h : p.Open state w) (hw : p.book.status? w = some .pending) :
    p.Hopes state w := by
  rcases h with h | ⟨hr, -⟩
  · exact h
  · cases hr.symm.trans hw

theorem Hopes.released (h : p.Hopes state w) (hset : p.set? state = some (p', ended)) :
    w ∈ ended ∧ p'.book.status? w = some .released := by
  obtain ⟨-, -, -, hbook⟩ := set?_spec hset
  rcases hbook w with ⟨-, hr, hm⟩ | ⟨hno, -⟩
  · exact ⟨hm, hr⟩
  · exact absurd h hno

end Phases

theorem ServerState.isLive_eq_false {state : ServerState} (hrunning : state ≠ .running)
    (hready : state ≠ .ready) : state.isLive = false := by
  cases state with
  | running => exact absurd rfl hrunning
  | ready => exact absurd rfl hready
  | stopped | crashed => rfl

namespace SharedServer

variable {s t u : SharedServer} {waits waits' : List WaitId}

/-- What lines that are taken in can come to: the server stays as it is, or it is live and becomes
ready, and then whoever hoped for that is told. -/
inductive Learns (s t : SharedServer) (waits : List WaitId) : Prop
  | stays (supervisor : t.supervisor = s.supervisor) (waits : waits = [])
      (announced : t.announced = s.announced ∨ t.announced.isSome = true)
  | readies (live : s.supervisor.state.isLive = true) (state : t.supervisor.state = .ready)
      (announced : t.announced.isSome = true)
      (told : ∀ w, s.supervisor.phases.Hopes .ready w →
        w ∈ waits ∧ t.supervisor.phases.book.status? w = some .released)

theorem Learns.trans (h : Learns s t waits) (h' : Learns t u waits')
    (hmoves : Phases.Moves False t.supervisor.phases u.supervisor.phases waits') :
    Learns s u (waits ++ waits') := by
  cases h with
  | stays supervisor nothing announced =>
    subst nothing
    cases h' with
    | stays supervisor' nothing' announced' =>
      refine .stays (supervisor'.trans supervisor) nothing' ?_
      rcases announced' with he | he
      · rw [he]
        exact announced
      · exact .inr he
    | readies live state announced' told =>
      rw [supervisor] at live told
      exact .readies live state announced' told
  | readies live state announced told =>
    have htold : ∀ w, s.supervisor.phases.Hopes .ready w →
        w ∈ waits ++ waits' ∧ u.supervisor.phases.book.status? w = some .released := fun w hw =>
      ⟨List.mem_append_left _ (told w hw).1, hmoves.released w (told w hw).2⟩
    cases h' with
    | stays supervisor' nothing' announced' =>
      refine .readies live ((congrArg Supervisor.state supervisor').trans state) ?_ htold
      rcases announced' with he | he
      · rw [he]
        exact announced
      · exact he
    | readies live' state' announced' told' => exact .readies live state' announced' htold

theorem takeLine_learns (h : s.supervisor.Guarded) (lineUse : LineUse) (line : Text) :
    ∃ t ended, s.takeLine lineUse line = .ok (t, ended) ∧ t.supervisor.Guarded ∧
      Learns s t ended := by
  unfold takeLine
  split
  next digits _ =>
    rcases h.setReady_eq with ⟨-, he⟩ | ⟨hlive, phases, ended, hset, he, hcurrent, hstates⟩
    · rw [he]
      exact ⟨_, _, rfl, h, .stays rfl rfl (.inr rfl)⟩
    · rw [he]
      refine ⟨_, _, rfl, ⟨hstates, h.guard.trans ?_⟩, .readies hlive hcurrent rfl fun w hw =>
        hw.released hset⟩
      rw [hlive]
      exact congrArg ServerState.isLive hcurrent.symm
  next => exact ⟨s, [], rfl, h, .stays rfl rfl (.inl rfl)⟩

theorem takeLines_learns (h : s.supervisor.Guarded) (lineUse : LineUse) (lines : List Text) :
    Learns s (s.takeLines lineUse lines).1 (s.takeLines lineUse lines).2 := by
  induction lines generalizing s with
  | nil => exact .stays rfl rfl (.inl rfl)
  | cons line rest ih =>
    obtain ⟨t, ended, he, hguarded, hlearns⟩ := takeLine_learns h lineUse line
    unfold takeLines
    rw [he]
    exact hlearns.trans (ih hguarded) (takeLines_moves t lineUse rest)

end SharedServer

namespace Session

variable {s t u : Session} {n : Notice} {ns ns' : List Notice} {id i : TaskId} {k : Task}
  {pid : Pid} {standing : Standing} {answer : Answer} {ready crashed : WaitId}

/-! ## The server between the steps -/

/-- The server is guarded, its exit is awaited, and all servers before it have ended. -/
structure Upheld (ns : List Notice) (s : Session) : Prop where
  guarded : s.server.supervisor.Guarded
  calm : s.server.supervisor.phases.Calm
  told : s.server.supervisor.state = .ready → s.server.announced.isSome = true
  exits : ∀ pid, s.server.supervisor.held = some pid → (s.world.process? pid).isSome = true ∧
    (.wake (.exit pid) ∈ ns ∨ s.world.AwaitsExit pid)
  fates : ∀ pid ∈ s.servers, s.server.supervisor.held = some pid ∨ s.world.HasEnded pid

namespace Upheld

/-- Once no server is live the processes of all servers have ended. -/
theorem ended_of_dead (h : Upheld ns s) (hdead : s.server.supervisor.state.isLive = false) :
    ∀ pid ∈ s.servers, s.world.HasEnded pid := by
  intro pid hp
  refine (h.fates pid hp).resolve_left fun hheld => ?_
  cases (h.guarded.held_eq_none hdead).symm.trans hheld

/-- An address is known exactly while the server is ready. -/
theorem address_eq_none (h : Upheld ns s) :
    s.server.address = none ↔ s.server.supervisor.state ≠ .ready := by
  unfold SharedServer.address
  constructor
  · intro hnone hready
    rw [if_pos hready] at hnone
    have htold := h.told hready
    rw [hnone] at htold
    cases htold
  · intro hne
    rw [if_neg hne]

/-- The server stays as it is, and so do its process and who waits for the end of that. -/
theorem same (h : Upheld ns s) (hs : s.world.Sane) (hserver : t.server = s.server)
    (ha : Abstains s t) (hexits : ∀ pid, s.server.supervisor.held = some pid →
      (s.world.process? pid).isSome = true →
      (.wake (.exit pid) ∈ ns ∨ s.world.AwaitsExit pid) →
      (t.world.process? pid).isSome = true ∧
        (.wake (.exit pid) ∈ ns' ∨ t.world.AwaitsExit pid)) : Upheld ns' t := by
  refine ⟨hserver ▸ h.guarded, hserver ▸ h.calm, hserver ▸ h.told, fun pid hp => ?_,
    fun pid hp => ?_⟩
  · rw [hserver] at hp
    exact hexits pid hp (h.exits pid hp).1 (h.exits pid hp).2
  · rw [servers, ha.attempts] at hp
    rw [hserver]
    exact (h.fates pid hp).imp_right (ha.ages.ended hs pid)

theorem spares (h : Upheld (n :: s.queue) s) (hs : s.world.Sane) (ht : Spares s t)
    (hother : ∀ pid, s.server.supervisor.held = some pid → n ≠ .wake (.exit pid))
    (hqueue : ∀ m ∈ s.queue, m ∈ t.queue) : Upheld t.queue t := by
  refine h.same hs ht.server ht.toAbstains fun pid hp hknown hexit => ⟨?_, ?_⟩
  · rw [ht.process pid hp]
    exact hknown
  · refine hexit.imp (fun hm => hqueue _ ?_) (·.congr (ht.process pid hp))
    exact (List.mem_cons.mp hm).resolve_left (hother pid hp).symm

theorem reads (h : Upheld (n :: s.queue) s) (hs : s.world.Sane)
    (hother : ∀ pid, n ≠ .wake (.exit pid)) (r : StreamReader) :
    Upheld (s.readServer r).queue (s.readServer r) := by
  obtain ⟨hworld, hserver, -, -, hqueue⟩ := s.readServer_same r
  have ha := Abstains.readServer s r
  have htouch := World.touches_collect s.world r.pid r.stream
  generalize r.read (s.world.collect r.pid r.stream).2.1 (s.world.collect r.pid r.stream).2.2 =
    reading at hserver hqueue
  have hmoves := SharedServer.takeLines_moves s.server r.lineUse reading.2.1
  have hreadies := SharedServer.takeLines_guarded h.guarded r.lineUse reading.2.1
  have hlearns := SharedServer.takeLines_learns h.guarded r.lineUse reading.2.1
  generalize s.server.takeLines r.lineUse reading.2.1 = taken
    at hserver hqueue hmoves hreadies hlearns
  have hguarded := hreadies.guarded h.guarded
  have hheld : (s.readServer r).server.supervisor.held = s.server.supervisor.held := by
    rw [hserver]
    exact hreadies.held
  refine ⟨?_, ?_, fun hready => ?_, fun pid hp => ?_, fun pid hp => ?_⟩
  · rw [hserver]
    exact ⟨hguarded.states, hguarded.guard⟩
  · rw [hserver]
    exact hmoves.calm h.calm
  · rw [hserver] at hready ⊢
    have hready : taken.1.supervisor.state = .ready := hready
    show taken.1.announced.isSome = true
    cases hlearns with
    | stays supervisor _ announced =>
      rcases announced with ha | ha
      · rw [ha]
        exact h.told (supervisor ▸ hready)
      · exact ha
    | readies _ _ announced _ => exact announced
  · rw [hheld] at hp
    obtain ⟨hknown, hexit⟩ := h.exits pid hp
    rw [hworld, hqueue]
    refine ⟨(htouch.known pid).trans hknown, hexit.imp (fun hm => ?_) World.awaitsExit_collect⟩
    exact List.mem_append_left _ ((List.mem_cons.mp hm).resolve_left (hother pid).symm)
  · rw [servers, ha.attempts] at hp
    rw [hheld]
    exact (h.fates pid hp).imp_right (ha.ages.ended hs pid)

/-- Somebody begins to wait for the end of a process that goes on. -/
theorem awaits {w : World} (h : Upheld (n :: s.queue) s) (hs : s.world.Sane)
    (hn : n = .wake (.exit pid) ∨ n = .outputEnded pid)
    (halive : s.world.awaitExit pid = (w, none)) :
    Upheld s.queue { s with world := w } := by
  have htouch := World.touches_awaitExit s.world pid
  rw [halive] at htouch
  refine h.same (t := { s with world := w }) hs rfl ⟨htouch.ages, rfl⟩ fun q hq hknown hexit =>
    ⟨(htouch.known q).trans hknown, ?_⟩
  by_cases hpq : pid = q
  · subst hpq
    obtain ⟨p, hp⟩ := Option.isSome_iff_exists.mp hknown
    rcases World.awaitExit_cases hp with ⟨code, -, he⟩ | ⟨-, -, hwaits⟩
    · cases he.symm.trans halive
    · rw [halive] at hwaits
      exact .inr hwaits
  · refine hexit.imp (fun hm => (List.mem_cons.mp hm).resolve_left ?_)
      (·.congr (htouch.others q hpq))
    rintro rfl
    rcases hn with hn | hn
    · cases hn
      exact hpq rfl
    · cases hn

/-- The end of a process is noticed, which is a crash if it is held. -/
theorem ends {w : World} {code : ExitCode} {supervisor : Supervisor} {ended : List WaitId}
    (h : Upheld (n :: s.queue) s) (hn : n = .wake (.exit pid) ∨ n = .outputEnded pid)
    (hgone : s.world.awaitExit pid = (w, some code))
    (hover : s.server.supervisor.processEnded pid = .ok (supervisor, ended)) :
    Upheld (s.setSupervisor supervisor ended).queue (s.setSupervisor supervisor ended) := by
  obtain ⟨supervisor', ended', he, hguarded, hcases⟩ := h.guarded.processEnded pid
  cases he.symm.trans hover
  refine ⟨hguarded, (Supervisor.processEnded_moves hover).calm h.calm, fun hready => ?_,
    fun q hq => ?_, fun q hq => ?_⟩
  · rcases hcases with ⟨-, hcrashed, -⟩ | ⟨-, rfl⟩
    · cases hcrashed.symm.trans hready
    · exact h.told hready
  · rcases hcases with ⟨-, -, hnone⟩ | ⟨hother, rfl⟩
    · cases hnone.symm.trans hq
    · obtain ⟨hknown, hexit⟩ := h.exits q hq
      refine ⟨hknown, hexit.imp_left fun hm => List.mem_append_left _ ?_⟩
      refine (List.mem_cons.mp hm).resolve_left ?_
      rintro rfl
      rcases hn with hn | hn
      · cases hn
        exact hother hq
      · cases hn
  · rcases h.fates q hq with hheld | hended
    · rcases hcases with ⟨hpid, -, -⟩ | ⟨-, rfl⟩
      · cases hpid.symm.trans hheld
        exact .inr (World.hasEnded_of_awaitExit hgone)
      · exact .inl hheld
    · exact .inr hended

end Upheld

/-! ## Who has to do with the server -/

/-- Only startups watch the server, and of these only the latest one may be under way. -/
structure Roles (s : Session) : Prop where
  unmeddled : s.Unmeddled
  watchers : ∀ id k, s.task? id = some k → k.standing.watched?.isSome = true →
    k.request = .startup
  sole : ∀ id k, s.task? id = some k → k.request = .startup → k.hasEnded = false →
    s.startup = some id

namespace Roles

theorem same (h : Roles s) (htasks : t.tasks = s.tasks) (hstartup : t.startup = s.startup) :
    Roles t := by
  have htask := task?_congr htasks
  exact ⟨fun id k hk => h.unmeddled id k ((htask id).symm.trans hk),
    fun id k hk => h.watchers id k ((htask id).symm.trans hk),
    fun id k hk hr ho => hstartup.trans (h.sole id k ((htask id).symm.trans hk) hr ho)⟩

/-- A task that has not ended goes on or ends. -/
theorem moves (h : Roles s) (standing : Standing) (hk : s.task? id = some k)
    (hopen : k.hasEnded = false) (htasks : t.tasks = (s.setStanding id standing).tasks)
    (hstartup : t.startup = s.startup)
    (hwatches : standing.watched?.isSome = true → k.request = .startup) : Roles t := by
  have hself := task?_setStanding_self hk htasks
  have hothers := task?_setStanding_of_ne htasks
  refine ⟨fun j kj hkj hm => ?_, fun j kj hkj hw => ?_, fun j kj hkj hr ho => ?_⟩
  · by_cases hj : j = id
    · subst hj
      cases hself.symm.trans hkj
      exact h.unmeddled j k hk hm
    · exact h.unmeddled j kj ((hothers j hj).symm.trans hkj) hm
  · by_cases hj : j = id
    · subst hj
      cases hself.symm.trans hkj
      exact hwatches hw
    · exact h.watchers j kj ((hothers j hj).symm.trans hkj) hw
  · rw [hstartup]
    by_cases hj : j = id
    · subst hj
      cases hself.symm.trans hkj
      exact h.sole j k hk hr hopen
    · exact h.sole j kj ((hothers j hj).symm.trans hkj) hr ho

/-- A request is added; it is a new startup only if the one before is over. -/
theorem add (h : Roles s) {request : Request}
    (htasks : t.tasks = s.tasks ++ [⟨request, .queued⟩])
    (hstartup : t.startup = s.startup ∧ ¬ request.Meddles ∨ t.startup = some s.tasks.length ∧
      request = .startup ∧ ∀ i, s.startup = some i → (s.task? i).any Task.hasEnded = true) :
    Roles t := by
  have hcases : ∀ {j kj}, t.task? j = some kj →
      s.task? j = some kj ∨ j = s.tasks.length ∧ kj = ⟨request, .queued⟩ := task?_added_cases htasks
  refine ⟨fun j kj hkj hm => ?_, fun j kj hkj hw => ?_, fun j kj hkj hr ho => ?_⟩
  · rcases hcases hkj with hkj | ⟨-, rfl⟩
    · exact h.unmeddled j kj hkj hm
    · rcases hstartup with ⟨-, hno⟩ | ⟨-, hr, -⟩
      · exact absurd hm hno
      · exact hr
  · rcases hcases hkj with hkj | ⟨-, rfl⟩
    · exact h.watchers j kj hkj hw
    · cases hw
  · rcases hstartup with ⟨he, hno⟩ | ⟨he, -, hover⟩
    · rcases hcases hkj with hkj | ⟨-, rfl⟩
      · exact he.trans (h.sole j kj hkj hr ho)
      · exact absurd (.inr (by rw [show request = .startup from hr]; trivial)) hno
    · rcases hcases hkj with hkj | ⟨rfl, -⟩
      · have hended := hover j (h.sole j kj hkj hr ho)
        rw [hkj, Option.any_some, ho] at hended
        cases hended
      · exact he

end Roles

/-- Every notice leaves the roles as they are. -/
theorem Errand.roles (he : Errand n s t) (h : Roles s) : Roles t := by
  cases he with
  | rests idles => exact h.same idles.tasks idles.startup
  | @leaves id k standing task opened turn cue waits away parts =>
    refine h.moves standing task opened parts.tasks parts.startup fun hw => ?_
    rcases waits.watches hw with halone | hwatched
    · exact h.unmeddled id k task (.inr halone)
    · exact h.watchers id k task hwatched
  | @joins id i k notice task queued calls unknown startup pending result =>
    exact h.moves (.awaitingStartup i) task (Task.hasEnded_eq_false queued not_false) (by rw [result])
      (by rw [result]; rfl) nofun
  | @opens id k notice task queued calls unknown spent result =>
    have hadded : Roles { (s.addTask .startup).1 with startup := some s.tasks.length } :=
      h.add rfl (.inr ⟨rfl, rfl, spent⟩)
    exact hadded.moves (.awaitingStartup s.tasks.length) (task?_addTask task .startup)
      (Task.hasEnded_eq_false queued not_false) (by rw [result]) (by rw [result]; rfl) nofun
  | @hears id i k answer notice task waits ended result =>
    exact h.moves (.startupCame answer) task (Task.hasEnded_eq_false waits not_false)
      (by rw [result]; rfl) (by rw [result]; rfl) nofun

/-- A notice that lets a startup go on. -/
inductive Advances (s : Session) (i : TaskId) : Notice → Prop
  | begins (task : s.task? i = some ⟨.startup, .queued⟩) : Advances s i (.begin i)
  | comes {ready crashed : WaitId}
      (task : s.task? i = some ⟨.startup, .awaitingPhase ready crashed⟩) :
      Advances s i (.phaseEnded i)
  | looks {ready crashed : WaitId}
      (task : s.task? i = some ⟨.startup, .phaseCame ready crashed⟩) : Advances s i (.resume i)

/-- Any other notice leaves the startup where it is. -/
theorem Errand.still (he : Errand n s t) (hs : Sound ns s) (hl : Linked ns' s)
    (hno : ¬ s.Advances i n) (hk : s.task? i = some ⟨.startup, standing⟩) :
    t.task? i = some ⟨.startup, standing⟩ := by
  have hcaller : ∀ {id k}, s.task? id = some k → k.request.CallsServer → i ≠ id := by
    rintro id k task calls rfl
    cases hk.symm.trans task
    exact calls
  cases he with
  | rests idles => exact (task?_congr idles.tasks i).trans hk
  | @leaves id k standing' task opened turn cue waits away parts =>
    by_cases hid : i = id
    · subst hid
      cases hk.symm.trans task
      refine absurd ?_ hno
      have helse := hs.startup_not_elsewhere hk rfl
      cases standing with
      | queued =>
        obtain ⟨rfl, -⟩ | ⟨-, answer, ha⟩ := turn trivial
        · exact .begins hk
        · cases ha
      | awaitingPhase => exact cue _ rfl ▸ .comes hk
      | phaseCame => exact cue _ rfl ▸ .looks hk
      | awaitingStartup j => exact (hl.waits i _ j hk rfl).1.elim
      | startupCame answer => exact (hl.came i _ answer hk rfl).1.elim
      | ended => cases opened
      | awaitingNews | awaitingOutput | awaitingExit => exact absurd trivial helse
    · exact (task?_setStanding_of_ne parts.tasks i hid).trans hk
  | joins notice task queued calls unknown startup pending result =>
    rw [result]
    exact (task?_setStanding_of_ne rfl i (hcaller task calls)).trans hk
  | opens notice task queued calls unknown spent result =>
    rw [result]
    exact (task?_setStanding_of_ne rfl i (hcaller task calls)).trans (task?_addTask hk .startup)
  | hears notice task waits ended result =>
    rw [result]
    exact (task?_setStanding_of_ne rfl i (hcaller task (hl.waits _ _ _ task waits).1)).trans hk

/-- What there is to notice is noticed in its turn. -/
theorem Errand.queue (he : Errand n s t) : ∃ more, t.queue = s.queue ++ more := by
  cases he with
  | rests idles =>
    obtain ⟨more, hq, -⟩ := idles.queue
    exact ⟨more, hq⟩
  | leaves _ _ _ _ _ _ parts =>
    obtain ⟨more, -, hq⟩ := parts.queue
    exact ⟨_, hq.trans (List.append_assoc ..)⟩
  | joins _ _ _ _ _ _ _ result => exact ⟨[], by rw [result, List.append_nil]; rfl⟩
  | opens _ _ _ _ _ _ result => exact ⟨_, by rw [result]; rfl⟩
  | hears _ _ _ _ result => exact ⟨_, by rw [result]; rfl⟩

theorem Errand.mem_queue (he : Errand n s t) {m : Notice} (hm : m ∈ s.queue) : m ∈ t.queue := by
  obtain ⟨more, hq⟩ := he.queue
  rw [hq]
  exact List.mem_append_left _ hm

/-- What lets the startup go on stays in the queue until it does. -/
theorem mem_queue_of_cue (hno : ¬ s.Advances i n) (hk : s.task? i = some ⟨.startup, standing⟩)
    {m : Notice} (hcue : standing.cue? i = some m) (hm : m ∈ n :: s.queue) : m ∈ s.queue := by
  refine (List.mem_cons.mp hm).resolve_left ?_
  rintro rfl
  cases standing with
  | awaitingPhase => cases hcue; exact hno (.comes hk)
  | phaseCame => cases hcue; exact hno (.looks hk)
  | _ => cases hcue

/-! ## The startup under way -/

/-- How far the latest startup has come, and what will let it go on. -/
def Stage (ns : List Notice) (s : Session) (i : TaskId) : Standing → Prop
  | .queued => s.server.supervisor.state.isLive = false ∧ .phaseEnded i ∉ ns
  | .awaitingPhase ready crashed =>
    (s.server.supervisor.state = .running → s.server.supervisor.phases.Hopes .ready ready ∧
      s.server.supervisor.phases.Hopes .crashed crashed ∧ .phaseEnded i ∉ ns) ∧
    (s.server.supervisor.state ≠ .running → .phaseEnded i ∈ ns) ∧
    (s.server.supervisor.state = .ready →
      s.server.supervisor.phases.book.status? ready = some .released)
  | .phaseCame ready _ =>
    s.server.supervisor.state ≠ .running ∧ .resume i ∈ ns ∧
    (s.server.supervisor.state = .ready →
      s.server.supervisor.phases.book.status? ready = some .released)
  | .ended (.address _) => s.server.supervisor.state ≠ .running
  | .ended (.failed _) => s.server.supervisor.state.isLive = false
  | _ => False

/-- A server runs only for the latest startup, which goes on as soon as it need not wait. -/
structure Leads (ns : List Notice) (s : Session) : Prop where
  rouses : ∀ id, .phaseEnded id ∈ ns → (s.task? id).isSome = true
  idle : s.startup = none → s.server.supervisor.state = .stopped
  stage : ∀ i, s.startup = some i → ∃ standing, s.task? i = some ⟨.startup, standing⟩ ∧
    Stage ns s i standing

section Stage

variable (hcue : ∀ m, standing.cue? i = some m → m ∈ ns → m ∈ ns')

include hcue

/-- The states of the server are as they were. -/
theorem Stage.same (h : Stage ns s i standing)
    (hphases : t.server.supervisor.phases = s.server.supervisor.phases)
    (hnew : .phaseEnded i ∈ ns' → .phaseEnded i ∈ ns) : Stage ns' t i standing := by
  have hstate : t.server.supervisor.state = s.server.supervisor.state :=
    congrArg Phases.current hphases
  cases standing with
  | queued => exact ⟨hstate ▸ h.1, fun hm => h.2 (hnew hm)⟩
  | awaitingPhase ready crashed =>
    obtain ⟨hrunning, hcame, hready⟩ := h
    rw [Stage, hstate, hphases]
    refine ⟨fun hr => ?_, fun hne => hcue _ rfl (hcame hne), hready⟩
    obtain ⟨hhr, hhc, hnot⟩ := hrunning hr
    exact ⟨hhr, hhc, fun hm => hnot (hnew hm)⟩
  | phaseCame ready crashed =>
    obtain ⟨hne, hresume, hready⟩ := h
    rw [Stage, hstate, hphases]
    exact ⟨hne, hcue _ rfl hresume, hready⟩
  | ended answer =>
    cases answer with
    | address => exact ne_of_eq_of_ne hstate h
    | failed => exact (congrArg ServerState.isLive hstate).trans h
    | _ => exact h
  | _ => exact h

/-- The server becomes ready. -/
theorem Stage.readies (h : Stage ns s i standing)
    (hlive : s.server.supervisor.state.isLive = true) (hready : t.server.supervisor.state = .ready)
    (hreleased : ∀ w, s.server.supervisor.phases.book.status? w = some .released →
      t.server.supervisor.phases.book.status? w = some .released)
    (htold : ∀ ready crashed, standing = .awaitingPhase ready crashed →
      s.server.supervisor.phases.Hopes .ready ready → .phaseEnded i ∈ ns' ∧
        t.server.supervisor.phases.book.status? ready = some .released) :
    Stage ns' t i standing := by
  have hwas : s.server.supervisor.state ≠ .running → s.server.supervisor.state = .ready := by
    intro hne
    cases hs : s.server.supervisor.state with
    | running => exact absurd hs hne
    | ready => rfl
    | stopped | crashed => rw [hs] at hlive; cases hlive
  have hne : t.server.supervisor.state ≠ .running := by rw [hready]; exact nofun
  cases standing with
  | queued => cases h.1.symm.trans hlive
  | awaitingPhase ready crashed =>
    obtain ⟨hrunning, hcame, hwasReady⟩ := h
    by_cases hr : s.server.supervisor.state = .running
    · obtain ⟨hm, hstatus⟩ := htold ready crashed rfl (hrunning hr).1
      exact ⟨fun he => absurd he hne, fun _ => hm, fun _ => hstatus⟩
    · exact ⟨fun he => absurd he hne, fun _ => hcue _ rfl (hcame hr),
        fun _ => hreleased _ (hwasReady (hwas hr))⟩
  | phaseCame ready crashed =>
    obtain ⟨hnr, hresume, hwasReady⟩ := h
    exact ⟨hne, hcue _ rfl hresume, fun _ => hreleased _ (hwasReady (hwas hnr))⟩
  | ended answer =>
    cases answer with
    | address => exact hne
    | failed => cases (show s.server.supervisor.state.isLive = false from h).symm.trans hlive
    | _ => exact h
  | _ => exact h

/-- The server crashes. -/
theorem Stage.crashes (h : Stage ns s i standing)
    (hcrashed : t.server.supervisor.state = .crashed)
    (hlive : s.server.supervisor.state.isLive = true)
    (htold : ∀ ready crashed, standing = .awaitingPhase ready crashed →
      s.server.supervisor.phases.Hopes .crashed crashed → .phaseEnded i ∈ ns') :
    Stage ns' t i standing := by
  have hne : t.server.supervisor.state ≠ .running := by rw [hcrashed]; exact nofun
  have hnr : t.server.supervisor.state ≠ .ready := by rw [hcrashed]; exact nofun
  cases standing with
  | queued => cases h.1.symm.trans hlive
  | awaitingPhase ready crashed =>
    obtain ⟨hrunning, hcame, -⟩ := h
    refine ⟨fun he => absurd he hne, fun _ => ?_, fun he => absurd he hnr⟩
    by_cases hr : s.server.supervisor.state = .running
    · exact htold ready crashed rfl (hrunning hr).2.1
    · exact hcue _ rfl (hcame hr)
  | phaseCame ready crashed => exact ⟨hne, hcue _ rfl h.2.1, fun he => absurd he hnr⟩
  | ended answer =>
    cases answer with
    | address => exact hne
    | failed => exact congrArg ServerState.isLive hcrashed
    | _ => exact h
  | _ => exact h

end Stage

theorem mem_phaseNotices_of {ended : List WaitId}
    (hk : s.task? id = some k) (hs : k.standing = .awaitingPhase ready crashed)
    (hw : ready ∈ ended ∨ crashed ∈ ended) : .phaseEnded id ∈ s.phaseNotices ended := by
  have hmem : ∀ w ∈ ended, (ready = w ∨ crashed = w) → .phaseEnded id ∈ s.phaseNotices ended := by
    refine fun w hw hor => List.mem_flatMap.mpr ⟨w, hw, List.mem_map_of_mem ?_⟩
    refine mem_tasksWhere.mpr ⟨k, hk, ?_⟩
    rw [hs]
    simpa using hor
  rcases hw with hw | hw
  · exact hmem ready hw (.inl rfl)
  · exact hmem crashed hw (.inr rfl)

namespace Leads

/-- The server and the startup are as they were. -/
theorem same (h : Leads ns s)
    (hphases : t.server.supervisor.phases = s.server.supervisor.phases)
    (hstartup : t.startup = s.startup)
    (htask : ∀ i standing, s.startup = some i → s.task? i = some ⟨.startup, standing⟩ →
      t.task? i = some ⟨.startup, standing⟩ ∧ ∀ m, standing.cue? i = some m → m ∈ ns → m ∈ ns')
    (hknown : ∀ i, (s.task? i).isSome = true → (t.task? i).isSome = true)
    (hnew : ∀ i, .phaseEnded i ∈ ns' → .phaseEnded i ∈ ns) : Leads ns' t := by
  refine ⟨fun i hi => hknown i (h.rouses i (hnew i hi)), fun hnone => ?_, fun i hi => ?_⟩
  · exact (congrArg Phases.current hphases).trans (h.idle (hstartup ▸ hnone))
  · rw [hstartup] at hi
    obtain ⟨standing, hk, hstage⟩ := h.stage i hi
    obtain ⟨hk', hcue⟩ := htask i standing hi hk
    exact ⟨standing, hk', hstage.same hcue hphases (hnew i)⟩

/-- No server is live once the address is unknown and the startup is over. -/
theorem dead (h : Leads ns s) (hready : s.server.supervisor.state ≠ .ready)
    (hover : ∀ i, s.startup = some i → (s.task? i).any Task.hasEnded = true) :
    s.server.supervisor.state.isLive = false := by
  cases hi : s.startup with
  | none => rw [h.idle hi]; rfl
  | some i =>
    obtain ⟨standing, hk, hstage⟩ := h.stage i hi
    have hended := hover i hi
    rw [hk, Option.any_some] at hended
    cases standing with
    | ended answer =>
      cases answer with
      | address => exact ServerState.isLive_eq_false hstage hready
      | failed => exact hstage
      | _ => exact hstage.elim
    | _ => cases hended

/-- The server moves, and whoever watches it is told. -/
theorem moves {waits : List WaitId} (h : Leads (n :: s.queue) s) (htasks : t.tasks = s.tasks)
    (hstartup : t.startup = s.startup) (hqueue : t.queue = s.queue ++ s.phaseNotices waits)
    (hlive : s.server.supervisor.state.isLive = true)
    (hstage : ∀ i standing, s.startup = some i → s.task? i = some ⟨.startup, standing⟩ →
      Stage (n :: s.queue) s i standing → Stage t.queue t i standing) : Leads t.queue t := by
  have htask := task?_congr htasks
  refine ⟨fun i hi => ?_, fun hnone => ?_, fun i hi => ?_⟩
  · rw [htask]
    rw [hqueue] at hi
    rcases List.mem_append.mp hi with hi | hi
    · exact h.rouses i (List.mem_cons_of_mem _ hi)
    · obtain ⟨j, he, k, ready, crashed, hk, -⟩ := mem_phaseNotices hi
      cases he
      rw [hk]
      rfl
  · have hstopped := h.idle (hstartup ▸ hnone)
    rw [hstopped] at hlive
    cases hlive
  · rw [hstartup] at hi
    obtain ⟨standing, hk, hold⟩ := h.stage i hi
    exact ⟨standing, (htask i).trans hk, hstage i standing hi hk hold⟩

/-- A reader of the server reads. -/
theorem reads (h : Leads (n :: s.queue) s) (hg : s.server.supervisor.Guarded)
    (hno : ∀ i, ¬ s.Advances i n) (r : StreamReader) :
    Leads (s.readServer r).queue (s.readServer r) := by
  obtain ⟨-, hserver, htasks, hstartup, hqueue⟩ := s.readServer_same r
  generalize r.read (s.world.collect r.pid r.stream).2.1 (s.world.collect r.pid r.stream).2.2 =
    reading at hserver hqueue
  have hmoves := SharedServer.takeLines_moves s.server r.lineUse reading.2.1
  have hlearns := SharedServer.takeLines_learns hg r.lineUse reading.2.1
  generalize s.server.takeLines r.lineUse reading.2.1 = taken at hserver hqueue hmoves hlearns
  have hphases : (s.readServer r).server.supervisor.phases = taken.1.supervisor.phases := by
    rw [hserver]
    rfl
  have hcue : ∀ {i standing m}, s.task? i = some ⟨.startup, standing⟩ →
      standing.cue? i = some m → m ∈ n :: s.queue → m ∈ (s.readServer r).queue := by
    intro i standing m hk hm hmem
    rw [hqueue]
    exact List.mem_append_left _ (mem_queue_of_cue (hno i) hk hm hmem)
  cases hlearns with
  | stays supervisor nothing _ =>
    have hnotices : (s.readServer r).queue = s.queue := by
      rw [hqueue, nothing]
      exact List.append_nil _
    refine h.same (hphases.trans (congrArg Supervisor.phases supervisor)) hstartup
      (fun i standing hi hk => ⟨(task?_congr htasks i).trans hk, fun m => hcue hk⟩)
      (fun i hi => (task?_congr htasks i).symm ▸ hi) fun i hi => ?_
    rw [hnotices] at hi
    exact List.mem_cons_of_mem _ hi
  | readies live state _ told =>
    have hready : (s.readServer r).server.supervisor.state = .ready :=
      (congrArg Phases.current hphases).trans state
    refine h.moves htasks hstartup hqueue live fun i standing hi hk hstage =>
      hstage.readies (fun m => hcue hk) live hready (fun w hw => ?_) fun ready crashed hs hhopes => ?_
    · rw [hphases]
      exact hmoves.released w hw
    · obtain ⟨hm, hreleased⟩ := told ready hhopes
      rw [hphases, hqueue]
      exact ⟨List.mem_append_right _ (mem_phaseNotices_of hk hs (.inl hm)), hreleased⟩

/-- The end of a process is noticed. -/
theorem ends {supervisor : Supervisor} {ended : List WaitId} (h : Leads (n :: s.queue) s)
    (hg : s.server.supervisor.Guarded) (hno : ∀ i, ¬ s.Advances i n)
    (hover : s.server.supervisor.processEnded pid = .ok (supervisor, ended)) :
    Leads (s.setSupervisor supervisor ended).queue (s.setSupervisor supervisor ended) := by
  have hcue : ∀ {i standing m}, s.task? i = some ⟨.startup, standing⟩ →
      standing.cue? i = some m → m ∈ n :: s.queue → m ∈ (s.setSupervisor supervisor ended).queue :=
    fun hk hm hmem => List.mem_append_left _ (mem_queue_of_cue (hno _) hk hm hmem)
  by_cases hheld : s.server.supervisor.held = some pid
  · obtain ⟨phases, ended', hset, he, hcurrent, -⟩ := hg.processEnded_eq hheld
    cases he.symm.trans hover
    have hlive : s.server.supervisor.state.isLive = true := by
      rw [← hg.guard, hheld]
      rfl
    refine h.moves rfl rfl rfl hlive fun i standing hi hk hstage =>
      hstage.crashes (fun m => hcue hk) hcurrent hlive fun ready crashed hs hhopes => ?_
    exact List.mem_append_right _
      (mem_phaseNotices_of hk hs (.inr (hhopes.released hset).1))
  · rw [Supervisor.processEnded, if_neg hheld] at hover
    cases hover
    refine h.same rfl rfl (fun i standing hi hk => ⟨hk, fun m => hcue hk⟩) (fun _ hi => hi)
      fun i hi => ?_
    refine List.mem_cons_of_mem _ ((List.mem_append.mp hi).resolve_right ?_)
    exact List.not_mem_nil

end Leads

end Session

end VerifierHost
