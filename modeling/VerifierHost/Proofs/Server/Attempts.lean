import VerifierHost.Proofs.Server.Errands

/-! # Attempts to start the shared server

The shared server is told to choose where it listens, which no verifier is told. Runs and requests
for what is known make no attempt to start it (`Session.Abstains`). While nobody manages it by hand
a notice does one of six things to it (`Session.react_duty`), and only a startup that begins makes
an attempt. -/

namespace VerifierHost

/-- An attempt to start the shared server, whether it succeeds or not. -/
def Event.startsServer : Event → Bool
  | .spawned _ call | .refused call => call.args = ["--port", "0"]
  | _ => false

theorem Invocation.build_args_ne (tools : Toolchain) (settings : Settings)
    (inherited : Environment) (address path : Text) (target : VerificationTarget) :
    (build tools settings inherited address path target).call.args ≠ ["--port", "0"] := by
  intro h
  cases target with
  | file =>
    have hhead : ("--crate-type=lib" : Text) = "--port" := (List.cons.inj h).1
    revert hhead
    decide
  | crate =>
    have hhead : ("--message-format=json" : Text) = "--port" := (List.cons.inj h).1
    revert hhead
    decide

/-- A request that has to do with the server's process beside the startup that is shared. -/
def Request.Meddles (request : Request) : Prop := request.Manages ∨ request.WaitsAlone

namespace Session

/-- The attempts to start the shared server, in that order. -/
def attempts (s : Session) : List Event := s.events.filter Event.startsServer

/-- The processes of the shared server that were started, in that order. -/
def servers (s : Session) : List Pid := s.attempts.filterMap Event.spawned?

variable {s t u : Session} {n : Notice} {ns : List Notice} {pid : Pid}

theorem attempts_append {more : List Event} (h : t.events = s.events ++ more) :
    t.attempts = s.attempts ++ more.filter Event.startsServer := by
  rw [attempts, h, List.filter_append]
  rfl

/-! ## Whatever makes no attempt -/

/-- From one session to another nobody has tried to start the server. -/
structure Abstains (s t : Session) : Prop where
  ages : World.Ages s.world t.world
  attempts : t.attempts = s.attempts

namespace Abstains

theorem of_same (hworld : t.world = s.world) (hevents : t.events = s.events) : Abstains s t :=
  ⟨hworld ▸ .refl _, by rw [Session.attempts, hevents]; rfl⟩

theorem refl (s : Session) : Abstains s s := of_same rfl rfl

theorem trans (h : Abstains s t) (h' : Abstains t u) : Abstains s u :=
  ⟨h.ages.trans h'.ages, h'.attempts.trans h.attempts⟩

theorem of_ages {world : World} (h : World.Ages s.world world) :
    Abstains s { s with world } := ⟨h, rfl⟩

theorem record (s : Session) {events : List Event}
    (h : ∀ e ∈ events, e.startsServer = false) : Abstains s (s.record events) := by
  refine ⟨.refl _, (attempts_append rfl).trans ?_⟩
  rw [List.filter_eq_nil_iff.mpr fun e he => by rw [h e he]; exact Bool.false_ne_true,
    List.append_nil]

theorem showAll (s : Session) (effects : List Effect) : Abstains s (s.showAll effects) := by
  refine record s fun e he => ?_
  obtain ⟨effect, -, rfl⟩ := List.mem_map.mp he
  rfl

theorem refreshHints (s : Session) : Abstains s s.refreshHints := by
  obtain ⟨instantiations, effects, he, -⟩ := s.refreshHints_eq
  rw [he]
  exact trans (t := s.setFindings { s.findings with instantiations }) (of_same rfl rfl)
    (showAll _ effects)

theorem forgetCrate {path : Text} (h : s.forgetCrate path = .ok t) : Abstains s t := by
  obtain ⟨files, rfl⟩ := forgetCrate_ok h
  refine trans (t := { s with files }) (of_same rfl rfl) (record _ fun e he => ?_)
  rw [List.mem_singleton.mp he]
  rfl

theorem kill (s : Session) (pid : Pid) : Abstains s (s.kill pid) := by
  have hkilled : Abstains s ({ s with world := (s.world.kill pid).1 }.record [.killed pid]) := by
    refine (of_ages (World.touches_kill s.world pid).ages).trans (record _ fun e he => ?_)
    rw [List.mem_singleton.mp he]
    rfl
  exact hkilled.trans (of_same rfl rfl)

theorem killRuns (s : Session) : Abstains s s.killRuns := by
  have hfold : ∀ (pids : List Pid) (u : Session), Abstains s u →
      Abstains s (pids.foldl Session.kill u) := by
    intro pids
    induction pids with
    | nil => exact fun _ hu => hu
    | cons pid rest ih => exact fun u hu => ih _ (hu.trans (kill u pid))
  exact hfold s.engine.pids s (refl s)

theorem spawn (s : Session) {call : Call} (hcall : call.args ≠ ["--port", "0"]) :
    Abstains s (s.spawn call).1 := by
  have hevent : ∀ w event, World.Ages s.world w → event.startsServer = false →
      Abstains s ({ s with world := w }.record [event]) := by
    refine fun w event hw he => (of_ages hw).trans (record _ fun e hmem => ?_)
    rw [List.mem_singleton.mp hmem]
    exact he
  have hages := (World.grows_spawn s.world).ages
  unfold Session.spawn
  split
  next w pid hw =>
    rw [hw] at hages
    exact hevent w _ hages (decide_eq_false hcall)
  next w fault hw =>
    rw [hw] at hages
    exact hevent w _ hages (decide_eq_false hcall)

theorem conclude (s : Session) (id : TaskId) (c : Conclusion) : Abstains s (s.conclude id c) := by
  obtain ⟨u, answer, hu, hcases⟩ :=
    ((s.showAll c.effects).noticeNews c.released).answerRun_eq id c.ending
  have hconclude : s.conclude id c = u.endTask id answer := hu
  have hshown : Abstains s ((s.showAll c.effects).noticeNews c.released) :=
    (showAll s c.effects).trans (of_same rfl rfl)
  rw [hconclude]
  rcases hcases with rfl | rfl
  · exact hshown.trans (of_same rfl rfl)
  · exact (hshown.trans (refreshHints _)).trans (of_same rfl rfl)

theorem startVerifier (s : Session) (id : TaskId) {invocation : Invocation}
    (target : VerificationTarget) (name : Text) (hcall : invocation.call.args ≠ ["--port", "0"]) :
    Abstains s (s.startVerifier id invocation target name) := by
  have hspawn := spawn s hcall
  unfold Session.startVerifier
  dsimp only
  split
  next u pid hu =>
    rw [hu] at hspawn
    exact hspawn.trans (of_same rfl rfl)
  next u fault hu =>
    rw [hu] at hspawn
    refine (hspawn.trans ?_).trans (conclude _ id _)
    exact of_same rfl rfl

theorem launch (s : Session) (id : TaskId) (path : Text) (target : VerificationTarget)
    (address : Text) : Abstains s (s.launch id path target address) := by
  have hbegun : ∀ engine effects, Abstains s ({ s.killRuns with engine }.showAll effects) :=
    fun engine effects =>
      ((killRuns s).trans (of_same (t := { s.killRuns with engine }) rfl rfl)).trans
        (showAll _ effects)
  unfold Session.launch
  cases target with
  | file => exact (hbegun _ _).trans (startVerifier _ id _ _ (Invocation.build_args_ne _ _ _ _ _ _))
  | crate =>
    dsimp only
    split
    next v hv =>
      exact ((hbegun _ _).trans (forgetCrate hv)).trans
        (startVerifier _ id _ _ (Invocation.build_args_ne _ _ _ _ _ _))
    next => exact (hbegun _ _).trans (of_same rfl rfl)

theorem answerNews (s : Session) (id : TaskId) : Abstains s (s.answerNews id) := by
  obtain ⟨findings, answer, he⟩ := s.answerNews_eq id
  rw [he]
  exact of_same rfl rfl

theorem useServer (s : Session) (id : TaskId) (answer : Answer) :
    Abstains s (s.useServer id answer) := by
  unfold Session.useServer
  split
  next => exact launch s id _ _ _
  next =>
    split
    next => exact of_same rfl rfl
    next => exact of_same rfl rfl
  next => exact of_same rfl rfl

theorem readVerifier (s : Session) (r : ActiveRun) (stream : Stream) :
    Abstains s (s.readVerifier r stream) := by
  unfold Session.readVerifier
  split
  next => exact refl s
  next =>
    dsimp only
    have hread : ∀ {engine} (effects : List Effect), Abstains s
        ({ s with world := (s.world.collect r.pid stream).1, engine }.showAll effects) := by
      intro engine effects
      refine trans (t := { s with world := (s.world.collect r.pid stream).1, engine }) ?_
        (showAll _ effects)
      exact ⟨(World.touches_collect ..).ages, rfl⟩
    split
    next => exact (hread _).trans (of_same rfl rfl)
    next => exact hread _

/-- What a reader of the server reads is no attempt to start one. -/
theorem readServer (s : Session) (r : StreamReader) : Abstains s (s.readServer r) := by
  have hread : ∀ {server} (notices : List Notice), Abstains s
      ({ s with world := (s.world.collect r.pid r.stream).1, server }.enqueue notices) :=
    fun _ => ⟨(World.touches_collect ..).ages, rfl⟩
  unfold Session.readServer
  dsimp only
  split
  next =>
    refine (hread _).trans (record _ fun e he => ?_)
    obtain ⟨line, -, rfl⟩ := List.mem_map.mp he
    rfl
  next => exact hread _
  next => exact hread _

end Abstains

/-! ## What a notice does to the server -/

/-- From one session to another the server is as it was, and so is its process. -/
structure Spares (s t : Session) : Prop extends Abstains s t where
  server : t.server = s.server
  process : ∀ pid, s.server.supervisor.held = some pid →
    t.world.process? pid = s.world.process? pid
  phases : ∀ i, .phaseEnded i ∈ t.queue → .phaseEnded i ∈ s.queue

theorem Spares.of_apart (ha : Apart s t) (h : Abstains s t) : Spares s t :=
  ⟨h, ha.server, fun pid hp => ha.served pid (.inl hp), fun _ => ha.mem_queue_of_phaseEnded⟩

theorem Spares.refl (s : Session) : Spares s s := .of_apart (.refl s) (.refl s)

/-- What a notice does to a server that nobody manages by hand. -/
inductive Duty (n : Notice) (s t : Session) : Prop
  | spares (spares : Spares s t)
      (other : ∀ pid, s.server.supervisor.held = some pid → n ≠ .wake (.exit pid))
  | reads {r : StreamReader} {pid : Pid} {stream : Stream} (notice : n = .wake (.output pid stream))
      (result : t = s.readServer r)
  | awaits {pid : Pid} {w : World} (notice : n = .wake (.exit pid) ∨ n = .outputEnded pid)
      (alive : s.world.awaitExit pid = (w, none)) (result : t = { s with world := w })
  | ends {pid : Pid} {w : World} {code : ExitCode} {supervisor : Supervisor}
      {ended : List WaitId} (notice : n = .wake (.exit pid) ∨ n = .outputEnded pid)
      (gone : s.world.awaitExit pid = (w, some code))
      (crash : s.server.supervisor.processEnded pid = .ok (supervisor, ended))
      (result : t = s.setSupervisor supervisor ended)
  | begins {id : TaskId} (notice : n = .begin id) (task : s.task? id = some ⟨.startup, .queued⟩)
  | looks {id : TaskId} {k : Task} {ready crashed : WaitId} (notice : n = .resume id)
      (task : s.task? id = some k) (came : k.standing = .phaseCame ready crashed)

/-- Nobody uses the server but through the startup that is shared. -/
def Unmeddled (s : Session) : Prop :=
  ∀ id k, s.task? id = some k → k.request.Meddles → k.request = .startup

theorem joinStartup_spares (s : Session) : Spares s s.joinStartup.1 := by
  have hnew : Spares s { (s.addTask .startup).1 with startup := some s.tasks.length } := by
    refine ⟨.of_same rfl rfl, rfl, fun _ _ => rfl, fun i hi => ?_⟩
    refine (List.mem_append.mp hi).resolve_right fun hi => ?_
    cases List.mem_singleton.mp hi
  unfold joinStartup
  split
  next =>
    split
    next => exact hnew
    next => exact .refl s
  next => exact hnew

theorem begin_duty (h : Runners ns s) (htame : s.Unmeddled) (id : TaskId) :
    Duty (.begin id) s (s.begin id) := by
  have hspares : ∀ {t}, Apart s t → Abstains s t → Duty (.begin id) s t :=
    fun ha hst => .spares (.of_apart ha hst) nofun
  have hend : ∀ answer, Duty (.begin id) s (s.endTask id answer) := fun answer =>
    hspares (.endTask s id answer) (.of_same rfl rfl)
  have hnews : ∀ file, Duty (.begin id) s (s.awaitNews id file) := fun file =>
    hspares (.awaitNews s id file) (.of_same rfl rfl)
  have hanswer : Duty (.begin id) s (s.answerNews id) :=
    hspares (.answerNews s id) (.answerNews s id)
  have hlaunch : ∀ path target address, Duty (.begin id) s (s.launch id path target address) :=
    fun path target address =>
      hspares (.launch h id path target address) (.launch s id path target address)
  have hrequire : Duty (.begin id) s (s.requireServer id) := by
    unfold requireServer
    split
    next => exact hspares (.useServer h id _) (.useServer s id _)
    next =>
      have hjoined := joinStartup_spares s
      exact .spares ⟨hjoined.toAbstains.trans (.of_same rfl rfl), hjoined.server, hjoined.process,
        hjoined.phases⟩ nofun
  unfold begin
  split
  next request hk =>
    have hplain : request.Meddles → request = .startup := htame id _ hk
    split
    next => exact hend _
    next =>
      split
      next =>
        split
        next =>
          split
          · exact hrequire
          · exact hlaunch ..
        next => exact hrequire
      next => exact hend _
    next => exact hlaunch ..
    next =>
      split
      next => exact hnews _
      next => exact hanswer
    next =>
      split
      next => exact hnews _
      next => exact hanswer
    next => exact hrequire
    next => cases hplain (.inr trivial)
    next => cases hplain (.inl trivial)
    next => cases hplain (.inl trivial)
    next => exact .begins rfl hk
    next => exact hnews _
  next => exact .spares (.refl s) nofun

theorem resume_duty (h : Runners ns s) (id : TaskId) : Duty (.resume id) s (s.resume id) := by
  unfold resume
  cases hk : s.task? id with
  | none => exact .spares (.refl s) nofun
  | some k =>
    dsimp only [Option.map_some]
    cases hs : k.standing with
    | awaitingNews wait =>
      refine .spares (.of_apart (.concludeNews s id wait) ?_) nofun
      dsimp only
      unfold concludeNews
      split
      next => exact .answerNews s id
      next => exact .of_same rfl rfl
    | phaseCame ready crashed => exact .looks rfl hk hs
    | startupCame answer =>
      exact .spares (.of_apart (.useServer h id answer) (.useServer s id answer)) nofun
    | _ => exact .spares (.refl s) nofun

theorem phaseEnded_spares (s : Session) (id : TaskId) : Spares s (s.phaseEnded id) := by
  unfold phaseEnded
  split
  next =>
    refine ⟨.of_same rfl rfl, rfl, fun _ _ => rfl, fun i hi => ?_⟩
    refine (List.mem_append.mp hi).resolve_right fun hi => ?_
    cases List.mem_singleton.mp hi
  next => exact .refl s

theorem startupEnded_spares (s : Session) (id : TaskId) : Spares s (s.startupEnded id) := by
  refine .of_apart (.startupEnded s id) ?_
  unfold startupEnded
  split
  next =>
    split
    next => exact .of_same rfl rfl
    next => exact .refl s
  next => exact .refl s

theorem streamEnded_spares (h : Runners (.streamEnded pid :: ns) s) :
    Spares s (s.streamEnded pid) := by
  refine .of_apart (.streamEnded h (h.noticed pid List.mem_cons_self)) ?_
  unfold streamEnded
  split
  next => exact .refl s
  next =>
    split
    next => exact .of_same rfl rfl
    next => exact .of_same rfl rfl
    next => exact .refl s

theorem read_duty (h : Runners ns s) (pid : Pid) (stream : Stream) :
    Duty (.wake (.output pid stream)) s (s.read pid stream) := by
  unfold read
  split
  next r hr =>
    exact .spares (.of_apart (.readVerifier h (mem_runs_of_run? hr).1 stream)
      (.readVerifier s r stream)) nofun
  next r _ _ => exact .reads rfl rfl
  next => exact .spares (.refl s) nofun

theorem awaitExit_duty (h : Runners ns s) (hg : s.server.supervisor.Guarded) (pid : Pid)
    (hn : n = .wake (.exit pid) ∨ n = .outputEnded pid) : Duty n s (s.awaitExit pid) := by
  have hother : ∀ {r}, s.engine.run? pid = some r → ∀ q, s.server.supervisor.held = some q →
      n ≠ .wake (.exit q) := by
    rintro r hr q hq rfl
    obtain ⟨hmem, rfl⟩ := mem_runs_of_run? hr
    rcases hn with hn | hn
    · cases hn
      exact h.apart r hmem (.inl hq)
    · cases hn
  unfold awaitExit
  split
  next code r id hw hr ht =>
    refine .spares (.of_apart (.finishRun s id r code) ?_) (hother hr)
    exact Abstains.trans (t := { s with engine := (s.engine.finish r code s.world.clock).1 })
      (.of_same rfl rfl) (.conclude _ id _)
  next w r id hw hr ht =>
    have htouch := World.touches_awaitExit s.world pid
    obtain ⟨hmem, rfl⟩ := mem_runs_of_run? hr
    rw [hw] at htouch
    exact .spares (.of_apart ((Apart.touch htouch (h.apart r hmem)).trans (.setStanding _ id _))
      ⟨htouch.ages, rfl⟩) (hother hr)
  next hw _ =>
    obtain ⟨supervisor, ended, he, -⟩ := hg.processEnded pid
    rw [he]
    exact .ends hn hw he rfl
  next hw _ => exact .awaits hn hw rfl

/-- **What a notice does to the server** while nobody manages it by hand. -/
theorem react_duty (h : Runners (n :: ns) s) (hg : s.server.supervisor.Guarded)
    (htame : s.Unmeddled) : Duty n s (s.react n) := by
  cases n with
  | begin id => exact begin_duty h htame id
  | wake wake =>
    cases wake with
    | output pid stream => exact read_duty h pid stream
    | exit pid => exact awaitExit_duty h hg pid (.inl rfl)
  | streamEnded pid => exact .spares (streamEnded_spares h) nofun
  | outputEnded pid => exact awaitExit_duty h hg pid (.inr rfl)
  | phaseEnded id => exact .spares (phaseEnded_spares s id) nofun
  | startupEnded id => exact .spares (startupEnded_spares s id) nofun
  | resume id => exact resume_duty h id

end Session

end VerifierHost
