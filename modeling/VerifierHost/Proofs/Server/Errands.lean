import VerifierHost.Proofs.Server.Ensuring
import VerifierHost.Proofs.Server.Orders
import VerifierHost.Proofs.Session.Deeds

/-! # On the way to the shared server

A task is on its way to the server until it begins, while it waits for a startup and until it goes
on with what that came to. A notice leads to one of five things (`Session.react_errand`): nobody on
the way moves, a task leaves, one joins the startup under way or opens a new one, or one hears that
its startup has ended. -/

namespace VerifierHost

def Standing.OnTheWay : Standing → Prop
  | .queued | .awaitingStartup _ | .startupCame _ => True
  | _ => False

/-- A task that runs a verifier or waits for news has nothing to do with the server. -/
def Standing.Elsewhere : Standing → Prop
  | .awaitingNews _ | .awaitingOutput .. | .awaitingExit _ => True
  | _ => False

theorem Standing.ended_away (answer : Answer) : ¬ (Standing.ended answer).OnTheWay := not_false

/-- A request that uses the shared server. -/
def Request.CallsServer : Request → Prop
  | .ensureReady | .verify .. => True
  | _ => False

/-- A request that starts a process to supervise. -/
def Request.Manages : Request → Prop
  | .startServer | .supervise .. | .startup => True
  | _ => False

/-- An answer that a startup can give. -/
def Answer.OfServer : Answer → Prop
  | .address _ | .failed _ => True
  | _ => False

/-- What a request makes of what the startup has come to. -/
def Request.Heeds : Request → Answer → Standing → Prop
  | .verify .., .address _, standing =>
    standing.runs?.isSome ∨ ∃ answer, standing = .ended answer ∧ answer.OfRun
  | .verify .., .failed why, standing => standing = .ended why.reply
  | _, answer, standing => standing = .ended answer

/-- An event that kills and starts at most certain processes. -/
def Event.Within (kills : Pid → Prop) (calls : Call → Prop) : Event → Prop
  | .killed pid => kills pid
  | .spawned _ call | .refused call => calls call
  | .shown _ | .line .. | .metadataDeleted _ => True

theorem Event.Within.mono {kills kills' : Pid → Prop} {calls calls' : Call → Prop} {e : Event}
    (h : e.Within kills calls) (hk : ∀ pid, kills pid → kills' pid)
    (hc : ∀ call, calls call → calls' call) : e.Within kills' calls' := by
  cases e with
  | killed pid => exact hk pid h
  | spawned pid call => exact hc call h
  | refused call => exact hc call h
  | shown | line | metadataDeleted => trivial

/-- A notice that moves nobody who is on the way to the server. -/
def Notice.Plain (s : Session) : Notice → Prop
  | .begin _ | .startupEnded _ => False
  | .resume id => ∀ k, s.task? id = some k → ¬ k.standing.OnTheWay
  | .wake _ | .streamEnded _ | .outputEnded _ | .phaseEnded _ => True

/-- The task that a notice lets begin, hear of a startup or go on. -/
def Notice.caller? : Notice → Option TaskId
  | .begin id | .startupEnded id | .resume id => some id
  | .wake _ | .streamEnded _ | .outputEnded _ | .phaseEnded _ => none

/-- The notice that lets a task go on that watches the server. -/
def Standing.cue? (id : TaskId) : Standing → Option Notice
  | .awaitingPhase .. => some (.phaseEnded id)
  | .phaseCame .. => some (.resume id)
  | _ => none

/-- What lets a task go on that waits for no process. -/
def Standing.summons? (id : TaskId) : Standing → Option Notice
  | .queued => some (.begin id)
  | .awaitingStartup _ => some (.startupEnded id)
  | .awaitingPhase .. => some (.phaseEnded id)
  | .startupCame _ | .phaseCame .. | .awaitingNews _ => some (.resume id)
  | .awaitingOutput .. | .awaitingExit _ | .ended _ => none

theorem Standing.summons?_of_cue? {id : TaskId} {standing : Standing} {m : Notice}
    (h : standing.cue? id = some m) : standing.summons? id = some m := by
  cases standing with
  | awaitingPhase | phaseCame => exact h
  | _ => cases h

/-- A notice that nobody on the way to the server is waiting for. -/
def Notice.Vain (s : Session) : Notice → Prop
  | .begin id => ∀ k, s.task? id = some k → k.standing ≠ .queued
  | .startupEnded id => ∀ k i, s.task? id = some k → k.standing = .awaitingStartup i →
    (s.task? i).bind Task.answer? = none
  | .resume id => ∀ k answer, s.task? id = some k → k.standing ≠ .startupCame answer
  | .wake _ | .streamEnded _ | .outputEnded _ | .phaseEnded _ => True

theorem Notice.Vain.of_caller? {s : Session} {n : Notice} (h : n.caller? = none) : n.Vain s := by
  cases n with
  | begin | startupEnded | resume => cases h
  | _ => trivial

theorem Answer.OfServer.ne_superseded {answer : Answer} (h : answer.OfServer) (request : Request) :
    answer ≠ request.supersededAnswer := by
  rintro rfl
  cases request <;> exact h

theorem Request.AsksNews.not_server {request : Request} (h : request.AsksNews) :
    request ≠ .ensureReady ∧ request ≠ .startup := by
  constructor <;> rintro rfl <;> exact h

namespace Session

variable {s t u : Session} {n : Notice} {ns : List Notice} {id i : TaskId} {k : Task}
  {standing : Standing} {kills kills' : Pid → Prop} {calls calls' : Call → Prop} {pid : Pid}

/-! ## Nobody moves -/

/-- From one session to another certain processes were killed and certain ones started. -/
def Sees (kills : Pid → Prop) (calls : Call → Prop) (s t : Session) : Prop :=
  ∃ more, t.events = s.events ++ more ∧ ∀ e ∈ more, e.Within kills calls

/-- From one session to another nobody on the way to the server has moved. -/
structure Idles (kills : Pid → Prop) (calls : Call → Prop) (s t : Session) : Prop where
  tasks : t.tasks = s.tasks
  startup : t.startup = s.startup
  queue : ∃ more, t.queue = s.queue ++ more ∧ ∀ n ∈ more, n.Plain s
  seen : Sees kills calls s t

theorem Sees.of_events (h : t.events = s.events) : Sees kills calls s t :=
  ⟨[], by rw [h, List.append_nil], nofun⟩

theorem Sees.trans (h : Sees kills calls s t) (h' : Sees kills calls t u) :
    Sees kills calls s u := by
  obtain ⟨more, he, hm⟩ := h
  obtain ⟨more', he', hm'⟩ := h'
  refine ⟨more ++ more', by rw [he', he, List.append_assoc], fun e hmem => ?_⟩
  exact (List.mem_append.mp hmem).elim (hm e) (hm' e)

theorem Sees.mono (h : Sees kills calls s t) (hk : ∀ pid, kills pid → kills' pid)
    (hc : ∀ call, calls call → calls' call) : Sees kills' calls' s t := by
  obtain ⟨more, he, hm⟩ := h
  exact ⟨more, he, fun e hmem => (hm e hmem).mono hk hc⟩

theorem Plain.congr (h : n.Plain s) (htasks : t.tasks = s.tasks) : n.Plain t := by
  cases n with
  | resume id => exact fun k hk => h k ((task?_congr htasks id).symm.trans hk)
  | begin | startupEnded => exact h
  | _ => trivial

/-- Whoever leaves the way makes no notice less plain. -/
theorem Plain.setStanding (h : n.Plain s) (haway : ¬ standing.OnTheWay)
    (htasks : t.tasks = (s.setStanding id standing).tasks) : n.Plain t := by
  cases n with
  | resume i =>
    intro k' hk'
    rcases task?_setStanding_cases htasks hk' with ⟨_, -, -, rfl⟩ | ⟨-, hk'⟩
    · exact haway
    · exact h k' hk'
  | begin | startupEnded => exact h
  | _ => trivial

namespace Idles

theorem of_same (htasks : t.tasks = s.tasks) (hstartup : t.startup = s.startup)
    (hqueue : t.queue = s.queue) (hevents : t.events = s.events) : Idles kills calls s t :=
  ⟨htasks, hstartup, ⟨[], by rw [hqueue, List.append_nil], nofun⟩, .of_events hevents⟩

theorem refl (s : Session) : Idles kills calls s s := of_same rfl rfl rfl rfl

theorem trans (h : Idles kills calls s t) (h' : Idles kills calls t u) :
    Idles kills calls s u := by
  obtain ⟨more, hq, hm⟩ := h.queue
  obtain ⟨more', hq', hm'⟩ := h'.queue
  refine ⟨h'.tasks.trans h.tasks, h'.startup.trans h.startup,
    ⟨more ++ more', by rw [hq', hq, List.append_assoc], fun n hn => ?_⟩, h.seen.trans h'.seen⟩
  rcases List.mem_append.mp hn with hn | hn
  · exact hm n hn
  · exact Plain.congr (hm' n hn) h.tasks.symm

theorem enqueue (s : Session) {notices : List Notice} (h : ∀ n ∈ notices, n.Plain s) :
    Idles kills calls s (s.enqueue notices) :=
  ⟨rfl, rfl, ⟨notices, rfl, h⟩, .of_events rfl⟩

theorem record (s : Session) {events : List Event} (h : ∀ e ∈ events, e.Within kills calls) :
    Idles kills calls s (s.record events) :=
  ⟨rfl, rfl, ⟨[], (List.append_nil _).symm, nofun⟩, ⟨events, rfl, h⟩⟩

theorem showAll (s : Session) (effects : List Effect) :
    Idles kills calls s (s.showAll effects) := by
  refine record s fun e he => ?_
  obtain ⟨effect, -, rfl⟩ := List.mem_map.mp he
  trivial

theorem setSupervisor (s : Session) (supervisor : Supervisor) (ended : List WaitId) :
    Idles kills calls s (s.setSupervisor supervisor ended) := by
  refine ⟨rfl, rfl, ⟨s.phaseNotices ended, rfl, fun n hn => ?_⟩, .of_events rfl⟩
  obtain ⟨i, rfl, -⟩ := mem_phaseNotices hn
  trivial

theorem noticeNews (s : Session) (waits : List WaitId) :
    Idles kills calls s (s.noticeNews waits) := by
  refine enqueue s fun n hn => ?_
  obtain ⟨w, -, hn⟩ := List.mem_flatMap.mp hn
  obtain ⟨i, hi, rfl⟩ := List.mem_map.mp hn
  obtain ⟨k, hk, ht⟩ := mem_tasksWhere.mp hi
  intro k' hk' hway
  cases hk.symm.trans hk'
  cases hs : k.standing <;> simp_all [Standing.OnTheWay]

theorem refreshHints (s : Session) : Idles kills calls s s.refreshHints := by
  obtain ⟨instantiations, effects, he, -⟩ := s.refreshHints_eq
  rw [he]
  refine trans ?_ (showAll _ effects)
  exact of_same rfl rfl rfl rfl

theorem forgetCrate {path : Text} (h : s.forgetCrate path = .ok t) : Idles kills calls s t := by
  obtain ⟨files, rfl⟩ := forgetCrate_ok h
  refine trans (t := { s with files }) (of_same rfl rfl rfl rfl) (record _ fun e he => ?_)
  rw [List.mem_singleton.mp he]
  trivial

theorem kill (s : Session) (hpid : kills pid) : Idles kills calls s (s.kill pid) := by
  refine ⟨rfl, rfl, ⟨_, rfl, fun n hn => ?_⟩, ⟨[.killed pid], rfl, fun e he => ?_⟩⟩
  · obtain ⟨wake, -, rfl⟩ := List.mem_map.mp hn
    trivial
  · rw [List.mem_singleton.mp he]
    exact hpid

theorem killRuns (s : Session) (hpids : ∀ pid ∈ s.engine.pids, kills pid) :
    Idles kills calls s s.killRuns := by
  have hfold : ∀ (pids : List Pid) (u : Session), (∀ pid ∈ pids, kills pid) →
      Idles kills calls u (pids.foldl Session.kill u) := by
    intro pids
    induction pids with
    | nil => exact fun u _ => refl u
    | cons pid rest ih =>
      intro u hu
      exact (kill u (hu pid List.mem_cons_self)).trans
        (ih _ fun q hq => hu q (List.mem_cons_of_mem _ hq))
  exact hfold s.engine.pids s hpids

theorem spawn (s : Session) {call : Call} (hcall : calls call) :
    Idles kills calls s (s.spawn call).1 := by
  have hevent : ∀ event : Event, event.Within kills calls →
      Idles kills calls s ({ s with world := s.world.spawn.1 }.record [event]) := by
    intro event he
    refine trans (t := { s with world := s.world.spawn.1 }) (of_same rfl rfl rfl rfl)
      (record _ fun e hmem => ?_)
    rw [List.mem_singleton.mp hmem]
    exact he
  unfold Session.spawn
  split
  next w pid hw =>
    have h := hevent (.spawned pid call) hcall
    rw [hw] at h
    exact h
  next w fault hw =>
    have h := hevent (.refused call) hcall
    rw [hw] at h
    exact h

/-- A stop kills the process that is held. -/
theorem stopSupervised (s : Session)
    (hheld : ∀ pid, s.server.supervisor.held = some pid → kills pid) :
    Idles kills calls s s.stopSupervised.1 := by
  unfold Session.stopSupervised
  cases hd : s.server.supervisor.doomed with
  | none =>
    dsimp only
    split
    next => exact setSupervisor s ..
    next => exact refl s
  | some pid =>
    have hpid : s.server.supervisor.held = some pid := by
      unfold Supervisor.doomed at hd
      split at hd
      next => exact hd
      next => cases hd
    have hkill : Idles kills calls s ({ s with world := s.world.abandon pid }.kill pid) :=
      trans (t := { s with world := s.world.abandon pid }) (of_same rfl rfl rfl rfl)
        (kill _ (hheld pid hpid))
    dsimp only
    split
    next => exact hkill.trans (setSupervisor ..)
    next => exact hkill

/-- A start may kill the process that is held. -/
theorem superviseCall (s : Session) {call : Call} (stdout stderr : LineUse)
    (hheld : ∀ pid, s.server.supervisor.held = some pid → kills pid) (hcall : calls call) :
    Idles kills calls s (s.superviseCall call stdout stderr).1 := by
  obtain ⟨u, stopped, he, hu⟩ : ∃ u stopped, (if s.server.supervisor.state.isLive
      then s.stopSupervised else (s, .ok ())) = (u, stopped) ∧ Idles kills calls s u := by
    split
    next => exact ⟨_, _, rfl, stopSupervised s hheld⟩
    next => exact ⟨s, _, rfl, refl s⟩
  have hspawn := hu.trans (spawn u hcall)
  unfold Session.superviseCall
  rw [he]
  cases stopped with
  | error e => exact hu
  | ok =>
    dsimp only
    split
    next v fault hv =>
      rw [hv] at hspawn
      exact hspawn
    next v pid hv =>
      rw [hv] at hspawn
      split
      next => exact hspawn
      next supervisor ended _ =>
        refine (hspawn.trans (setSupervisor v supervisor ended)).trans (enqueue _ fun n hn => ?_)
        simp only [List.mem_cons, List.not_mem_nil, or_false] at hn
        rcases hn with rfl | rfl | rfl <;> trivial

theorem startServer (s : Session)
    (hheld : ∀ pid, s.server.supervisor.held = some pid → kills pid) (hcall : calls s.serverCall) :
    Idles kills calls s s.startServer.1 :=
  trans (t := s.unannounced) (of_same rfl rfl rfl rfl)
    (superviseCall s.unannounced .announced .dropped hheld hcall)

theorem readServer (s : Session) (r : StreamReader) : Idles kills calls s (s.readServer r) := by
  have hread : ∀ {world server}, Idles kills calls s { s with world, server } :=
    of_same rfl rfl rfl rfl
  have hphases : ∀ (u : Session) (waits : List WaitId),
      Idles kills calls u (u.noticePhases waits) :=
    fun u waits => setSupervisor u u.server.supervisor waits
  unfold Session.readServer
  dsimp only
  split
  next =>
    refine (hread.trans (hphases _ _)).trans (record _ fun e he => ?_)
    obtain ⟨line, -, rfl⟩ := List.mem_map.mp he
    trivial
  next => exact hread.trans (hphases _ _)
  next => exact hread.trans (hphases _ _)

theorem readVerifier (s : Session) (r : ActiveRun) (stream : Stream) :
    Idles kills calls s (s.readVerifier r stream) := by
  unfold Session.readVerifier
  split
  next => exact refl s
  next =>
    dsimp only
    have hread : ∀ {world engine} (effects : List Effect),
        Idles kills calls s ({ s with world, engine }.showAll effects) :=
      fun {world engine} effects =>
        trans (t := { s with world, engine }) (of_same rfl rfl rfl rfl) (showAll _ effects)
    split
    next =>
      refine (hread _).trans (enqueue _ fun n hn => ?_)
      rw [List.mem_singleton.mp hn]
      trivial
    next => exact hread _

end Idles

/-! ## Somebody leaves -/

/-- Those who wait for a startup hear of its end. -/
def farewell (s : Session) (id : TaskId) (standing : Standing) : List Notice :=
  if standing.IsEnded then (s.tasksWhere (awaitsStartup id)).map .startupEnded else []

/-- From one session to another one task has gone on or ended, and nobody else has moved. -/
structure Parts (kills : Pid → Prop) (calls : Call → Prop) (id : TaskId) (standing : Standing)
    (s t : Session) : Prop where
  tasks : t.tasks = (s.setStanding id standing).tasks
  startup : t.startup = s.startup
  queue : ∃ more, (∀ n ∈ more, n.Plain s) ∧ t.queue = s.queue ++ more ++ s.farewell id standing
  seen : Sees kills calls s t

namespace Parts

theorem mono (h : Parts kills calls id standing s t) (hk : ∀ pid, kills pid → kills' pid)
    (hc : ∀ call, calls call → calls' call) : Parts kills' calls' id standing s t :=
  ⟨h.tasks, h.startup, h.queue, h.seen.mono hk hc⟩

theorem endTask (hu : Idles kills calls s u) (id : TaskId) (answer : Answer) :
    Parts kills calls id (.ended answer) s (u.endTask id answer) := by
  obtain ⟨more, hq, hm⟩ := hu.queue
  have hwhere : u.tasksWhere (awaitsStartup id) = s.tasksWhere (awaitsStartup id) := by
    rw [tasksWhere, tasksWhere, hu.tasks]
  refine ⟨setStanding_tasks_congr hu.tasks id _, hu.startup, ⟨more, hm, ?_⟩,
    hu.seen.trans (.of_events rfl)⟩
  show u.queue ++ (u.tasksWhere (awaitsStartup id)).map .startupEnded = _
  rw [hq, hwhere]
  rfl

/-- A task that has not ended goes on, and something plain is to be noticed. -/
theorem goesOn (hu : Idles kills calls s u) (id : TaskId) (standing : Standing)
    (hopen : ¬ standing.IsEnded) (notices : List Notice) (hnotices : ∀ n ∈ notices, n.Plain s) :
    Parts kills calls id standing s ((u.setStanding id standing).enqueue notices) := by
  obtain ⟨more, hq, hm⟩ := hu.queue
  refine ⟨setStanding_tasks_congr hu.tasks id _, hu.startup,
    ⟨more ++ notices, fun n hn => ?_, ?_⟩, hu.seen.trans (.of_events rfl)⟩
  · exact (List.mem_append.mp hn).elim (hm n) (hnotices n)
  · rw [farewell, if_neg hopen, List.append_nil, ← List.append_assoc, ← hq]
    rfl

theorem setStanding (hu : Idles kills calls s u) (id : TaskId) (standing : Standing)
    (hopen : ¬ standing.IsEnded) :
    Parts kills calls id standing s (u.setStanding id standing) := by
  rw [← enqueue_nil (Session.setStanding _ _ _)]
  exact goesOn hu id standing hopen [] nofun

/-- Its own notice is no use to a task that has left. -/
theorem vain (h : Parts kills calls id standing s t) (hk : s.task? id = some k)
    (haway : ¬ standing.OnTheWay) (hn : n = .begin id ∨ n = .resume id ∨ n.caller? = none) :
    n.Vain t := by
  have hself := task?_setStanding_self hk h.tasks
  rcases hn with rfl | rfl | hn
  · rintro k' hk' hq
    cases hself.symm.trans hk'
    exact haway (by rw [show standing = .queued from hq]; trivial)
  · rintro k' answer hk' ha
    cases hself.symm.trans hk'
    exact haway (by rw [show standing = .startupCame answer from ha]; trivial)
  · exact .of_caller? hn

theorem answerNews (s : Session) (id : TaskId) :
    ∃ answer, Parts kills calls id (.ended answer) s (s.answerNews id) := by
  obtain ⟨findings, answer, he⟩ := s.answerNews_eq id
  rw [he]
  exact ⟨answer, endTask (s := s) (u := s.setFindings findings) (.of_same rfl rfl rfl rfl) id
    answer⟩

theorem conclude (hu : Idles kills calls s u) (id : TaskId) (c : Conclusion) :
    ∃ answer, Parts kills calls id (.ended answer) s (u.conclude id c) := by
  have hnews := (hu.trans (.showAll u c.effects)).trans (.noticeNews _ c.released)
  obtain ⟨v, answer, hv, hcases⟩ :=
    ((u.showAll c.effects).noticeNews c.released).answerRun_eq id c.ending
  have hconclude : u.conclude id c = v.endTask id answer := hv
  rw [hconclude]
  rcases hcases with rfl | rfl
  · exact ⟨answer, .endTask hnews id answer⟩
  · exact ⟨answer, .endTask (hnews.trans (.refreshHints _)) id answer⟩

theorem finishRun (s : Session) (id : TaskId) (r : ActiveRun) (code : ExitCode) :
    ∃ answer, Parts kills calls id (.ended answer) s (s.finishRun id r code) :=
  conclude (s := s) (u := { s with engine := (s.engine.finish r code s.world.clock).1 })
    (.of_same rfl rfl rfl rfl) id (s.engine.finish r code s.world.clock).2

theorem startVerifier (hu : Idles kills calls s u) (id : TaskId) (invocation : Invocation)
    (target : VerificationTarget) (name : Text) (hcall : calls invocation.call) :
    ∃ standing, Parts kills calls id standing s (u.startVerifier id invocation target name) := by
  have hspawn := hu.trans (.spawn u hcall)
  unfold Session.startVerifier
  dsimp only
  split
  next v pid hv =>
    rw [hv] at hspawn
    refine ⟨.awaitingOutput pid 0, .goesOn (u := { v with
      engine := v.engine.launched invocation target name pid u.world.clock })
      (hspawn.trans (.of_same rfl rfl rfl rfl)) id (.awaitingOutput pid 0) not_false _
      fun n hn => ?_⟩
    simp only [List.mem_cons, List.not_mem_nil, or_false] at hn
    rcases hn with rfl | rfl <;> trivial
  next v fault hv =>
    rw [hv] at hspawn
    obtain ⟨answer, h⟩ := conclude (u := { v with
      engine := (v.engine.conclude v.engine.runCount target name .crash none).1 })
      (hspawn.trans (.of_same rfl rfl rfl rfl)) id
      (v.engine.conclude v.engine.runCount target name .crash none).2
    exact ⟨_, h⟩

/-- A launch kills the verifiers of the runs before and starts one. -/
theorem launch (s : Session) (id : TaskId) (path : Text) (target : VerificationTarget)
    (address : Text) : ∃ standing, Parts (· ∈ s.engine.pids)
      (fun call => ∃ tools settings inherited,
        call = (Invocation.build tools settings inherited address path target).call)
      id standing s (s.launch id path target address) := by
  have hbegun : ∀ engine effects, Idles (· ∈ s.engine.pids)
      (fun call => ∃ tools settings inherited,
        call = (Invocation.build tools settings inherited address path target).call) s
      ({ s.killRuns with engine }.showAll effects) := fun engine effects =>
    ((Idles.killRuns s fun _ hpid => hpid).trans
      (.of_same (t := { s.killRuns with engine }) rfl rfl rfl rfl)).trans (.showAll _ effects)
  unfold Session.launch
  cases target with
  | file => exact startVerifier (hbegun _ _) id _ _ _ ⟨_, _, _, rfl⟩
  | crate =>
    dsimp only
    split
    next v hv =>
      exact startVerifier ((hbegun _ _).trans (.forgetCrate hv)) id _ _ _ ⟨_, _, _, rfl⟩
    next => exact ⟨_, .endTask (hbegun _ _) id _⟩

end Parts

/-! ## What a notice leads to -/

/-- Nothing is killed or started. -/
abbrev Quietly (s t : Session) : Prop := Sees (fun _ => False) (fun _ => False) s t

/-- What becomes of a task that goes on to a standing away from the server. -/
structure Departs (s t : Session) (id : TaskId) (k : Task) (standing : Standing) : Prop where
  known : k.request = .ensureReady → k.standing = .queued → ∃ address,
    s.server.address = some address ∧ standing = .ended (.address address)
  heeds : ∀ answer, k.standing = .startupCame answer → k.request.Heeds answer standing
  /-- Only a run can be superseded. -/
  quits : k.request.Verifies → ¬ k.standing.Elsewhere →
    (∃ path target address, t = s.launch id path target address) ∨
      (∃ answer, k.standing = .startupCame answer ∧ ¬ answer.OfServer) ∨
      standing ≠ .ended k.request.supersededAnswer
  tells : k.request = .startup → ¬ k.standing.Elsewhere → ∀ answer, standing = .ended answer →
    answer.OfServer ∨ k.standing = .startupCame answer

/-- What a task comes to wait for: for news nobody was told to wait for before, or for a state of
the server, once it begins or has started the server; it does so still while it looks what has
come. -/
inductive TurnsTo (s t : Session) (id : TaskId) (k : Task) : Standing → Prop
  | idles {standing : Standing} (watches : standing.watched? = none)
      (news : ∀ w, standing ≠ .awaitingNews w) : TurnsTo s t id k standing
  | news {w : WaitId} (fresh : s.engine.updates.book.status? w = none) :
      TurnsTo s t id k (.awaitingNews w)
  | begins {standing : Standing} {u : Session} (alone : k.request.WaitsAlone)
      (start : u = s ∨ s.startServer = (u, .ok ())) (result : t = u.awaitPhase id)
      (here : ¬ standing.Elsewhere) : TurnsTo s t id k standing
  | looks {ready crashed : WaitId} (waited : k.standing = .awaitingPhase ready crashed) :
      TurnsTo s t id k (.phaseCame ready crashed)

namespace TurnsTo

theorem ended (answer : Answer) : TurnsTo s t id k (.ended answer) :=
  .idles rfl fun _ hw => by cases hw

/-- Who watches the server is one to wait for it alone, or did so before. -/
theorem watches (h : TurnsTo s t id k standing) (hw : standing.watched?.isSome = true) :
    k.request.WaitsAlone ∨ k.standing.watched?.isSome = true := by
  cases h with
  | idles watches => rw [watches] at hw; cases hw
  | news => cases hw
  | begins alone => exact .inl alone
  | looks waited => exact .inr (by rw [waited]; rfl)

end TurnsTo

/-- What a notice can lead to as far as the way to the shared server goes. -/
inductive Errand (n : Notice) (s t : Session) : Prop
  | rests (idles : Idles (fun _ => False) (fun _ => False) s t) (vain : n.Vain t)
  | leaves {id : TaskId} {k : Task} {standing : Standing} (task : s.task? id = some k)
      (opened : k.hasEnded = false)
      (turn : k.standing.OnTheWay → n = .begin id ∧ k.standing = .queued ∨
        n = .resume id ∧ ∃ answer, k.standing = .startupCame answer)
      (cue : ∀ m, k.standing.cue? id = some m → n = m)
      (waits : TurnsTo s t id k standing)
      (away : ¬ standing.OnTheWay)
      (parts : Parts (fun _ => True) (fun _ => True) id standing s t)
      (seen : Quietly s t ∨
        k.request.Manages ∧ Sees (s.server.supervisor.held = some ·) (fun _ => True) s t ∨
        k.request.Verifies ∧ ∃ path target address, t = s.launch id path target address)
      (departs : Departs s t id k standing) (vain : n.Vain t)
      (summoned : ∀ m, k.standing.summons? id = some m → n = m)
  | joins {id i : TaskId} {k : Task} (notice : n = .begin id) (task : s.task? id = some k)
      (queued : k.standing = .queued) (calls : k.request.CallsServer)
      (unknown : s.server.address = none) (startup : s.startup = some i)
      (pending : (s.task? i).any Task.hasEnded = false)
      (result : t = s.setStanding id (.awaitingStartup i))
  | opens {id : TaskId} {k : Task} (notice : n = .begin id) (task : s.task? id = some k)
      (queued : k.standing = .queued) (calls : k.request.CallsServer)
      (unknown : s.server.address = none)
      (spent : ∀ i, s.startup = some i → (s.task? i).any Task.hasEnded = true)
      (result : t = { (s.addTask .startup).1 with
        startup := some s.tasks.length }.setStanding id (.awaitingStartup s.tasks.length))
  | hears {id i : TaskId} {k : Task} {answer : Answer} (notice : n = .startupEnded id)
      (task : s.task? id = some k) (waits : k.standing = .awaitingStartup i)
      (ended : (s.task? i).bind Task.answer? = some answer)
      (result : t = (s.setStanding id (.startupCame answer)).enqueue [.resume id])

/-- It is the turn of a task on the way to the server. -/
def InTurn (n : Notice) (id : TaskId) (k : Task) : Prop :=
  n = .begin id ∧ k.standing = .queued ∨ n = .resume id ∧ ∃ answer, k.standing = .startupCame answer

theorem InTurn.hasEnded (h : InTurn n id k) : k.hasEnded = false := by
  rcases h with ⟨-, hq⟩ | ⟨-, _, ha⟩
  · exact Task.hasEnded_eq_false hq not_false
  · exact Task.hasEnded_eq_false ha not_false

theorem InTurn.summoned (h : InTurn n id k) {m : Notice} (hm : k.standing.summons? id = some m) :
    n = m := by
  rcases h with ⟨hn, hs⟩ | ⟨hn, _, hs⟩ <;> rw [hs] at hm <;> exact hn.trans (Option.some.inj hm)

theorem InTurn.plain (h : InTurn n id k) : n = .begin id ∨ n = .resume id ∨ n.caller? = none :=
  h.imp And.left (.inl ·.1)

namespace Errand

/-- A task that has nothing to do with the shared server goes on or ends. -/
theorem of_bystander (standing : Standing)
    (hn : n = .resume id ∨ n.caller? = none) (hk : s.task? id = some k)
    (hopen : k.hasEnded = false)
    (hsummoned : ∀ m, k.standing.summons? id = some m → n = m)
    (hwaits : TurnsTo s t id k standing)
    (hoff : ¬ k.standing.OnTheWay) (haway : ¬ standing.OnTheWay)
    (htells : ∀ answer, standing = .ended answer → answer.OfServer ∨ k.standing.Elsewhere)
    (hparts : Parts (fun _ => False) (fun _ => False) id standing s t) : Errand n s t := by
  refine .leaves hk hopen (fun hway => absurd hway hoff)
    (fun m hm => hsummoned m (Standing.summons?_of_cue? hm)) hwaits haway
    (hparts.mono (fun _ => False.elim) fun _ => False.elim) (.inl hparts.seen)
    ⟨fun _ hq => ?_, fun answer ha => ?_, fun _ helse => .inr (.inr ?_), fun _ helse answer ha =>
      .inl ((htells answer ha).resolve_right helse)⟩ (hparts.vain hk haway (.inr hn)) hsummoned
  · rw [hq] at hoff
    exact absurd trivial hoff
  · rw [ha] at hoff
    exact absurd trivial hoff
  · intro he
    exact ((htells _ he).resolve_right helse).ne_superseded _ rfl

/-- A task that begins goes another way. -/
theorem of_begin (standing : Standing) (hk : s.task? id = some k) (hq : k.standing = .queued)
    (hother : k.request ≠ .ensureReady ∧ k.request ≠ .startup)
    (hwaits : TurnsTo s t id k standing)
    (haway : ¬ standing.OnTheWay)
    (hquits : k.request.Verifies → standing ≠ .ended k.request.supersededAnswer)
    (hparts : Parts (fun _ => False) (fun _ => False) id standing s t) :
    Errand (.begin id) s t := by
  refine .leaves hk (Task.hasEnded_eq_false hq not_false) (fun _ => .inl ⟨rfl, hq⟩)
    (fun m hm => by rw [hq] at hm; cases hm) hwaits haway
    (hparts.mono (fun _ => False.elim) fun _ => False.elim) (.inl hparts.seen)
    ⟨fun hr => absurd hr hother.1, fun answer ha => ?_, fun hver _ => .inr (.inr (hquits hver)),
      fun hr => absurd hr hother.2⟩
    (hparts.vain hk haway (.inl rfl)) (fun m hm => by rw [hq] at hm; exact Option.some.inj hm)
  cases hq.symm.trans ha

theorem launch {path : Text} {target : VerificationTarget} (hk : s.task? id = some k)
    (hver : k.request.Verifies)
    (hturn : n = .begin id ∧ k.standing = .queued ∨
      n = .resume id ∧ (∃ given, k.request = .verify path target given) ∧
        ∃ address, k.standing = .startupCame (.address address))
    (address : Text) : Errand n s (s.launch id path target address) := by
  obtain ⟨standing, hparts⟩ := Parts.launch s id path target address
  obtain ⟨standing', htasks, hcases⟩ := launch_answer hk path target address
  obtain rfl : standing = standing' := by
    cases (task?_setStanding_self hk htasks).symm.trans (task?_setStanding_self hk hparts.tasks)
    rfl
  have hcalled : InTurn n id k := hturn.imp_right (.imp_right fun ⟨_, a, ha⟩ => ⟨_, ha⟩)
  have hwaits : TurnsTo s (s.launch id path target address) id k standing := by
    rcases hcases with ⟨pid, rfl⟩ | ⟨answer, rfl, -⟩
    · exact .idles rfl fun _ hw => by cases hw
    · exact .ended answer
  have haway : ¬ standing.OnTheWay := by
    rcases hcases with ⟨pid, rfl⟩ | ⟨answer, rfl, -⟩ <;> exact not_false
  refine .leaves hk hcalled.hasEnded (fun _ => hcalled)
    (fun m hm => hcalled.summoned (Standing.summons?_of_cue? hm)) hwaits haway
    (hparts.mono (fun _ _ => trivial) fun _ _ => trivial) (.inr (.inr ⟨hver, _, _, _, rfl⟩))
    ⟨fun hr => ?_, fun answer ha => ?_, fun _ _ => .inl ⟨_, _, _, rfl⟩, fun hr => ?_⟩
    (hparts.vain hk haway hcalled.plain) fun _ => hcalled.summoned
  · rw [hr] at hver
    cases hver
  rotate_left
  · rw [hr] at hver
    cases hver
  · rcases hturn with ⟨-, hq⟩ | ⟨-, ⟨given, hr⟩, a, ha'⟩
    · cases hq.symm.trans ha
    · cases ha'.symm.trans ha
      rw [hr]
      rcases hcases with ⟨pid, rfl⟩ | ⟨answer, rfl, hrun⟩
      · exact .inl rfl
      · exact .inr ⟨answer, rfl, hrun path target given hr⟩

/-- A task on the way ends: with what it has been told of the server, or with an answer that is
nothing the server can come to. -/
theorem ends_told {told answer : Answer} (hk : s.task? id = some k)
    (hturn : n = .begin id ∧ k.standing = .queued ∧ s.server.address.map .address = some told ∨
      n = .resume id ∧ k.standing = .startupCame told)
    (hsame : answer = told ∨ k.request ≠ .ensureReady ∧ k.request ≠ .startup ∧
      answer ≠ k.request.supersededAnswer)
    (hheeds : k.request.Heeds told (.ended answer)) : Errand n s (s.endTask id answer) := by
  have hcalled : InTurn n id k :=
    hturn.imp (fun ⟨hn, hq, _⟩ => ⟨hn, hq⟩) fun ⟨hn, ha⟩ => ⟨hn, told, ha⟩
  have hserver : told.OfServer ∨ k.standing = .startupCame told := by
    rcases hturn with ⟨-, -, ha⟩ | ⟨-, ha⟩
    · obtain ⟨address, -, rfl⟩ := Option.map_eq_some_iff.mp ha
      exact .inl trivial
    · exact .inr ha
  have hparts : Parts (fun _ => False) (fun _ => False) id (.ended answer) s
      (s.endTask id answer) := .endTask (.refl s) id answer
  refine .leaves hk hcalled.hasEnded (fun _ => hcalled)
    (fun m hm => hcalled.summoned (Standing.summons?_of_cue? hm)) (.ended answer)
    (Standing.ended_away answer)
    (hparts.mono (fun _ => False.elim) fun _ => False.elim) (.inl hparts.seen)
    ⟨fun hr hq => ?_, fun came hcame => ?_, fun _ _ => ?_, fun hr _ came hcame => ?_⟩
    (hparts.vain hk not_false hcalled.plain) fun _ => hcalled.summoned
  · rcases hturn with ⟨-, -, ha⟩ | ⟨-, ha⟩
    · obtain ⟨address, haddress, rfl⟩ := Option.map_eq_some_iff.mp ha
      rcases hsame with rfl | ⟨hne, -⟩
      · exact ⟨address, haddress, rfl⟩
      · exact absurd hr hne
    · cases hq.symm.trans ha
  · rcases hturn with ⟨-, hq, -⟩ | ⟨-, ha⟩
    · cases hq.symm.trans hcame
    · cases ha.symm.trans hcame
      exact hheeds
  · rcases hsame with rfl | ⟨-, -, hne⟩
    · by_cases ha : answer.OfServer
      · exact .inr (.inr fun he => ha.ne_superseded _ (Standing.ended.inj he))
      · exact .inr (.inl ⟨answer, hserver.resolve_left ha, ha⟩)
    · exact .inr (.inr fun he => hne (Standing.ended.inj he))
  · cases hcame
    rcases hsame with rfl | ⟨-, hne, -⟩
    · exact hserver
    · exact absurd hr hne

/-- A task goes on with what it has been told of the server. -/
theorem useServer (hk : s.task? id = some k) (answer : Answer)
    (hturn : n = .begin id ∧ k.standing = .queued ∧ s.server.address.map .address = some answer ∨
      n = .resume id ∧ k.standing = .startupCame answer) :
    Errand n s (s.useServer id answer) := by
  unfold Session.useServer
  split
  next path target given standing address hk' =>
    cases hk.symm.trans hk'
    refine launch hk trivial ?_ address
    rcases hturn with ⟨hn, hq, -⟩ | ⟨hn, ha⟩
    · exact .inl ⟨hn, hq⟩
    · exact .inr ⟨hn, ⟨given, rfl⟩, address, ha⟩
  next why hk' =>
    cases hk.symm.trans hk'
    have hreply : ∀ reply, why.reply = reply → Errand n s (s.endTask id reply) := by
      rintro reply rfl
      refine ends_told hk hturn (.inr ⟨nofun, nofun, ?_⟩) rfl
      unfold Failure.reply
      split <;> exact nofun
    split
    next hr => exact hreply _ (by rw [Failure.reply, hr])
    next hr => exact hreply _ (by rw [Failure.reply, hr])
  next answer _ _ hno hno' =>
    refine ends_told hk hturn (.inl rfl) ?_
    obtain ⟨request, standing⟩ := k
    cases request with
    | verify path target given =>
      cases answer with
      | address a => exact absurd rfl (hno path target given standing a hk)
      | failed why => exact absurd rfl (hno' path target given standing why hk)
      | _ => rfl
    | _ => rfl

theorem requireServer (hk : s.task? id = some k) (hq : k.standing = .queued)
    (hcalls : k.request.CallsServer) : Errand (.begin id) s (s.requireServer id) := by
  unfold Session.requireServer
  split
  next address ha => exact useServer hk _ (.inl ⟨rfl, hq, by rw [ha]; rfl⟩)
  next hnone =>
    cases hi : s.startup with
    | none =>
      simp only [Session.joinStartup, hi]
      exact .opens rfl hk hq hcalls hnone (fun j hj => nomatch hi.symm.trans hj) rfl
    | some i =>
      cases hended : (s.task? i).any Task.hasEnded with
      | true =>
        simp only [Session.joinStartup, hi, hended, if_true]
        refine .opens rfl hk hq hcalls hnone (fun j hj => ?_) rfl
        cases hi.symm.trans hj
        exact hended
      | false =>
        simp only [Session.joinStartup, hi, hended, Bool.false_eq_true, if_false]
        exact .joins rfl hk hq hcalls hnone hi hended rfl

/-- A task that begins to manage the server goes on or ends once the start is over. -/
theorem of_start (standing : Standing) (hk : s.task? id = some k) (hq : k.standing = .queued)
    (hmanages : k.request.Manages)
    (hwaits : TurnsTo s t id k standing)
    (haway : ¬ standing.OnTheWay)
    (htells : k.request = .startup → ∀ answer, standing = .ended answer → answer.OfServer)
    (hparts : Parts (s.server.supervisor.held = some ·) (fun _ => True) id standing s t) :
    Errand (.begin id) s t := by
  refine .leaves hk (Task.hasEnded_eq_false hq not_false) (fun _ => .inl ⟨rfl, hq⟩)
    (fun m hm => by rw [hq] at hm; cases hm) hwaits haway
    (hparts.mono (fun _ _ => trivial) fun _ h => h) (.inr (.inl ⟨hmanages, hparts.seen⟩))
    ⟨fun hr => ?_, fun answer ha => ?_, fun hver => ?_,
      fun hr _ answer ha => .inl (htells hr answer ha)⟩
    (hparts.vain hk haway (.inl rfl)) (fun m hm => by rw [hq] at hm; exact Option.some.inj hm)
  · rw [hr] at hmanages
    cases hmanages
  · cases hq.symm.trans ha
  · cases hr : k.request <;> rw [hr] at hver hmanages
    all_goals first | exact hver.elim | exact hmanages.elim

end Errand

theorem readyAddress_ofServer (s : Session) : s.readyAddress.OfServer := by
  rcases s.readyAddress_cases with ⟨address, -, he⟩ | ⟨-, he⟩ <;> rw [he] <;> trivial

/-- Who waits for a state of the server is told at once or goes on waiting. -/
theorem Parts.awaitPhase (hu : Idles kills calls s u) (id : TaskId) :
    ∃ standing, ¬ standing.OnTheWay ∧ ¬ standing.Elsewhere ∧
      (∀ answer, standing = .ended answer → answer.OfServer) ∧
      Parts kills calls id standing s (u.awaitPhase id) := by
  unfold Session.awaitPhase
  split
  next => exact ⟨_, Standing.ended_away _, not_false, by rintro _ ⟨⟩; trivial, .endTask hu id _⟩
  next =>
    refine ⟨_, Standing.ended_away _, not_false, ?_, .endTask hu id _⟩
    rintro _ ⟨⟩
    exact u.readyAddress_ofServer
  all_goals
    generalize u.server.supervisor.waitFor .ready = first
    obtain ⟨supervisor, ready, replaced⟩ := first
    dsimp only
    generalize supervisor.waitFor .crashed = second
    obtain ⟨supervisor', crashed, more⟩ := second
    exact ⟨.awaitingPhase ready crashed, not_false, not_false, nofun,
      .setStanding (hu.trans (.setSupervisor u _ _)) id _ not_false⟩

theorem awaitNews_errand {request : Request} (hk : s.task? id = some ⟨request, .queued⟩)
    (hasks : request.AsksNews) (file : Text) : Errand (.begin id) s (s.awaitNews id file) := by
  refine .of_begin (.awaitingNews (s.engine.updates.waitFor file).2) hk rfl hasks.not_server
    (.news (List.getElem?_eq_none (Nat.le_refl _))) not_false (fun _ => nofun) ?_
  exact .setStanding (s := s) (u := { s with
    engine := { s.engine with updates := (s.engine.updates.waitFor file).1 } })
    (.of_same rfl rfl rfl rfl) id (.awaitingNews (s.engine.updates.waitFor file).2) not_false

theorem answerNews_errand {request : Request} (hk : s.task? id = some ⟨request, .queued⟩)
    (hasks : request.AsksNews) : Errand (.begin id) s (s.answerNews id) := by
  obtain ⟨answer, hparts⟩ := Parts.answerNews s id
  exact .of_begin _ hk rfl hasks.not_server (.ended _) (Standing.ended_away answer)
    (fun hver => absurd hasks hver.not_asksNews) hparts

/-- Whoever starts the server and does not wait for it ends at once. -/
theorem endStart_errand {request : Request} (hk : s.task? id = some ⟨request, .queued⟩)
    (hmanages : request.Manages) (hne : request ≠ .startup)
    {result : Session × Except Failure Unit}
    (hu : Idles (s.server.supervisor.held = some ·) (fun _ => True) s result.1) :
    Errand (.begin id) s (endStart id result) := by
  obtain ⟨u, why | _⟩ := result
  all_goals
    exact .of_start _ hk rfl hmanages (.ended _) (Standing.ended_away _)
      (fun hr => absurd hr hne) (.endTask hu id _)

/-- A task begins. -/
theorem begin_errand (s : Session) (id : TaskId) : Errand (.begin id) s (s.begin id) := by
  unfold begin
  split
  next request hk =>
    have hserver : Idles (s.server.supervisor.held = some ·) (fun _ => True) s s.startServer.1 :=
      .startServer s (fun _ h => h) trivial
    split
    next answer =>
      exact .of_begin _ hk rfl ⟨nofun, nofun⟩ (.ended _) (Standing.ended_away answer)
        (fun hver => hver.elim) (.endTask (.refl s) id answer)
    next =>
      split
      next =>
        split
        next =>
          split
          · exact .requireServer hk rfl trivial
          · exact .launch hk trivial (.inl ⟨rfl, rfl⟩) _
        next => exact .requireServer hk rfl trivial
      next =>
        exact .of_begin _ hk rfl ⟨nofun, nofun⟩ (.ended _)
          (Standing.ended_away (.failed (.violation detachedViolation))) (fun _ => nofun)
          (.endTask (.refl s) id _)
    next => exact .launch hk trivial (.inl ⟨rfl, rfl⟩) _
    next =>
      split
      next => exact awaitNews_errand hk trivial _
      next => exact answerNews_errand hk trivial
    next =>
      split
      next => exact awaitNews_errand hk trivial _
      next => exact answerNews_errand hk trivial
    next => exact .requireServer hk rfl trivial
    next =>
      obtain ⟨standing, haway, hhere, -, hparts⟩ := Parts.awaitPhase (.refl s) id
      exact .of_begin _ hk rfl ⟨nofun, nofun⟩ (.begins trivial (.inl rfl) rfl hhere) haway
        (fun hver => hver.elim) hparts
    next => exact endStart_errand hk trivial nofun hserver
    next => exact endStart_errand hk trivial nofun (.superviseCall s _ _ (fun _ h => h) trivial)
    next =>
      split
      next u hu =>
        rw [hu] at hserver
        obtain ⟨standing, haway, hhere, htells, hparts⟩ := Parts.awaitPhase hserver id
        exact .of_start _ hk rfl trivial (.begins trivial (.inr hu) rfl hhere) haway
          (fun _ => htells) hparts
      next u why hu =>
        rw [hu] at hserver
        refine .of_start _ hk rfl trivial
          (.ended _) (Standing.ended_away _) ?_ (.endTask hserver id _)
        rintro - _ ⟨⟩
        trivial
    next => exact awaitNews_errand hk trivial _
  next hno =>
    refine .rests (.refl s) fun k hk hq => ?_
    obtain ⟨request, standing⟩ := k
    cases hq
    exact hno request hk

/-- A task that waited goes on. -/
theorem resume_errand (s : Session) (id : TaskId) : Errand (.resume id) s (s.resume id) := by
  unfold resume
  cases hk : s.task? id with
  | none => exact .rests (.refl s) fun k _ hk' => nomatch hk.symm.trans hk'
  | some k =>
    dsimp only [Option.map_some]
    cases hs : k.standing with
    | awaitingNews wait =>
      have hopen : k.hasEnded = false := Task.hasEnded_eq_false hs not_false
      have hsummoned : ∀ m, k.standing.summons? id = some m → .resume id = m := by
        rw [hs]
        exact fun m => Option.some.inj
      have hoff : ¬ k.standing.OnTheWay := by rw [hs]; exact not_false
      have helse : ∀ {standing : Standing} (answer : Answer), standing = .ended answer →
          answer.OfServer ∨ k.standing.Elsewhere := fun _ _ => .inr (by rw [hs]; trivial)
      dsimp only
      unfold concludeNews
      split
      next =>
        obtain ⟨answer, hparts⟩ := Parts.answerNews s id
        exact .of_bystander _ (.inl rfl) hk hopen hsummoned (.ended _) hoff
          (Standing.ended_away answer) helse hparts
      next =>
        exact .of_bystander _ (.inl rfl) hk hopen hsummoned (.ended _) hoff
          (Standing.ended_away _) helse (.endTask (.refl s) id _)
    | phaseCame ready crashed =>
      have hopen : k.hasEnded = false := Task.hasEnded_eq_false hs not_false
      have hsummoned : ∀ m, k.standing.summons? id = some m → .resume id = m := by
        rw [hs]
        exact fun m => Option.some.inj
      have hoff : ¬ k.standing.OnTheWay := by rw [hs]; exact not_false
      dsimp only
      unfold concludePhase
      dsimp only
      have hset : Idles (fun _ => False) (fun _ => False) s (s.setSupervisor
          ((s.server.supervisor.cancelWait ready).cancelWait crashed) []) := .setSupervisor s _ _
      split
      next =>
        refine .of_bystander _ (.inl rfl) hk hopen hsummoned (.ended _) hoff
          (Standing.ended_away _) ?_ (.endTask hset id _)
        rintro _ ⟨⟩
        exact .inl (readyAddress_ofServer _)
      all_goals
        refine .of_bystander _ (.inl rfl) hk hopen hsummoned (.ended _) hoff
          (Standing.ended_away _) ?_ (.endTask hset id _)
        rintro _ ⟨⟩
        exact .inl trivial
    | startupCame answer => exact .useServer hk answer (.inr ⟨rfl, hs⟩)
    | _ =>
      refine .rests (.refl s) fun k' answer hk' ha => ?_
      cases hk.symm.trans hk'
      cases hs.symm.trans ha

theorem phaseEnded_errand (s : Session) (id : TaskId) :
    Errand (.phaseEnded id) s (s.phaseEnded id) := by
  unfold phaseEnded
  cases hk : s.task? id with
  | none => exact .rests (.refl s) trivial
  | some k =>
    dsimp only [Option.map_some]
    cases hs : k.standing with
    | awaitingPhase ready crashed =>
      have hsummoned : ∀ m, k.standing.summons? id = some m → .phaseEnded id = m := by
        rw [hs]
        exact fun m => Option.some.inj
      have hoff : ¬ k.standing.OnTheWay := by rw [hs]; exact not_false
      refine .of_bystander (.phaseCame ready crashed) (.inr rfl) hk
        (Task.hasEnded_eq_false hs not_false) hsummoned (.looks hs) hoff not_false (fun _ => nofun)
        (.goesOn (.refl s) id (.phaseCame ready crashed) not_false _ fun n hn => ?_)
      rw [List.mem_singleton.mp hn]
      intro k' hk'
      cases hk.symm.trans hk'
      exact hoff
    | _ => exact .rests (.refl s) trivial

theorem startupEnded_errand (s : Session) (id : TaskId) :
    Errand (.startupEnded id) s (s.startupEnded id) := by
  unfold startupEnded
  cases hk : s.task? id with
  | none => exact .rests (.refl s) fun k _ hk' => nomatch hk.symm.trans hk'
  | some k =>
    dsimp only [Option.map_some]
    cases hs : k.standing with
    | awaitingStartup i =>
      dsimp only
      cases ha : (s.task? i).bind Task.answer? with
      | none =>
        refine .rests (.refl s) fun k' j hk' hj => ?_
        cases hk.symm.trans hk'
        cases hs.symm.trans hj
        exact ha
      | some answer => exact .hears rfl hk hs ha rfl
    | _ =>
      refine .rests (.refl s) fun k' j hk' hj => ?_
      cases hk.symm.trans hk'
      cases hs.symm.trans hj

/-- A task that runs a verifier goes on. -/
theorem Errand.of_running (standing : Standing) (hn : n.caller? = none) (hk : s.task? id = some k)
    (hrun : k.standing.runs? = some pid) (hwaits : TurnsTo s t id k standing)
    (haway : ¬ standing.OnTheWay)
    (hparts : Parts (fun _ => False) (fun _ => False) id standing s t) : Errand n s t := by
  refine .of_bystander standing (.inr hn) hk (runs?_open hrun) (fun m hm => ?_)
    hwaits (fun hway => ?_) haway
    (fun _ _ => .inr ?_) hparts
  · cases hs : k.standing <;> rw [hs] at hrun hm <;> first | cases hrun; done | cases hm
  rotate_left
  · cases hs : k.standing <;> rw [hs] at hrun <;> first | cases hrun; done | trivial
  cases hs : k.standing <;> rw [hs] at hrun hway <;> first | cases hrun; done | exact hway

theorem streamEnded_errand (s : Session) (pid : Pid) :
    Errand (.streamEnded pid) s (s.streamEnded pid) := by
  unfold streamEnded
  split
  next => exact .rests (.refl s) trivial
  next id ht =>
    obtain ⟨k, hk, hrun⟩ := taskOfRun?_some ht
    split
    next =>
      exact .of_running (.awaitingOutput pid 1) rfl hk hrun (.idles rfl fun _ hw => by cases hw)
        not_false (.setStanding (.refl s) id _ not_false)
    next m _ _ =>
      refine .of_running (.awaitingOutput pid (m + 1)) rfl hk hrun
        (.idles rfl fun _ hw => by cases hw) not_false
        (.goesOn (.refl s) id (.awaitingOutput pid (m + 1)) not_false _ fun n hn => ?_)
      rw [List.mem_singleton.mp hn]
      trivial
    next => exact .rests (.refl s) trivial

theorem awaitExit_errand (s : Session) (pid : Pid) (hn : n.caller? = none) :
    Errand n s (s.awaitExit pid) := by
  unfold awaitExit
  split
  next code r id hw hr ht =>
    obtain ⟨k, hk, hrun⟩ := taskOfRun?_some ht
    obtain ⟨answer, hparts⟩ := Parts.finishRun s id r code
    exact .of_running _ hn hk hrun (.ended _) (Standing.ended_away answer) hparts
  next w r id hw hr ht =>
    obtain ⟨k, hk, hrun⟩ := taskOfRun?_some ht
    exact .of_running (.awaitingExit pid) hn hk hrun (.idles rfl fun _ hw => by cases hw) not_false
      (.setStanding (s := s) (u := { s with world := w }) (.of_same rfl rfl rfl rfl) id
        (.awaitingExit pid) not_false)
  next =>
    split
    next supervisor ended _ => exact .rests (.setSupervisor s supervisor ended) (.of_caller? hn)
    next => exact .rests (.refl s) (.of_caller? hn)
  next w _ _ => exact .rests (.of_same rfl rfl rfl rfl) (.of_caller? hn)

theorem read_errand (s : Session) (pid : Pid) (stream : Stream) (hn : n.caller? = none) :
    Errand n s (s.read pid stream) := by
  unfold read
  split
  next r _ => exact .rests (.readVerifier s r stream) (.of_caller? hn)
  next r _ _ => exact .rests (.readServer s r) (.of_caller? hn)
  next => exact .rests (.refl s) (.of_caller? hn)

/-- **What a notice leads to** on the way to the shared server. -/
theorem react_errand (s : Session) (n : Notice) : Errand n s (s.react n) := by
  cases n with
  | begin id => exact begin_errand s id
  | wake wake =>
    cases wake with
    | output pid stream => exact read_errand s pid stream rfl
    | exit pid => exact awaitExit_errand s pid rfl
  | streamEnded pid => exact streamEnded_errand s pid
  | outputEnded pid => exact awaitExit_errand s pid rfl
  | phaseEnded id => exact phaseEnded_errand s id
  | startupEnded id => exact startupEnded_errand s id
  | resume id => exact resume_errand s id

end Session

end VerifierHost
