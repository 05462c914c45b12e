import VerifierHost.Proofs.Process.Waking
import VerifierHost.Proofs.Session.History

/-! # What goes on beside the runs

The shared server is started, read and stopped while runs go on. None of this touches the engine,
the processes of runs, or the tasks that run a verifier or wait for news; `Session.Aside` says so
for a whole sequence of such steps. -/

namespace VerifierHost

/-- A task that has to do with the server. -/
def Standing.OnServer : Standing → Prop
  | .awaitingPhase .. | .phaseCame .. | .awaitingStartup _ | .startupCame _ => True
  | _ => False

def Standing.IsEnded : Standing → Prop
  | .ended _ => True
  | _ => False

/-- The process of the verifier that a task runs. -/
def Standing.runs? : Standing → Option Pid
  | .awaitingOutput pid _ | .awaitingExit pid => some pid
  | _ => none

theorem Standing.OnServer.runs?_eq_none {standing : Standing} (h : standing.OnServer) :
    standing.runs? = none := by
  cases standing <;> first | rfl | cases h

/-- A request that may have to wait for news. -/
def Request.AsksNews : Request → Prop
  | .hover .. | .hints _ | .news _ => True
  | _ => False

instance : DecidablePred Request.AsksNews
  | .hover .. | .hints _ | .news _ => .isTrue trivial
  | .answered _ | .verify .. | .run .. | .ensureReady | .waitUntilReady | .startServer
  | .supervise .. | .startup => .isFalse not_false

instance : DecidablePred Standing.IsEnded
  | .ended _ => .isTrue trivial
  | .queued | .awaitingNews _ | .awaitingPhase .. | .phaseCame .. | .awaitingStartup _
  | .startupCame _ | .awaitingOutput .. | .awaitingExit _ => .isFalse not_false

/-- A task that has nothing to do with runs or news any more. -/
def Task.Aloof (k : Task) : Prop :=
  k.standing.IsEnded ∨ k.standing.OnServer ∧ ¬ k.request.AsksNews

/-- A task stays as it is, or goes on with the server or ends before it comes to a run or news. -/
def Task.Passes (k k' : Task) : Prop :=
  k' = k ∨ k'.request = k.request ∧ (k.standing = .queued ∨ k.standing.OnServer) ∧ k'.Aloof

theorem Task.Passes.trans {k k' k'' : Task} (h : k.Passes k') (h' : k'.Passes k'') :
    k.Passes k'' := by
  rcases h' with rfl | ⟨hr', hf', ha'⟩
  · exact h
  · rcases h with rfl | ⟨hr, hf, -⟩
    · exact .inr ⟨hr', hf', ha'⟩
    · exact .inr ⟨hr'.trans hr, hf, ha'⟩

namespace Task.Aloof

variable {k k' : Task}

theorem ne_queued (h : k.Aloof) : k.standing ≠ .queued := by
  intro hq
  rcases h with he | ⟨ho, -⟩
  · rw [hq] at he; exact he
  · rw [hq] at ho; exact ho

theorem ne_awaitingNews (h : k.Aloof) (w : WaitId) : k.standing ≠ .awaitingNews w := by
  intro hw
  rcases h with he | ⟨ho, -⟩
  · rw [hw] at he; exact he
  · rw [hw] at ho; exact ho

theorem runs?_eq_none (h : k.Aloof) : k.standing.runs? = none := by
  rcases h with he | ⟨ho, -⟩
  · cases hs : k.standing <;> simp_all [Standing.IsEnded, Standing.runs?]
  · exact ho.runs?_eq_none

theorem not_asksNews (h : k.Aloof) (ho : k.standing.OnServer) : ¬ k.request.AsksNews := by
  rcases h with he | ⟨-, ha⟩
  · cases hs : k.standing <;> simp_all [Standing.IsEnded, Standing.OnServer]
  · exact ha

theorem passes (ha : k.Aloof) (h : k.Passes k') : k'.Aloof := by
  rcases h with rfl | ⟨-, -, ha'⟩
  · exact ha
  · exact ha'

end Task.Aloof

namespace Session

/-- A process that the supervisor holds or still reads. -/
def Serves (s : Session) (pid : Pid) : Prop :=
  s.server.supervisor.held = some pid ∨ ∃ q ∈ s.server.supervisor.readers, q.pid = pid

end Session

/-- A notice that concerns neither a run nor a task that waits for news. -/
def Notice.Harmless (s : Session) : Notice → Prop
  | .streamEnded _ | .outputEnded _ => False
  | .resume id => ∃ k, s.task? id = some k ∧ k.Aloof
  | _ => True

namespace Session

/-- From one session to another nothing has happened to runs and to what waits for them. -/
structure Aside (s t : Session) : Prop where
  engine : t.engine = s.engine
  attached : t.attached = s.attached
  shown : t.shown = s.shown
  queue : ∃ more, t.queue = s.queue ++ more ∧ ∀ n ∈ more, n.Harmless t
  old : ∀ i k, s.task? i = some k → ∃ k', t.task? i = some k' ∧ k.Passes k'
  new : ∀ i k, s.task? i = none → t.task? i = some k →
    k.standing = .queued ∧ .begin i ∈ t.queue ∨ k.Aloof
  sane : s.world.Sane → t.world.Sane
  length : s.world.processes.length ≤ t.world.processes.length
  serves : ∀ pid, t.Serves pid → s.Serves pid ∨
    s.world.processes.length < pid ∧ pid ≤ t.world.processes.length
  others : ∀ r ∈ s.engine.runs, r.pid ≤ s.world.processes.length → ¬ s.Serves r.pid →
    t.world.process? r.pid = s.world.process? r.pid

variable {s t u : Session}

namespace Aside

theorem harmless (h : Aside s t) {n : Notice} (hn : n.Harmless s) : n.Harmless t := by
  cases n with
  | resume id =>
    obtain ⟨k, hk, hp⟩ := hn
    obtain ⟨k', hk', hpass⟩ := h.old id k hk
    exact ⟨k', hk', hp.passes hpass⟩
  | streamEnded | outputEnded => exact hn
  | _ => trivial

theorem mem_queue (h : Aside s t) {n : Notice} (hn : n ∈ s.queue) : n ∈ t.queue := by
  obtain ⟨more, hq, -⟩ := h.queue
  rw [hq]
  exact List.mem_append_left _ hn

theorem refl (s : Session) : Aside s s where
  engine := rfl
  attached := rfl
  shown := rfl
  queue := ⟨[], (List.append_nil _).symm, fun _ hn => absurd hn List.not_mem_nil⟩
  old _ k hk := ⟨k, hk, .inl rfl⟩
  new _ _ hn hk := by cases hn.symm.trans hk
  sane := id
  length := Nat.le_refl _
  serves _ h := .inl h
  others _ _ _ _ := rfl

theorem trans (h : Aside s t) (h' : Aside t u) : Aside s u where
  engine := h'.engine.trans h.engine
  attached := h'.attached.trans h.attached
  shown := h'.shown.trans h.shown
  queue := by
    obtain ⟨more, hq, hm⟩ := h.queue
    obtain ⟨more', hq', hm'⟩ := h'.queue
    refine ⟨more ++ more', by rw [hq', hq, List.append_assoc], ?_⟩
    intro n hn
    rcases List.mem_append.mp hn with hn | hn
    · exact h'.harmless (hm n hn)
    · exact hm' n hn
  old i k hk := by
    obtain ⟨k', hk', hp⟩ := h.old i k hk
    obtain ⟨k'', hk'', hp'⟩ := h'.old i k' hk'
    exact ⟨k'', hk'', hp.trans hp'⟩
  new i k hn hk := by
    cases ht : t.task? i with
    | none => exact h'.new i k ht hk
    | some k' =>
      obtain ⟨k'', hk'', hp⟩ := h'.old i k' ht
      cases hk.symm.trans hk''
      rcases h.new i k' hn ht with ⟨hqueued, hb⟩ | ha
      · rcases hp with rfl | ⟨-, -, ha⟩
        · exact .inl ⟨hqueued, h'.mem_queue hb⟩
        · exact .inr ha
      · exact .inr (ha.passes hp)
  sane hs := h'.sane (h.sane hs)
  length := Nat.le_trans h.length h'.length
  serves pid hp := by
    rcases h'.serves pid hp with hp | ⟨hl, hu⟩
    · exact (h.serves pid hp).imp_right fun hb => ⟨hb.1, Nat.le_trans hb.2 h'.length⟩
    · exact .inr ⟨Nat.lt_of_le_of_lt h.length hl, hu⟩
  others r hr hl hs := by
    have hs' : ¬ t.Serves r.pid := fun ht => (h.serves r.pid ht).elim hs
      fun hb => absurd hl (Nat.not_le_of_lt hb.1)
    rw [h'.others r (h.engine ▸ hr) (Nat.le_trans hl h.length) hs', h.others r hr hl hs]

/-! ## One step -/

/-- The server and the files are another matter, and so is what is seen apart from effects. -/
theorem of_server (htasks : t.tasks = s.tasks) (hworld : t.world = s.world)
    (hengine : t.engine = s.engine) (hattached : t.attached = s.attached)
    (hshown : t.shown = s.shown) (hqueue : t.queue = s.queue)
    (hserves : ∀ pid, t.Serves pid → s.Serves pid) : Aside s t where
  engine := hengine
  attached := hattached
  shown := hshown
  queue := ⟨[], by rw [hqueue, List.append_nil], fun _ hn => absurd hn List.not_mem_nil⟩
  old i k hk := ⟨k, by rwa [task?, htasks], .inl rfl⟩
  new i k hn hk := by
    rw [task?, htasks] at hk
    cases hn.symm.trans hk
  sane h := hworld ▸ h
  length := Nat.le_of_eq (by rw [hworld])
  serves pid h := .inl (hserves pid h)
  others r _ _ _ := by rw [hworld]

theorem enqueue (s : Session) {notices : List Notice} (h : ∀ n ∈ notices, n.Harmless s) :
    Aside s (s.enqueue notices) :=
  { refl s with
    queue := ⟨notices, rfl, h⟩
    new := fun i k hn hk => by cases hn.symm.trans hk }

theorem record (s : Session) {events : List Event} (h : events.filterMap Event.effect? = []) :
    Aside s (s.record events) :=
  { refl s with shown := by rw [record_shown, h, List.append_nil] }

theorem setStanding {id : TaskId} {standing : Standing}
    (h : ∀ k, s.task? id = some k → (k.standing = .queued ∨ k.standing.OnServer) ∧
      (standing.IsEnded ∨ standing.OnServer ∧ ¬ k.request.AsksNews)) :
    Aside s (s.setStanding id standing) :=
  { refl s with
    queue := ⟨[], (List.append_nil _).symm, fun _ hn => absurd hn List.not_mem_nil⟩
    old := by
      intro i k hk
      by_cases hi : i = id
      · subst hi
        exact ⟨_, task?_setStanding_self hk rfl, .inr ⟨rfl, h k hk⟩⟩
      · exact ⟨k, (task?_setStanding_of_ne rfl i hi).trans hk, .inl rfl⟩
    new := by
      intro i k hn hk
      rcases task?_setStanding_cases rfl hk with ⟨_, hk₀, rfl, -⟩ | ⟨-, hk⟩
      · cases hn.symm.trans hk₀
      · cases hn.symm.trans hk }

theorem endTask {id : TaskId} {answer : Answer}
    (h : ∀ k, s.task? id = some k → k.standing = .queued ∨ k.standing.OnServer) :
    Aside s (s.endTask id answer) := by
  have hset : Aside s (s.setStanding id (.ended answer)) :=
    setStanding fun k hk => ⟨h k hk, .inl trivial⟩
  refine hset.trans (enqueue _ ?_)
  intro n hn
  obtain ⟨i, -, rfl⟩ := List.mem_map.mp hn
  trivial

theorem addTask (s : Session) (request : Request) : Aside s (s.addTask request).1 :=
  { refl s with
    queue := ⟨[.begin s.tasks.length], rfl, fun n hn => by
      rw [List.mem_singleton.mp hn]; trivial⟩
    old := by
      intro i k hk
      exact ⟨k, task?_addTask hk request, .inl rfl⟩
    new := by
      intro i k hn hk
      rcases task?_added_cases rfl hk with hk | ⟨rfl, rfl⟩
      · cases hn.symm.trans hk
      · exact .inl ⟨rfl, List.mem_append_right _ (List.mem_singleton.mpr rfl)⟩ }

/-- Something is done about a process that is no run's. -/
theorem touch {w : World} {pid : Pid} (h : World.Touches pid s.world w)
    (hpid : s.Serves pid ∨ pid ∉ s.engine.pids) : Aside s { s with world := w } :=
  { refl s with
    sane := h.sane
    length := Nat.le_of_eq h.length.symm
    serves := fun _ hs => .inl hs
    others := by
      intro r hr _ hs
      refine h.others r.pid fun he => ?_
      rcases hpid with hp | hp
      · exact hs (he ▸ hp)
      · exact hp (he ▸ List.mem_map_of_mem hr) }

theorem kill {pid : Pid} (hpid : s.Serves pid) : Aside s (s.kill pid) := by
  have hkilled : Aside s ({ s with world := (s.world.kill pid).1 }.record [.killed pid]) :=
    (touch (World.touches_kill s.world pid) (.inl hpid)).trans (record _ rfl)
  refine hkilled.trans (enqueue _ ?_)
  intro n hn
  obtain ⟨wake, -, rfl⟩ := List.mem_map.mp hn
  trivial

theorem spawn_server (s : Session) (call : Call) : (s.spawn call).1.server = s.server := by
  unfold Session.spawn
  split <;> rfl

/-- A process that was started has the next number. -/
theorem spawn_pid {call : Call} {pid : Pid} (h : s.spawn call = (t, .ok pid)) :
    s.world.processes.length < pid ∧ pid ≤ t.world.processes.length := by
  unfold Session.spawn at h
  split at h
  next w p hw =>
    cases h
    obtain ⟨hp, hle, -⟩ := World.spawn_ok hw
    exact ⟨hp ▸ Nat.lt_succ_self _, hle⟩
  next => cases h

theorem spawn (s : Session) (call : Call) : Aside s (s.spawn call).1 := by
  have hgrow := World.grows_spawn s.world
  have hworld : Aside s { s with world := s.world.spawn.1 } :=
    { refl s with
      sane := hgrow.sane
      length := hgrow.length
      serves := fun _ hs => .inl hs
      others := fun r _ hl _ => hgrow.others r.pid hl }
  unfold Session.spawn
  split
  next w pid h =>
    rw [h] at hworld
    exact hworld.trans (record _ rfl)
  next w fault h =>
    rw [h] at hworld
    exact hworld.trans (record _ rfl)

end Aside

/-! ## What the supervisor may come to hold and read -/

end Session

namespace Supervisor

variable {s s' : Supervisor} {state : ServerState} {pid : Pid} {ended : List WaitId}

theorem mark_ok (h : s.mark state = .ok (s', ended)) :
    s'.held = s.held ∧ s'.readers = s.readers := by
  unfold mark at h
  split at h
  next => cases h
  next =>
    split at h
    next => cases h
    next =>
      split at h
      · cases h; exact ⟨rfl, rfl⟩
      · cases h; exact ⟨rfl, rfl⟩

theorem setReady_ok (h : s.setReady = .ok (s', ended)) :
    s'.held = s.held ∧ s'.readers = s.readers := by
  unfold setReady at h
  split at h
  next => exact mark_ok h
  next => cases h; exact ⟨rfl, rfl⟩

theorem processEnded_ok (h : s.processEnded pid = .ok (s', ended)) :
    (s'.held = s.held ∨ s'.held = none) ∧ s'.readers = s.readers := by
  unfold processEnded at h
  split at h
  next => exact (mark_ok h).imp_left .inr
  next => cases h; exact ⟨.inl rfl, rfl⟩

theorem stop_ok (h : s.stop = .ok (s', ended)) :
    s'.held = none ∧ ∀ r ∈ s'.readers, r ∈ s.readers := by
  obtain ⟨hh, hr⟩ := mark_ok h
  refine ⟨hh, fun r hm => ?_⟩
  rw [hr] at hm
  exact (List.mem_filter.mp hm).1

theorem adopt_ok {stdout stderr : LineUse} (h : s.adopt pid stdout stderr = .ok (s', ended)) :
    s'.held = some pid ∧ ∀ r ∈ s'.readers, r ∈ s.readers ∨ r.pid = pid := by
  obtain ⟨hh, hr⟩ := mark_ok h
  refine ⟨hh, fun r hm => ?_⟩
  rw [hr] at hm
  refine (List.mem_append.mp hm).imp_right fun hm => ?_
  rcases List.mem_cons.mp hm with rfl | hm
  · rfl
  · rw [List.mem_singleton.mp hm]
    rfl

theorem waitFor_fst (s : Supervisor) (state : ServerState) :
    (s.waitFor state).1.held = s.held ∧ (s.waitFor state).1.readers = s.readers := by
  unfold waitFor
  split
  next => exact ⟨rfl, rfl⟩
  next => exact ⟨rfl, rfl⟩

theorem mem_putReader {r q : StreamReader} {ended : Bool}
    (h : q ∈ (s.putReader r ended).readers) : q ∈ s.readers ∨ q = r := by
  unfold putReader at h
  cases ended with
  | true => exact .inl (List.mem_filter.mp h).1
  | false =>
    obtain ⟨x, hx, rfl⟩ := List.mem_map.mp h
    dsimp only
    split
    · exact .inl hx
    · exact .inr rfl

end Supervisor

theorem SharedServer.takeLines_supervisor (s : SharedServer) (lineUse : LineUse)
    (lines : List Text) :
    (s.takeLines lineUse lines).1.supervisor.held = s.supervisor.held ∧
      (s.takeLines lineUse lines).1.supervisor.readers = s.supervisor.readers := by
  induction lines generalizing s with
  | nil => exact ⟨rfl, rfl⟩
  | cons line rest ih =>
    unfold takeLines
    split
    next => exact ⟨rfl, rfl⟩
    next s' ended h =>
      have hline : s'.supervisor.held = s.supervisor.held ∧
          s'.supervisor.readers = s.supervisor.readers := by
        unfold takeLine at h
        split at h
        · split at h
          · cases h
          · cases h
            exact Supervisor.setReady_ok (by assumption)
        · cases h
          exact ⟨rfl, rfl⟩
      exact ⟨(ih s').1.trans hline.1, (ih s').2.trans hline.2⟩

namespace Session

variable {s t : Session}

namespace Aside

/-! ## What is done about the server -/

theorem withServer (h : Aside s t) {server : SharedServer}
    (hserves : ∀ pid, { t with server }.Serves pid → t.Serves pid ∨
      s.world.processes.length < pid ∧ pid ≤ t.world.processes.length) :
    Aside s { t with server } :=
  { h with
    serves := fun pid hp => (hserves pid hp).elim (h.serves pid) .inr }

theorem noticePhases (s : Session) (waits : List WaitId) : Aside s (s.noticePhases waits) := by
  refine enqueue s fun n hn => ?_
  obtain ⟨wait, -, hn⟩ := List.mem_flatMap.mp hn
  obtain ⟨i, -, rfl⟩ := List.mem_map.mp hn
  trivial

theorem setSupervisor {supervisor : Supervisor} {ended : List WaitId}
    (hheld : supervisor.held = s.server.supervisor.held ∨ supervisor.held = none)
    (hreaders : ∀ r ∈ supervisor.readers, r ∈ s.server.supervisor.readers) :
    Aside s (s.setSupervisor supervisor ended) := by
  have hserver : Aside s { s with server := { s.server with supervisor } } := by
    refine of_server rfl rfl rfl rfl rfl rfl ?_
    rintro pid (hp | ⟨q, hq, rfl⟩)
    · rcases hheld with hh | hh
      · exact .inl (hh ▸ hp)
      · cases hh.symm.trans hp
    · exact .inr ⟨q, hreaders q hq, rfl⟩
  exact hserver.trans (noticePhases _ ended)

theorem stopSupervised (s : Session) : Aside s s.stopSupervised.1 := by
  have hstop : ∀ {u supervisor ended}, Aside s u →
      u.server.supervisor.stop = .ok (supervisor, ended) →
      Aside s (u.setSupervisor supervisor ended) := by
    intro u supervisor ended hu h
    refine hu.trans (setSupervisor (.inr (Supervisor.stop_ok h).1) ?_)
    exact (Supervisor.stop_ok h).2
  unfold Session.stopSupervised
  cases hd : s.server.supervisor.doomed with
  | none =>
    dsimp only
    split
    next h => exact hstop (refl s) h
    next => exact refl s
  | some pid =>
    have hserves : s.Serves pid := by
      unfold Supervisor.doomed at hd
      split at hd
      next => exact .inl hd
      next => cases hd
    have hkill : Aside s ({ s with world := s.world.abandon pid }.kill pid) :=
      (touch (World.touches_abandon s.world pid) (.inl hserves)).trans (kill hserves)
    dsimp only
    split
    next h => exact hstop hkill h
    next => exact hkill

theorem superviseCall (s : Session) (call : Call) (stdout stderr : LineUse) :
    Aside s (s.superviseCall call stdout stderr).1 := by
  unfold Session.superviseCall
  have hstop : Aside s (if s.server.supervisor.state.isLive then s.stopSupervised
      else (s, .ok ())).1 := by
    split
    next => exact stopSupervised s
    next => exact refl s
  generalize (if s.server.supervisor.state.isLive then s.stopSupervised else (s, .ok ())) = stopped
    at hstop ⊢
  obtain ⟨u, outcome⟩ := stopped
  dsimp only at hstop ⊢
  cases outcome with
  | error e => exact hstop
  | ok =>
    dsimp only
    have hspawn := spawn u call
    have hserver := spawn_server u call
    cases hs : u.spawn call with
    | mk v result =>
      rw [hs] at hspawn hserver
      cases result with
      | error fault => exact hstop.trans hspawn
      | ok pid =>
        dsimp only
        obtain ⟨hlow, hhigh⟩ := spawn_pid hs
        split
        next => exact hstop.trans hspawn
        next supervisor ended hadopt =>
          obtain ⟨hheld, hreaders⟩ := Supervisor.adopt_ok hadopt
          refine hstop.trans (((hspawn.withServer ?_).trans (noticePhases _ ended)).trans
            (enqueue _ ?_))
          · rintro q (hq | ⟨r, hr, rfl⟩)
            · cases hheld.symm.trans hq
              exact .inr ⟨hlow, hhigh⟩
            · rcases hreaders r hr with hr | rfl
              · exact .inl (.inr ⟨r, hr, rfl⟩)
              · exact .inr ⟨hlow, hhigh⟩
          · intro n hn
            rcases List.mem_cons.mp hn with rfl | hn
            · trivial
            · rcases List.mem_cons.mp hn with rfl | hn
              · trivial
              · rw [List.mem_singleton.mp hn]
                trivial

theorem startServer (s : Session) : Aside s s.startServer.1 := by
  have hserver : Aside s { s with server := { s.server with announced := none } } :=
    of_server rfl rfl rfl rfl rfl rfl fun _ h => h
  exact hserver.trans (superviseCall _ _ _ _)

end Aside

/-! ## What tasks do about the server -/

theorem spawn_tasks (s : Session) (call : Call) : (s.spawn call).1.tasks = s.tasks := by
  unfold spawn
  split <;> rfl

theorem stopSupervised_tasks (s : Session) : s.stopSupervised.1.tasks = s.tasks := by
  unfold stopSupervised
  cases s.server.supervisor.doomed with
  | none => dsimp only; split <;> rfl
  | some pid => dsimp only; split <;> rfl

theorem superviseCall_tasks (s : Session) (call : Call) (stdout stderr : LineUse) :
    (s.superviseCall call stdout stderr).1.tasks = s.tasks := by
  have hstop : (if s.server.supervisor.state.isLive then s.stopSupervised
      else (s, .ok ())).1.tasks = s.tasks := by
    split
    next => exact stopSupervised_tasks s
    next => rfl
  unfold superviseCall
  generalize (if s.server.supervisor.state.isLive then s.stopSupervised else (s, .ok ())) = stopped
    at hstop ⊢
  obtain ⟨u, outcome⟩ := stopped
  cases outcome with
  | error e => exact hstop
  | ok =>
    have hspawn := spawn_tasks u call
    dsimp only at hstop ⊢
    cases hs : u.spawn call with
    | mk v result =>
      rw [hs] at hspawn
      cases result with
      | error fault => exact hspawn.trans hstop
      | ok pid =>
        dsimp only
        split
        next => exact hspawn.trans hstop
        next => exact hspawn.trans hstop

theorem superviseCall_task? (s : Session) (call : Call) (stdout stderr : LineUse) (id : TaskId) :
    (s.superviseCall call stdout stderr).1.task? id = s.task? id :=
  congrArg (·[id]?) (superviseCall_tasks s call stdout stderr)

theorem startServer_task? (s : Session) (id : TaskId) :
    s.startServer.1.task? id = s.task? id :=
  superviseCall_task? { s with server := { s.server with announced := none } } ..

/-- A task was dealt with: it has ended or waits for the server. -/
structure Deals (id : TaskId) (s t : Session) : Prop extends Aside s t where
  aloof : ∀ k, t.task? id = some k → k.Aloof

namespace Deals

variable {id : TaskId} {k : Task}

theorem after (h : Aside s t) {u : Session} (h' : Deals id t u) : Deals id s u :=
  ⟨h.trans h'.toAside, h'.aloof⟩

theorem setStanding {standing : Standing} (hk : s.task? id = some k)
    (hf : k.standing = .queued ∨ k.standing.OnServer)
    (ho : standing.IsEnded ∨ standing.OnServer ∧ ¬ k.request.AsksNews) :
    Deals id s (s.setStanding id standing) where
  toAside := Aside.setStanding fun k' hk' => by
    cases hk.symm.trans hk'
    exact ⟨hf, ho⟩
  aloof k' hk' := by
    cases (task?_setStanding_self hk rfl).symm.trans hk'
    exact ho

theorem endTask {answer : Answer} (hk : s.task? id = some k)
    (hf : k.standing = .queued ∨ k.standing.OnServer) : Deals id s (s.endTask id answer) := by
  refine ⟨Aside.endTask fun k' hk' => by cases hk.symm.trans hk'; exact hf, ?_⟩
  have hset : Deals id s (s.setStanding id (.ended answer)) := setStanding hk hf (.inl trivial)
  exact hset.aloof

theorem endStart {result : Session × Except Failure Unit} (h : Aside s result.1)
    (hk : result.1.task? id = some k) (hf : k.standing = .queued ∨ k.standing.OnServer) :
    Deals id s (Session.endStart id result) := by
  obtain ⟨t, outcome⟩ := result
  cases outcome with
  | ok => exact after h (endTask hk hf)
  | error why => exact after h (endTask hk hf)

theorem awaitPhase (hk : s.task? id = some k) (hf : k.standing = .queued ∨ k.standing.OnServer)
    (ha : ¬ k.request.AsksNews) : Deals id s (s.awaitPhase id) := by
  have hwait : ∀ ended ready crashed, Deals id s
      ((s.setSupervisor ((s.server.supervisor.waitFor .ready).1.waitFor .crashed).1
        ended).setStanding id (.awaitingPhase ready crashed)) := by
    intro ended ready crashed
    have hready := Supervisor.waitFor_fst s.server.supervisor .ready
    have hcrashed := Supervisor.waitFor_fst (s.server.supervisor.waitFor .ready).1 .crashed
    refine after (Aside.setSupervisor (.inl ?_) fun r hr => ?_)
      (setStanding (k := k) hk hf (.inr ⟨trivial, ha⟩))
    · exact hcrashed.1.trans hready.1
    · rw [← hready.2, ← hcrashed.2]
      exact hr
  unfold Session.awaitPhase
  split
  next => exact endTask hk hf
  next => exact endTask hk hf
  next => exact hwait ..
  next => exact hwait ..

theorem concludePhase {ready crashed : WaitId} (hk : s.task? id = some k)
    (hf : k.standing = .queued ∨ k.standing.OnServer) :
    Deals id s (s.concludePhase id ready crashed) := by
  have hgive : Aside s (s.setSupervisor
      ((s.server.supervisor.cancelWait ready).cancelWait crashed) []) :=
    Aside.setSupervisor (.inl rfl) fun _ hr => hr
  unfold Session.concludePhase
  dsimp only
  split
  next => exact after hgive (endTask (k := k) hk hf)
  next => exact after hgive (endTask (k := k) hk hf)
  next => exact after hgive (endTask (k := k) hk hf)

theorem joinStartup (s : Session) : Aside s s.joinStartup.1 := by
  have hadd : Aside s { (s.addTask .startup).1 with startup := some (s.addTask .startup).2 } :=
    (Aside.addTask s .startup).trans (Aside.of_server rfl rfl rfl rfl rfl rfl fun _ h => h)
  unfold Session.joinStartup
  split
  next =>
    split
    next => exact hadd
    next => exact Aside.refl s
  next => exact hadd

theorem joinStartup_task? (hk : s.task? id = some k) : s.joinStartup.1.task? id = some k := by
  have hadd := task?_addTask hk .startup
  unfold Session.joinStartup
  split
  next =>
    split
    next => exact hadd
    next => exact hk
  next => exact hadd

end Deals

end Session

end VerifierHost
