import VerifierHost.Proofs.Session.Steps

/-! # Superseded runs are inert

A run is outdated once a later one has begun. From then on nothing that its process does changes
what the engine knows, what was shown or who waits for news; the request for it learns that the run
was superseded, and nothing else. -/

namespace VerifierHost

/-- A notice about a process. -/
def Notice.About (pid : Pid) : Notice → Prop
  | .wake (.output p _) | .wake (.exit p) | .streamEnded p | .outputEnded p => p = pid
  | _ => False

/-- What is said to a request whose run was superseded. -/
def Request.supersededAnswer : Request → Answer
  | .verify .. => .verified .superseded
  | _ => .outcome none

namespace Session

variable {s t : Session} {n : Notice} {ns : List Notice} {pid : Pid} {id : TaskId} {k : Task}

/-- Something happens that has to do with a process. -/
def Concerns (s : Session) (pid : Pid) : Action → Prop
  | .ask _ => False
  | .feed p _ _ | .exit p _ _ => p = pid
  | .step => ∃ n rest, s.queue = n :: rest ∧ n.About pid

/-- A process was started, and no run that it may still belong to is the latest. -/
structure Outdated (s : Session) (pid : Pid) : Prop where
  started : pid ≤ s.world.processes.length
  older : ∀ r ∈ s.engine.runs, r.pid = pid → r.number < s.engine.runCount

/-- Processes and runs are only added: each run was there before or has a process of its own. -/
structure Later (s t : Session) : Prop where
  length : s.world.processes.length ≤ t.world.processes.length
  count : s.engine.runCount ≤ t.engine.runCount
  runs : ∀ r ∈ t.engine.runs, s.world.processes.length < r.pid ∨
    ∃ q ∈ s.engine.runs, q.pid = r.pid ∧ q.number = r.number

theorem Later.of_same (hlength : s.world.processes.length ≤ t.world.processes.length)
    (hcount : s.engine.runCount ≤ t.engine.runCount) (hruns : t.engine.runs = s.engine.runs) :
    Later s t :=
  ⟨hlength, hcount, fun r hr => .inr ⟨r, hruns ▸ hr, rfl, rfl⟩⟩

theorem Outdated.later (h : s.Outdated pid) (hl : Later s t) : t.Outdated pid := by
  refine ⟨Nat.le_trans h.started hl.length, fun r hr hp => ?_⟩
  rcases hl.runs r hr with hnew | ⟨q, hq, hpid, hnumber⟩
  · rw [hp] at hnew
    exact absurd h.started (Nat.not_le_of_lt hnew)
  · rw [← hnumber]
    exact Nat.lt_of_lt_of_le (h.older q hq (hpid.trans hp)) hl.count

theorem Launch.later {target : VerificationTarget} {name : Text} (h : Launch id target name s t) :
    Later s t := by
  cases h with
  | @spawned _ invocation pid start engine tasks fresh length shown =>
    obtain ⟨r, hruns, -, hpid, -⟩ :=
      (s.engine.startRun target name).1.launched_runs invocation target name pid start
    refine ⟨length, ?_, fun q hq => ?_⟩
    · rw [engine]
      exact Nat.le_succ _
    · rw [engine, hruns] at hq
      rcases List.mem_append.mp hq with hq | hq
      · exact .inr ⟨q, hq, rfl, rfl⟩
      · rw [List.mem_singleton.mp hq, hpid]
        exact .inl fresh
  | @refused u engine tasks length shown =>
    obtain ⟨updates, hu, -⟩ :=
      u.engine.conclude_spec u.engine.runCount target name .crash none
    obtain ⟨hw, -, -, hr, hc, -⟩ := conclude_same
      { u with engine := (u.engine.conclude u.engine.runCount target name .crash none).1 } id
      (u.engine.conclude u.engine.runCount target name .crash none).2
    refine .of_same ?_ ?_ ?_
    · rw [hw]
      exact length
    · rw [hc, hu, engine]
      exact Nat.le_succ _
    · rw [hr, hu, engine]
      rfl
  | @aborted u fault engine tasks length shown =>
    refine .of_same length ?_ ?_
    · show _ ≤ u.engine.runCount
      rw [engine]
      exact Nat.le_succ _
    · show u.engine.runs = _
      rw [engine]
      rfl

theorem Course.later (h : Runners ns s) (hc : Course n s t) : Later s t := by
  cases hc with
  | aside ha _ =>
    refine .of_same ha.length ?_ ?_
    · exact Nat.le_of_eq (by rw [ha.engine])
    · rw [ha.engine]
  | waits => exact .of_same (Nat.le_refl _) (Nat.le_refl _) rfl
  | answers hk ha hn =>
    obtain ⟨findings, answer, he⟩ := s.answerNews_eq _
    rw [he]
    exact .of_same (Nat.le_refl _) (Nat.le_refl _) rfl
  | launches => exact (launch_spec ..).later
  | @reads r stream hn hr hopen =>
    obtain ⟨w, chunks, closed, hc, hw, -, he, -⟩ := readVerifier_spec h hr hopen
    obtain ⟨board, hb⟩ := s.engine.takeOutput_spec r stream chunks closed
    have htouch := World.touches_collect s.world r.pid stream
    rw [hb] at he
    rw [hc, ← hw] at htouch
    refine ⟨Nat.le_of_eq htouch.length.symm, ?_, fun q hq => ?_⟩
    · have hcount : (s.readVerifier r stream).engine.runCount = s.engine.runCount := by
        rw [he]
        rfl
      exact Nat.le_of_eq hcount.symm
    · rw [he] at hq
      rcases Engine.mem_runs_putRun hq with rfl | ⟨hq, -⟩
      · exact .inr ⟨r, hr, (r.read_pid ..).symm, (r.read_number ..).symm⟩
      · exact .inr ⟨q, hq, rfl, rfl⟩
  | counts =>
    split
    · exact .of_same (Nat.le_refl _) (Nat.le_refl _) rfl
    · exact .of_same (Nat.le_refl _) (Nat.le_refl _) rfl
  | @awaits r _ _ w _ hr _ _ halive =>
    have htouch := World.touches_awaitExit s.world r.pid
    rw [halive] at htouch
    exact .of_same (Nat.le_of_eq htouch.length.symm) (Nat.le_refl _) rfl
  | @finishes r id _ code =>
    obtain ⟨hw, hruns, hcount, -⟩ := s.finishRun_same id r code
    refine ⟨Nat.le_of_eq (congrArg (·.processes.length) hw.symm), Nat.le_of_eq hcount.symm, ?_⟩
    intro q hq
    rw [hruns] at hq
    exact .inr ⟨q, List.mem_of_mem_filter hq, rfl, rfl⟩

/-! ## One event -/

/-- Nothing has changed but what is kept of the runs that are read, and tasks that do not wait. -/
structure Inert (s t : Session) : Prop where
  engine : ∃ runs, t.engine = { s.engine with runs }
  shown : t.shown = s.shown
  waiting : ∀ id k w, s.task? id = some k → k.standing = .awaitingNews w → t.task? id = some k

/-- An event is inert; or the request of an editor is answered by it, and then its hints are asked
for anew. -/
def Fades (id : TaskId) (s t : Session) : Prop :=
  Inert s t ∨ (∃ path target address standing answer,
    s.task? id = some ⟨.verify path target address, standing⟩ ∧ standing.runs?.isSome ∧
      t.task? id = some ⟨.verify path target address, .ended answer⟩) ∧ Inert s.refreshHints t

theorem Inert.of_same (hengine : t.engine = s.engine) (hshown : t.shown = s.shown)
    (htasks : t.tasks = s.tasks) : Inert s t :=
  ⟨⟨s.engine.runs, hengine⟩, hshown, fun id _ _ hk _ => (task?_congr htasks id).trans hk⟩

/-- A task that runs something goes on or ends. -/
theorem Inert.of_setStanding {standing : Standing}
    (hengine : ∃ runs, t.engine = { s.engine with runs }) (hshown : t.shown = s.shown)
    (hk : s.task? id = some k) (hrun : k.standing.runs?.isSome)
    (htasks : t.tasks = (s.setStanding id standing).tasks) : Inert s t := by
  refine ⟨hengine, hshown, fun i k' w hk' hw => (task?_setStanding_of_ne htasks i ?_).trans hk'⟩
  rintro rfl
  cases hk.symm.trans hk'
  rw [hw] at hrun
  cases hrun

/-- A task that is told that its run was superseded. -/
theorem conclude_outdated {request : Request} {standing : Standing}
    (hk : s.task? id = some ⟨request, standing⟩) (hver : request.Verifies) :
    s.conclude id ⟨[], [], .superseded⟩ = s.endTask id request.supersededAnswer ∨
      s.conclude id ⟨[], [], .superseded⟩ = s.refreshHints.endTask id request.supersededAnswer ∧
        ∃ path target address, request = .verify path target address := by
  have hc : s.conclude id ⟨[], [], .superseded⟩ = s.answerRun id .superseded := by
    simp only [conclude, showAll_nil, noticeNews, List.flatMap_nil, enqueue_nil]
  rw [hc]
  cases request with
  | run path target address => exact .inl (by simp [answerRun, hk, Request.supersededAnswer])
  | verify path target address =>
    exact .inr ⟨by simp [answerRun, hk, Request.supersededAnswer], _, _, _, rfl⟩
  | _ => cases hver

theorem refreshHints_dropRun (s : Session) (pid : Pid) :
    { s with engine := s.engine.dropRun pid }.refreshHints =
      { s.refreshHints with engine := s.refreshHints.engine.dropRun pid } := by
  unfold refreshHints
  dsimp only [findings, Engine.dropRun]
  split <;> rfl

theorem refreshHints_queue (s : Session) (queue : List Notice) :
    { s with queue }.refreshHints = { s.refreshHints with queue } := by
  unfold refreshHints
  dsimp only [findings]
  split <;> rfl

theorem Fades.of_queue {queue : List Notice} (h : Fades id { s with queue } t) : Fades id s t := by
  rcases h with hi | ⟨he, hi⟩
  · exact .inl ⟨hi.engine, hi.shown, hi.waiting⟩
  · rw [refreshHints_queue] at hi
    exact .inr ⟨he, hi.engine, hi.shown, hi.waiting⟩

theorem refreshHints_tasks (s : Session) : s.refreshHints.tasks = s.tasks := by
  obtain ⟨instantiations, effects, h, -⟩ := s.refreshHints_eq
  rw [h]
  rfl

/-- The end of an outdated run. -/
theorem finishRun_outdated {r : ActiveRun} (hk : s.task? id = some k)
    (hver : k.request.Verifies) (hrun : k.standing.runs?.isSome)
    (hold : r.number < s.engine.runCount) (code : ExitCode) :
    Fades id s (s.finishRun id r code) ∧ (s.finishRun id r code).task? id =
      some ⟨k.request, .ended k.request.supersededAnswer⟩ := by
  have hended : ∀ {u : Session}, u.tasks = s.tasks →
      (u.endTask id k.request.supersededAnswer).task? id =
        some ⟨k.request, .ended k.request.supersededAnswer⟩ := by
    intro u hu
    have hk : u.task? id = some k := (task?_congr hu id).trans hk
    exact (setStanding_task?_of hk _ id).trans (if_pos rfl)
  obtain ⟨request, standing⟩ := k
  unfold finishRun
  rw [Engine.finish_superseded (Nat.ne_of_lt hold)]
  dsimp only at hver hrun hended ⊢
  rcases conclude_outdated (s := { s with engine := s.engine.dropRun r.pid }) hk hver with
    he | ⟨he, path, target, address, rfl⟩
  · rw [he]
    exact ⟨.inl (.of_setStanding ⟨_, rfl⟩ rfl hk hrun rfl), hended rfl⟩
  · have htasks : { s.refreshHints with
        engine := s.refreshHints.engine.dropRun r.pid }.tasks = s.tasks := s.refreshHints_tasks
    rw [he, refreshHints_dropRun]
    refine ⟨.inr ⟨⟨path, target, address, standing, _, hk, hrun, hended htasks⟩, ?_⟩, hended htasks⟩
    exact .of_setStanding (s := s.refreshHints) ⟨_, rfl⟩ rfl
      ((task?_congr s.refreshHints_tasks id).trans hk) hrun rfl

/-! ## The task of an outdated run -/

/-- A request that runs a process, or has learnt that its run was superseded. -/
def Sealed (s : Session) (id : TaskId) (request : Request) (pid : Pid) : Prop :=
  ∃ standing, s.task? id = some ⟨request, standing⟩ ∧
    (standing.runs? = some pid ∨
      standing = .ended request.supersededAnswer ∧ pid ∉ s.engine.pids)

theorem Later.not_mem_pids (hl : Later s t) (ho : s.Outdated pid) (h : pid ∉ s.engine.pids) :
    pid ∉ t.engine.pids := by
  intro hm
  obtain ⟨r, hr, rfl⟩ := List.mem_map.mp hm
  rcases hl.runs r hr with hnew | ⟨q, hq, hp, -⟩
  · exact absurd ho.started (Nat.not_le_of_lt hnew)
  · exact h (hp ▸ List.mem_map_of_mem hq)

theorem Sealed.of_task? {request : Request} (h : Sealed s id request pid) (hl : Later s t)
    (ho : s.Outdated pid) (htask : t.task? id = s.task? id) : Sealed t id request pid := by
  obtain ⟨standing, hk, hcases⟩ := h
  exact ⟨standing, htask.trans hk, hcases.imp_right (.imp_right (hl.not_mem_pids ho))⟩

/-- The task of a run that was dropped does not run it. -/
theorem Sealed.task_eq {request : Request} {r : ActiveRun} {i : TaskId}
    (h : Sealed s id request r.pid) (hruns : Runners ns s) (hr : r ∈ s.engine.runs)
    (hk : s.task? i = some k) (hrun : k.standing.runs? = some r.pid) : i = id := by
  obtain ⟨standing, hid, hrun' | ⟨-, hno⟩⟩ := h
  · exact hruns.sole i id k _ r.pid hk hid hrun hrun'
  · exact absurd (List.mem_map_of_mem hr) hno

theorem Course.sealed {request : Request} (hver : request.Verifies) (h : Runners ns s)
    (ho : s.Outdated pid) (hs : Sealed s id request pid) (hc : Course n s t) :
    Sealed t id request pid := by
  have hl := hc.later h
  obtain ⟨standing, hid, hcases⟩ := hs
  have hs : Sealed s id request pid := ⟨standing, hid, hcases⟩
  -- a task that has not come to a run is another one
  have hother : ∀ {i k standing}, s.task? i = some k →
      (k.standing = .queued ∨ (∃ w, k.standing = .awaitingNews w) ∨
        ∃ a, k.standing = .startupCame a) →
      t.tasks = (s.setStanding i standing).tasks → Sealed t id request pid := by
    intro i k standing hk hst ht
    refine hs.of_task? hl ho (task?_setStanding_of_ne ht id ?_)
    rintro rfl
    cases hk.symm.trans hid
    rcases hst with rfl | ⟨w, rfl⟩ | ⟨a, rfl⟩ <;> rcases hcases with hp | ⟨hp, -⟩ <;> cases hp
  -- a task that goes on with its run goes on with the same one
  have hgoes : ∀ {i k standing}, s.task? i = some k → k.standing.runs?.isSome →
      standing.runs? = k.standing.runs? → t.tasks = (s.setStanding i standing).tasks →
      Sealed t id request pid := by
    intro i k standing hk hrun hsame ht
    by_cases hi : i = id
    · subst hi
      cases hk.symm.trans hid
      rcases hcases with hp | ⟨rfl, -⟩
      · exact ⟨standing, task?_setStanding_self hk ht, .inl (hsame.trans hp)⟩
      · cases hrun
    · exact hs.of_task? hl ho (task?_setStanding_of_ne ht id (Ne.symm hi))
  cases hc with
  | aside ha _ =>
    obtain ⟨k', hk', hpass⟩ := ha.old id _ hid
    rcases hpass with rfl | ⟨-, hq | hon, -⟩
    · exact hs.of_task? hl ho (hk'.trans hid.symm)
    · cases hq
      rcases hcases with hp | ⟨hp, -⟩ <;> cases hp
    · rcases hcases with hp | ⟨rfl, -⟩
      · cases hp.symm.trans hon.runs?_eq_none
      · cases hon
  | waits _ hk hq _ _ => exact hother hk (.inl hq) rfl
  | @answers i _ hk _ hn =>
    obtain ⟨answer, ht⟩ := s.answerNews_tasks i
    exact hother hk (hn.imp And.right fun ⟨_, w, hq, _⟩ => .inl ⟨w, hq⟩) ht
  | @launches i k path target address hk _ hn =>
    obtain ⟨standing, ht, -⟩ := (launch_spec s i path target address).tasks
    exact hother hk (hn.imp And.right fun ⟨_, ha⟩ => .inr ha) ht
  | @reads r stream _ hr hopen =>
    obtain ⟨_, _, _, -, -, ht, -⟩ := readVerifier_spec h hr hopen
    exact hs.of_task? hl ho (task?_congr ht id)
  | counts _ hk hst =>
    exact hgoes hk (by rw [hst]; rfl) (by rw [hst]; rfl) (s.counts_tasks ..)
  | awaits _ _ hk hst _ => exact hgoes hk (by rw [hst]; rfl) (by rw [hst]; rfl) rfl
  | @finishes r i k code _ hr hk hst =>
    obtain ⟨-, hruns, -, -, htasks⟩ := s.finishRun_same i r code
    by_cases hp : r.pid = pid
    · subst hp
      obtain rfl := hs.task_eq h hr hk hst
      cases hk.symm.trans hid
      have hended := (finishRun_outdated hid hver (by rw [hst]; rfl) (ho.older r hr rfl) code).2
      refine ⟨_, hended, .inr ⟨rfl, ?_⟩⟩
      rw [Engine.pids, hruns]
      exact s.engine.not_mem_pids_dropRun r.pid
    · obtain ⟨answer, ht⟩ := htasks
      refine hs.of_task? hl ho (task?_setStanding_of_ne ht id ?_)
      rintro rfl
      cases hk.symm.trans hid
      rcases hcases with hp' | ⟨rfl, -⟩
      · exact hp (Option.some.inj (hst.symm.trans hp'))
      · cases hst

theorem Course.fades {request : Request} (hver : request.Verifies) (h : Runners ns s)
    (ho : s.Outdated pid) (hs : Sealed s id request pid) (hn : n.About pid) (hc : Course n s t) :
    Fades id s t := by
  cases hc with
  | aside ha _ =>
    refine .inl ⟨⟨s.engine.runs, ha.engine⟩, ha.shown, fun i k w hk hw => ?_⟩
    obtain ⟨k', hk', hpass⟩ := ha.old i k hk
    rcases hpass with rfl | ⟨-, hq | hon, -⟩
    · exact hk'
    · cases hw.symm.trans hq
    · rw [hw] at hon; cases hon
  | waits hb => rw [hb] at hn; cases hn
  | answers _ _ hb => rcases hb with ⟨rfl, -⟩ | ⟨rfl, -⟩ <;> cases hn
  | launches _ _ hb => rcases hb with ⟨rfl, -⟩ | ⟨rfl, -⟩ <;> cases hn
  | @reads r stream hb hr hopen =>
    obtain ⟨w, chunks, closed, -, -, ht, he, hsh⟩ := readVerifier_spec h hr hopen
    rw [hb] at hn
    rw [Engine.takeOutput_superseded (Nat.ne_of_lt (ho.older r hr hn))] at he hsh
    refine .inl ⟨⟨_, he⟩, hsh.trans (List.append_nil _), fun i k w hk _ => ?_⟩
    exact (task?_congr ht i).trans hk
  | counts _ hk hst =>
    refine .inl ?_
    split
    · exact .of_setStanding ⟨_, rfl⟩ rfl hk (by rw [hst]; rfl) rfl
    · exact .of_setStanding ⟨_, rfl⟩ rfl hk (by rw [hst]; rfl) rfl
  | awaits _ _ hk hst _ =>
    exact .inl (.of_setStanding ⟨_, rfl⟩ rfl hk (by rw [hst]; rfl) rfl)
  | @finishes r i k code hb hr hk hst =>
    have hp : r.pid = pid := by rcases hb with rfl | rfl <;> exact hn
    subst hp
    obtain rfl := hs.task_eq h hr hk hst
    obtain ⟨standing, hid, -⟩ := hs
    cases hk.symm.trans hid
    exact (finishRun_outdated hid hver (by rw [hst]; rfl) (ho.older r hr rfl) code).1

/-! ## Every event -/

theorem Later.refl (s : Session) : Later s s := .of_same (Nat.le_refl _) (Nat.le_refl _) rfl

theorem act_later (h : Sound s.queue s) (a : Action) : Later s (s.act a) := by
  cases a with
  | ask request => exact .of_same (Nat.le_refl _) (Nat.le_refl _) rfl
  | feed p stream chunk =>
    exact .of_same (Nat.le_of_eq (World.touches_feed s.world p stream chunk).length.symm)
      (Nat.le_refl _) rfl
  | exit p code time =>
    exact .of_same (Nat.le_of_eq (World.touches_exit s.world p code time).length.symm)
      (Nat.le_refl _) rfl
  | step =>
    rcases step_course h with he | ⟨n, rest, hq, hc, hs⟩
    · rw [act, he]
      exact .refl s
    · have hl := hc.later hs.runners
      exact ⟨hl.length, hl.count, hl.runs⟩

theorem Sealed.act {request : Request} (hver : request.Verifies) (h : Sound s.queue s)
    (ho : s.Outdated pid) (hs : Sealed s id request pid) (a : Action) :
    Sealed (s.act a) id request pid := by
  cases a with
  | ask request' =>
    obtain ⟨standing, hid, hcases⟩ := hs
    exact ⟨standing, task?_addTask hid request', hcases⟩
  | feed => exact hs
  | exit => exact hs
  | step =>
    rcases step_course h with he | ⟨n, rest, hq, hc, hs'⟩
    · rwa [Session.act, he]
    · exact hc.sealed hver hs'.runners ⟨ho.started, ho.older⟩ hs

/-- What an event of an outdated run does. -/
theorem fades_act {request : Request} (hver : request.Verifies) (h : Sound s.queue s)
    (ho : s.Outdated pid) (hs : Sealed s id request pid) {a : Action} (ha : s.Concerns pid a) :
    Fades id s (s.act a) := by
  cases a with
  | ask => cases ha
  | feed => exact .inl (.of_same rfl rfl rfl)
  | exit => exact .inl (.of_same rfl rfl rfl)
  | step =>
    obtain ⟨n, rest, hq, hn⟩ := ha
    rcases step_course h with he | ⟨n', rest', hq', hc, hs'⟩
    · rw [Session.act, he]
      exact .inl (.of_same rfl rfl rfl)
    · cases hq.symm.trans hq'
      exact (hc.fades hver hs'.runners ⟨ho.started, ho.older⟩ hs hn).of_queue

/-- **Superseded runs are inert.** Once a later run has begun, whatever happens afterwards: no event
of the earlier run changes anything but what is kept of the runs themselves; its request can only
learn that the run was superseded, and it has learnt that when the process has ended and nothing is
left to be done. -/
theorem superseded_inert (h : s.Fresh) (before later : List Action) {r : ActiveRun}
    (hr : r ∈ (s.after before).engine.runs) (hold : r.number < (s.after before).engine.runCount) :
    let t := (s.after before).after later
    ∃ id request, request.Verifies ∧
      (∃ standing, (s.after before).task? id = some ⟨request, standing⟩ ∧
        standing.runs? = some r.pid) ∧
      (∀ a, t.Concerns r.pid a → Fades id t (t.act a)) ∧
      t.Sealed id request r.pid ∧
      (t.queue = [] → t.world.HasEnded r.pid →
        t.task? id = some ⟨request, .ended request.supersededAnswer⟩) := by
  intro t
  have hbefore := h.sound_after before
  obtain ⟨id, ⟨request, standing⟩, hk, hprogress⟩ := hbefore.runners.running r hr
  obtain ⟨hver, -⟩ := hbefore.runners.tasks id _ r.pid hk hprogress.runs?
  have houtdated : (s.after before).Outdated r.pid := by
    refine ⟨hbefore.runners.le_length hr, fun q hq hp => ?_⟩
    rwa [hbefore.runners.eq_of_pid hq hr hp]
  obtain ⟨hsound, hot, hst⟩ : Sound t.queue t ∧ t.Outdated r.pid ∧ t.Sealed id request r.pid := by
    apply after_induction (P := fun t => Sound t.queue t ∧ t.Outdated r.pid ∧
      t.Sealed id request r.pid) ⟨hbefore, houtdated, standing, hk, .inl hprogress.runs?⟩
    rintro u a ⟨hu, ho, hs⟩
    exact ⟨hu.act a, ho.later (act_later hu a), hs.act hver hu ho a⟩
  refine ⟨id, request, hver, ⟨standing, hk, hprogress.runs?⟩,
    fun a ha => fades_act hver hsound hot hst ha, hst, fun hq hended => ?_⟩
  obtain ⟨standing', hk', hrun | ⟨rfl, -⟩⟩ := hst
  · -- the run would still be read, and its process alive
    obtain ⟨-, hm⟩ := hsound.runners.tasks id _ r.pid hk' hrun
    obtain ⟨q, hqr, hp⟩ := List.mem_map.mp hm
    obtain ⟨i, k, hi, hprogress⟩ := hsound.runners.running q hqr
    rw [hq] at hprogress
    exact absurd (hp ▸ hended) (hprogress.alive hsound.runners.sane)
  · exact hk'

/-! Two runs of which the second has begun, and then the late end of the first. -/

def overtaking : List Action :=
  [.ask (.run "/w/a.rs" .file "here"), .step, .step, .step,
    .ask (.run "/w/b.rs" .file "here"), .step, .step, .step]

def lateEnd : List Action := [.exit 1 (some 0) .zero, .step, .step, .step, .step, .step]

theorem superseded_inert_overtaking :
    ∃ r ∈ (quiet.after overtaking).engine.runs,
      r.number < (quiet.after overtaking).engine.runCount ∧
      ∃ id request, ((quiet.after overtaking).after lateEnd).task? id =
        some ⟨request, .ended request.supersededAnswer⟩ := by
  obtain ⟨r, hr, hpid, hold⟩ : ∃ r ∈ (quiet.after overtaking).engine.runs,
      r.pid = 1 ∧ r.number < (quiet.after overtaking).engine.runCount := by decide +kernel
  obtain ⟨id, request, -, -, -, -, hended⟩ :=
    superseded_inert fresh_quiet overtaking lateEnd hr hold
  refine ⟨r, hr, hold, id, request, hended (by decide +kernel) ?_⟩
  have hexit : (((quiet.after overtaking).after lateEnd).world.process? 1).bind Process.exit =
      some (some 0) := by decide +kernel
  obtain ⟨p, hp, hcode⟩ := Option.bind_eq_some_iff.mp hexit
  exact ⟨p, some 0, hpid ▸ hp, hcode⟩

end Session

end VerifierHost
