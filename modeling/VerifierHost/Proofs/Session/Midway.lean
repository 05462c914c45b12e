import Mathlib.Data.List.Induction
import VerifierHost.Proofs.Process.Pipes
import VerifierHost.Proofs.Run.Delivery
import VerifierHost.Proofs.Session.Unobserved

/-! # In the middle of a run

A run that goes on in a session has read portions of what its process has printed; the rest is
unread, and nothing else has been done to what the engine knows (`Session.Midway`). Whatever else
happens leaves it so (`Session.Midway.after`), and when the run ends all that its process has
printed was read (`Session.Midway.finishes`). -/

namespace VerifierHost

/-- What is answered to a request for a run, by how it ended. -/
def Ending.answer : Ending → Answer
  | .superseded => .outcome none
  | .stuck file => .failed (.noUri file)
  | .ended outcome => .outcome (some outcome)

namespace Session

/-- What happens adds to what a process writes to a stream: a chunk, if it can write. -/
def writes (s : Session) (pid : Pid) (stream : Stream) : Action → List Text.Bytes
  | .feed p other chunk =>
    if p = pid ∧ other = stream ∧ s.world.canWrite pid stream then [chunk] else []
  | .ask _ | .exit .. | .step => []

/-- All that a process writes to a stream in the course of a history. -/
def written (s : Session) (pid : Pid) (stream : Stream) : List Action → List Text.Bytes
  | [] => []
  | a :: rest => s.writes pid stream a ++ (s.act a).written pid stream rest

theorem written_concat (s : Session) (pid : Pid) (stream : Stream) (actions : List Action)
    (a : Action) : s.written pid stream (actions ++ [a]) =
      s.written pid stream actions ++ (s.after actions).writes pid stream a := by
  induction actions generalizing s with
  | nil => simp [written]
  | cons b rest ih =>
    rw [List.cons_append, written, written, ih, List.append_assoc]
    rfl

variable {s t : Session} {n : Notice} {notices notices' : List Notice} {id : TaskId}
  {request : Request} {r q : ActiveRun} {e₀ : Engine} {before : List Effect}
  {printed : Stream → List Text.Bytes} {portions : Stream → Portion} {path address : Text}
  {target : VerificationTarget}

/-- The latest run goes on: of what its process has printed it has read these portions, and the rest
is unread. What the engine knows and what was shown come of the lines that were read and of nothing
else, and its end is not looked for before its streams were read to theirs. -/
structure Midway (e₀ : Engine) (before : List Effect) (r : ActiveRun) (id : TaskId)
    (request : Request) (printed : Stream → List Text.Bytes) (portions : Stream → Portion)
    (notices : List Notice) (s : Session) : Prop where
  unobserved : Unobserved notices s
  run : r.having portions ∈ s.engine.runs
  latest : r.number = s.engine.runCount
  told : ∃ effects, Engine.Took r (r.heard portions) e₀ s.engine effects ∧
    s.shown = before ++ effects
  split : ∀ stream, printed stream = (portions stream).chunks ++ s.world.unread r.pid stream
  mute : ∀ stream, (portions stream).closed = true →
    s.world.canWrite r.pid stream = false ∧ s.world.unread r.pid stream = []
  late : .outputEnded r.pid ∈ notices ∨ .wake (.exit r.pid) ∈ notices ∨
    s.world.AwaitsExit r.pid → ∀ stream, (portions stream).closed = true
  task : ∃ standing, s.task? id = some ⟨request, standing⟩ ∧ standing.runs? = some r.pid

namespace Midway

/-- Nothing has happened that matters to the run. -/
theorem keeps (h : Midway e₀ before r id request printed portions notices s)
    (unobserved : Unobserved notices' t) (hengine : t.engine.context = s.engine.context)
    (run : r.having portions ∈ t.engine.runs) (hshown : t.shown = s.shown)
    (hunread : ∀ stream, t.world.unread r.pid stream = s.world.unread r.pid stream)
    (hmute : ∀ stream, s.world.canWrite r.pid stream = false →
      t.world.canWrite r.pid stream = false)
    (late : .outputEnded r.pid ∈ notices' ∨ .wake (.exit r.pid) ∈ notices' ∨
      t.world.AwaitsExit r.pid → ∀ stream, (portions stream).closed = true)
    (task : ∃ standing, t.task? id = some ⟨request, standing⟩ ∧ standing.runs? = some r.pid) :
    Midway e₀ before r id request printed portions notices' t := by
  obtain ⟨effects, htook, hs⟩ := h.told
  refine ⟨unobserved, run, h.latest.trans (congrArg Engine.runCount hengine).symm,
    ⟨effects, htook.congr hengine, hshown.trans hs⟩, fun stream => ?_, fun stream hc => ?_, late,
    task⟩
  · rw [hunread]
    exact h.split stream
  · rw [hunread]
    exact ⟨hmute stream (h.mute stream hc).1, (h.mute stream hc).2⟩

end Midway

/-! ## What happens beside a run -/

/-- From one session to another nothing has happened to the runs of a process, and nothing to what
the engine knows. -/
structure Beside (pid : Pid) (s t : Session) : Prop where
  engine : t.engine.context = s.engine.context
  runs : ∀ r ∈ s.engine.runs, r.pid = pid → r ∈ t.engine.runs
  shown : t.shown = s.shown
  process : t.world.process? pid = s.world.process? pid
  queue : ∀ n ∈ t.queue, n.pid? = some pid → n ∈ s.queue
  tasks : ∀ id k, s.task? id = some k → k.standing.runs? = some pid → t.task? id = some k

namespace Beside

theorem refl (pid : Pid) (s : Session) : Beside pid s s :=
  ⟨rfl, fun _ hr _ => hr, rfl, rfl, fun _ hn _ => hn, fun _ _ hk _ => hk⟩

theorem updates {pid : Pid} (h : Beside pid s t) : t.engine.updates = s.engine.updates := by
  have hupdates : t.engine.context.updates = s.engine.context.updates := by rw [h.engine]
  exact hupdates

/-- A task goes on that runs another process. -/
theorem of_setStanding {pid : Pid} {k : Task} {standing : Standing} (hk : s.task? id = some k)
    (hrun : k.standing.runs? ≠ some pid) (htasks : t.tasks = (s.setStanding id standing).tasks) :
    ∀ i k, s.task? i = some k → k.standing.runs? = some pid → t.task? i = some k := by
  intro i k' hk' hrun'
  refine (task?_setStanding_of_ne htasks i ?_).trans hk'
  rintro rfl
  cases hk.symm.trans hk'
  exact hrun hrun'

end Beside

/-- The end of a run that was superseded, as its request sees it. -/
theorem Unobserved.finishRun_superseded (h : Unobserved notices s) {k : Task}
    (hk : s.task? id = some k) (hrun : k.standing.runs?.isSome)
    (hold : q.number ≠ s.engine.runCount) (code : ExitCode) :
    s.finishRun id q code =
      { s with engine := s.engine.dropRun q.pid }.endTask id (.outcome none) := by
  obtain ⟨path, target, address, hr⟩ := (h.quiet id k hk).runs hrun
  obtain ⟨request, standing⟩ := k
  obtain rfl : request = .run path target address := hr
  unfold finishRun
  rw [Engine.finish_superseded hold]
  dsimp only
  rcases conclude_outdated (s := { s with engine := s.engine.dropRun q.pid }) hk trivial with
    he | ⟨-, _, _, _, he⟩
  · exact he
  · cases he

/-- The end of a run that was asked for by itself. -/
theorem finishRun_run {standing : Standing}
    (hk : s.task? id = some ⟨.run path target address, standing⟩) (q : ActiveRun)
    (code : ExitCode) :
    (s.finishRun id q code).engine = (s.engine.finish q code s.world.clock).1 ∧
      (s.finishRun id q code).shown =
        s.shown ++ (s.engine.finish q code s.world.clock).2.effects ∧
      (s.finishRun id q code).task? id = some ⟨.run path target address,
        .ended (s.engine.finish q code s.world.clock).2.ending.answer⟩ := by
  obtain ⟨engine, effects, released, ending, he⟩ : ∃ engine effects released ending,
      s.engine.finish q code s.world.clock = (engine, ⟨effects, released, ending⟩) :=
    ⟨_, _, _, _, rfl⟩
  have hanswer : ∀ u : Session, u.task? id = s.task? id →
      u.answerRun id ending = u.endTask id ending.answer := by
    intro u hu
    unfold answerRun
    rw [hu, hk]
    cases ending <;> rfl
  have hfinish : s.finishRun id q code =
      (({ s with engine := engine }.showAll effects).noticeNews released).endTask id
        ending.answer := by
    unfold finishRun conclude
    rw [he]
    exact hanswer _ rfl
  rw [hfinish, he]
  refine ⟨rfl, showAll_shown .., ?_⟩
  refine (setStanding_task?_of (s := ({ s with engine }.showAll effects).noticeNews released) hk
    (.ended ending.answer) id).trans (if_pos rfl)

/-- What is done about the server is no matter to a run. -/
theorem Upkeep.beside {pid : Pid} (hu : Upkeep s t) (h : Unobserved notices s)
    (hpid : pid ∈ s.engine.pids) : Beside pid s t := by
  obtain ⟨r, hr, rfl⟩ := List.mem_map.mp hpid
  have hle := h.sound.runners.le_length hr
  have hserves := h.sound.runners.apart r hr
  refine ⟨congrArg Engine.context hu.engine, fun q hq _ => hu.engine.symm ▸ hq, hu.shown,
    hu.others r hr hle hserves, fun n hn hp => ?_, fun i k hk hrun => ?_⟩
  · refine (hu.about n hn).resolve_right fun habout => ?_
    rcases habout r.pid hp with hs | hnew
    · exact hserves hs
    · exact Nat.not_lt.mpr hle hnew.1
  · obtain ⟨k', hk', rfl | ⟨-, hf, -⟩⟩ := hu.old i k hk
    · exact hk'
    · rcases hf with hf | hf
      · rw [hf] at hrun
        cases hrun
      · cases hf.runs?_eq_none.symm.trans hrun

/-- A notice about something else, where all other runs were superseded. -/
theorem Advance.beside {pid : Pid} (ha : Advance n s t) (h : Unobserved notices s)
    (hn : n.pid? ≠ some pid) (hpid : pid ∈ s.engine.pids)
    (hold : ∀ q ∈ s.engine.runs, q.pid ≠ pid → q.number ≠ s.engine.runCount)
    (hcount : t.engine.runCount = s.engine.runCount) : Beside pid s t := by
  have hrunners := h.sound.runners
  cases ha with
  | keeps hu => exact hu.beside h hpid
  | launches => exact absurd ((launch_spec ..).runCount.symm.trans hcount) (Nat.succ_ne_self _)
  | @reads q stream hq hr hopen =>
    subst hq
    have hne : q.pid ≠ pid := fun hp => hn (congrArg some hp)
    obtain ⟨w, chunks, closed, hc, hw, htasks, he, hshown⟩ := readVerifier_spec hrunners hr hopen
    rw [Engine.takeOutput_superseded (hold q hr hne)] at he hshown
    have htouch := World.touches_collect s.world q.pid stream
    rw [hc, ← hw] at htouch
    refine ⟨by rw [he]; rfl, fun r hmem hp => ?_, hshown.trans (List.append_nil _),
      htouch.others pid hne, fun n' hn' hp => ?_, fun i k hk _ => (task?_congr htasks i).trans hk⟩
    · rw [he]
      refine List.mem_map.mpr ⟨r, hmem, if_neg ?_⟩
      rw [ActiveRun.read_pid, hp]
      exact hne.symm
    · rw [readVerifier_eq hrunners hr hopen] at hn'
      refine (List.mem_append.mp hn').resolve_right fun hn' => hn ?_
      rw [List.mem_singleton.mp (List.mem_ite_nil_right.mp hn').2] at hp
      exact hp
  | @counts id k p m hp hk hs =>
    subst hp
    have hother : k.standing.runs? ≠ some pid := by
      rw [hs]
      exact hn
    have htasks := Beside.of_setStanding hk hother (s.counts_tasks id p m)
    split at htasks
    next hm =>
      rw [if_pos hm]
      exact { Beside.refl pid s with tasks := htasks }
    next hm =>
      rw [if_neg hm]
      refine { Beside.refl pid s with tasks := htasks, queue := fun n' hn' hp => ?_ }
      refine (List.mem_append.mp hn').resolve_right fun hn' => hn ?_
      rw [List.mem_singleton.mp hn'] at hp
      exact hp
  | @awaits q id k hq hr hk hs =>
    have hne : q.pid ≠ pid := by
      rintro rfl
      rcases hq with rfl | rfl <;> exact hn rfl
    refine { Beside.refl pid s with process := ?_, tasks := ?_ }
    · exact (World.touches_awaitExit s.world q.pid).others pid hne
    · exact Beside.of_setStanding hk (by rw [hs]; exact fun hp => hne (Option.some.inj hp)) rfl
  | @finishes q id k code hq hr hk hs =>
    have hne : q.pid ≠ pid := by
      rintro rfl
      rcases hq with rfl | rfl <;> exact hn rfl
    rw [h.finishRun_superseded hk (by rw [hs]; rfl) (hold q hr hne)]
    refine ⟨rfl, fun r hmem hp => ?_, rfl, rfl, fun n' hn' hp => ?_, ?_⟩
    · exact List.mem_filter.mpr ⟨hmem, decide_eq_true (hp ▸ hne.symm)⟩
    · refine (List.mem_append.mp hn').resolve_right fun hn' => ?_
      obtain ⟨i, -, rfl⟩ := List.mem_map.mp hn'
      cases hp
    · exact Beside.of_setStanding hk (by rw [hs]; exact fun hp => hne (Option.some.inj hp)) rfl

/-! ## What happens to a run -/

namespace Midway

theorem beside (h : Midway e₀ before r id request printed portions (n :: s.queue) s)
    (hb : Beside r.pid s t) (unobserved : Unobserved t.queue t) :
    Midway e₀ before r id request printed portions t.queue t := by
  have hmem : ∀ {n'}, n' ∈ t.queue → n'.pid? = some r.pid → n' ∈ n :: s.queue :=
    fun hn hp => List.mem_cons_of_mem _ (hb.queue _ hn hp)
  obtain ⟨standing, hk, hrun⟩ := h.task
  refine h.keeps unobserved hb.engine (hb.runs _ h.run rfl) hb.shown
    (fun stream => World.unread_congr hb.process stream)
    (fun stream hm => (World.canWrite_congr hb.process stream).trans hm) (fun hlate => h.late ?_)
    ⟨standing, hb.tasks id _ hk hrun, hrun⟩
  rcases hlate with hn | hn | ha
  · exact .inl (hmem hn rfl)
  · exact .inr (.inl (hmem hn rfl))
  · exact .inr (.inr (ha.congr hb.process.symm))

/-- All other runs were superseded. -/
theorem superseded (h : Midway e₀ before r id request printed portions notices s)
    (hq : q ∈ s.engine.runs) (hne : q.pid ≠ r.pid) : q.number ≠ s.engine.runCount := by
  intro hn
  have hsame : q = r.having portions :=
    List.inj_on_of_nodup_map h.unobserved.sound.runners.numbers hq h.run (hn.trans h.latest.symm)
  rw [hsame] at hne
  exact hne rfl

theorem mem_pids (h : Midway e₀ before r id request printed portions notices s) :
    r.pid ∈ s.engine.pids := List.mem_map.mpr ⟨_, h.run, rfl⟩

/-- The run of the process is this one, as far as it has come. -/
theorem eq_having (h : Midway e₀ before r id request printed portions notices s)
    (hq : q ∈ s.engine.runs) (hp : q.pid = r.pid) : q = r.having portions :=
  h.unobserved.sound.runners.eq_of_pid hq h.run hp

/-- The task that runs the process is the one of the run. -/
theorem task_eq (h : Midway e₀ before r id request printed portions notices s) {i : TaskId}
    {k : Task} (hk : s.task? i = some k) (hrun : k.standing.runs? = some r.pid) :
    i = id ∧ k.request = request := by
  obtain ⟨standing, hid, hrun'⟩ := h.task
  obtain rfl := h.unobserved.sound.runners.sole i id k _ r.pid hk hid hrun hrun'
  cases hk.symm.trans hid
  exact ⟨rfl, rfl⟩

/-- No chunk is empty, neither among those that were read nor among the others. -/
theorem full (h : Midway e₀ before r id request printed portions notices s)
    (hfull : ∀ stream, (printed stream).any List.isEmpty = false) (stream : Stream) :
    (portions stream).Full ∧ (s.world.unread r.pid stream).any List.isEmpty = false := by
  have hall := hfull stream
  rw [h.split stream, List.any_append, Bool.or_eq_false_iff] at hall
  exact hall

/-- The run reads all that is unread of a stream. -/
theorem reads {stream : Stream}
    (h : Midway e₀ before r id request printed portions (n :: s.queue) s)
    (hfull : ∀ stream, (printed stream).any List.isEmpty = false)
    (hopen : (portions stream).closed = false)
    (unobserved : Unobserved (s.readVerifier (r.having portions) stream).queue
      (s.readVerifier (r.having portions) stream)) :
    ∃ later, Midway e₀ before r id request printed later
      (s.readVerifier (r.having portions) stream).queue
      (s.readVerifier (r.having portions) stream) := by
  have hrunners := h.unobserved.sound.runners
  obtain ⟨hread, hunread⟩ := h.full hfull stream
  have htap : ((r.having portions).tap stream).ended = false :=
    (congrArg Tap.ended (r.having_tap portions stream)).trans hopen
  obtain ⟨w, chunks, closed, hc, hw, htasks, he, hshown⟩ := readVerifier_spec hrunners h.run htap
  have hqueue := congrArg Session.queue (readVerifier_eq hrunners h.run htap)
  generalize s.readVerifier (r.having portions) stream = t at *
  have hchunks : chunks = s.world.unread r.pid stream :=
    (congrArg (fun c => c.2.1) hc).symm.trans (s.world.collect_chunks r.pid stream)
  have hclosed : (s.world.collect r.pid stream).2.2 = closed := congrArg (fun c => c.2.2) hc
  have hw : t.world = (s.world.collect r.pid stream).1 := hw.trans (congrArg Prod.fst hc).symm
  rw [← hchunks] at hunread
  obtain ⟨hrun, hheard⟩ := ActiveRun.read_having (r := r) hread hopen hunread closed
  obtain ⟨effects, htook, hbefore⟩ := h.told
  refine ⟨Function.update portions stream ((portions stream).more chunks closed), unobserved, ?_,
    ?_, ⟨_, he ▸ htook.takeOutput hread hopen hunread closed, ?_⟩, fun other => ?_,
    fun other hc => ?_, fun hlate => ?_, ?_⟩
  · obtain ⟨board, hb⟩ := s.engine.takeOutput_spec (r.having portions) stream chunks closed
    rw [he, hb, ← hrun]
    refine List.mem_map.mpr ⟨r.having portions, h.run, if_pos ?_⟩
    rw [ActiveRun.read_pid]
  · obtain ⟨board, hb⟩ := s.engine.takeOutput_spec (r.having portions) stream chunks closed
    rw [he, hb]
    exact h.latest
  · rw [hshown, hbefore, List.append_assoc]
  · rw [hw, h.split other]
    by_cases ho : other = stream
    · subst ho
      rw [Function.update_self, World.unread_collect_self, List.append_nil, ← hchunks]
      rfl
    · rw [Function.update_of_ne ho, World.unread_collect_of_ne ho]
  · rw [hw, World.canWrite_collect]
    by_cases ho : other = stream
    · subst ho
      rw [Function.update_self] at hc
      exact ⟨World.canWrite_of_closed hrunners.sane (hclosed.trans hc),
        World.unread_collect_self ..⟩
    · rw [Function.update_of_ne ho] at hc
      rw [World.unread_collect_of_ne ho]
      exact h.mute other hc
  · -- whoever looks for the end of the process has read this stream to its end
    have hmem : ∀ {n'}, n' ∈ t.queue → n' ≠ .streamEnded r.pid → n' ∈ n :: s.queue := by
      intro n' hn hne
      rw [hqueue] at hn
      refine List.mem_cons_of_mem _ ((List.mem_append.mp hn).resolve_right fun hn => hne ?_)
      exact List.mem_singleton.mp (List.mem_ite_nil_right.mp hn).2
    have hclosed := h.late (hlate.imp (fun hn => hmem hn (by simp)) (.imp
      (fun hn => hmem hn (by simp)) fun ha => (hw ▸ ha).of_collect)) stream
    cases hopen.symm.trans hclosed
  · obtain ⟨standing, hk, hrun⟩ := h.task
    exact ⟨standing, (task?_congr htasks id).trans hk, hrun⟩

/-- The end of one of the streams is counted; after that of the last the run is about to look for
the end of its process. -/
theorem counts {m : Nat} {k : Task}
    (h : Midway e₀ before r id request printed portions (.streamEnded r.pid :: s.queue) s)
    (hk : s.task? id = some k) (hs : k.standing = .awaitingOutput r.pid m) :
    let t := if m = 0 then s.setStanding id (.awaitingOutput r.pid 1)
      else (s.setStanding id (.awaitingOutput r.pid (m + 1))).enqueue [.outputEnded r.pid]
    Unobserved t.queue t → Midway e₀ before r id request printed portions t.queue t := by
  intro t unobserved
  -- once one end was counted this is the other one
  have hlast : m ≠ 0 → ∀ stream, (portions stream).closed = true := by
    intro hm
    obtain ⟨i, k', hk', hprogress⟩ := h.unobserved.sound.runners.running _ h.run
    obtain ⟨rfl, -⟩ := h.task_eq hk' hprogress.runs?
    cases hk.symm.trans hk'
    rw [hs] at hprogress
    cases hprogress with
    | reading counted =>
      have hcount : 1 ≤ (Notice.streamEnded r.pid :: s.queue).count (.streamEnded r.pid) := by
        rw [List.count_cons_self]
        exact Nat.le_add_left ..
      have hended : m + (Notice.streamEnded r.pid :: s.queue).count (.streamEnded r.pid) =
          (portions .stdout).closed.toNat + (portions .stderr).closed.toNat := counted
      have hout := (portions .stdout).closed.toNat_le
      have herr := (portions .stderr).closed.toNat_le
      have hboth : (portions .stdout).closed.toNat = 1 ∧ (portions .stderr).closed.toNat = 1 := by
        omega
      rintro (_ | _)
      · exact Bool.toNat_eq_one.mp hboth.1
      · exact Bool.toNat_eq_one.mp hboth.2
    | read noticed => exact h.late (.inl noticed)
  have htask : ∃ standing, t.task? id = some ⟨request, standing⟩ ∧
      standing.runs? = some r.pid := by
    obtain ⟨-, hrequest⟩ := h.task_eq hk (by rw [hs]; rfl)
    refine ⟨.awaitingOutput r.pid (m + 1), ?_, rfl⟩
    rw [task?_setStanding_self hk (s.counts_tasks id r.pid m), ← hrequest]
  obtain ⟨hengine, hshown, hworld, hqueue⟩ : t.engine = s.engine ∧ t.shown = s.shown ∧
      t.world = s.world ∧ t.queue = s.queue ++ if m = 0 then [] else [.outputEnded r.pid] :=
    s.counts_same id r.pid m
  clear_value t
  refine h.keeps unobserved (congrArg _ hengine) (hengine ▸ h.run) hshown (fun _ => by rw [hworld])
    (fun _ hm => by rwa [hworld]) (fun hlate => ?_) htask
  by_cases hm : m = 0
  · rw [if_pos hm, List.append_nil] at hqueue
    rw [hqueue, hworld] at hlate
    exact h.late (hlate.imp (List.mem_cons_of_mem _) (.imp_left (List.mem_cons_of_mem _)))
  · exact hlast hm

/-- The end of the process is awaited. -/
theorem awaits (h : Midway e₀ before r id request printed portions (n :: s.queue) s)
    (hn : n = .wake (.exit r.pid) ∨ n = .outputEnded r.pid) :
    let t := { s with world := (s.world.awaitExit r.pid).1 }.setStanding id (.awaitingExit r.pid)
    Unobserved t.queue t → Midway e₀ before r id request printed portions t.queue t := by
  intro t unobserved
  have hclosed : ∀ stream, (portions stream).closed = true := by
    refine h.late ?_
    rcases hn with rfl | rfl
    · exact .inr (.inl List.mem_cons_self)
    · exact .inl List.mem_cons_self
  obtain ⟨standing, hk, -⟩ := h.task
  refine h.keeps unobserved rfl h.run rfl (fun _ => World.unread_awaitExit)
    (fun _ hm => World.canWrite_awaitExit.trans hm) (fun _ => hclosed)
    ⟨.awaitingExit r.pid, ?_, rfl⟩
  exact (setStanding_task?_of hk _ id).trans (if_pos rfl)

/-- **A run that is neither superseded nor over goes on.** -/
theorem advance (h : Midway e₀ before r id request printed portions (n :: s.queue) s)
    (ha : Advance n s t) (hsound : Sound t.queue t)
    (hcount : t.engine.runCount = s.engine.runCount) (hgoes : r.pid ∈ t.engine.pids)
    (hfull : ∀ stream, (printed stream).any List.isEmpty = false) :
    ∃ later, Midway e₀ before r id request printed later t.queue t := by
  have hgone : ∀ code, t ≠ s.finishRun id (r.having portions) code := by
    rintro code rfl
    obtain ⟨-, hruns, -⟩ := s.finishRun_same id (r.having portions) code
    rw [Engine.pids, hruns] at hgoes
    exact s.engine.not_mem_pids_dropRun r.pid hgoes
  have hunobserved : t.engine.updates = s.engine.updates → Unobserved t.queue t :=
    ha.unobserved h.unobserved hsound hcount
  by_cases hn : n.pid? = some r.pid
  · cases ha with
    | keeps hu =>
      have hb := hu.beside h.unobserved h.mem_pids
      exact ⟨portions, h.beside hb (hunobserved hb.updates)⟩
    | launches => exact absurd ((launch_spec ..).runCount.symm.trans hcount) (Nat.succ_ne_self _)
    | @reads q stream hb hq hopen =>
      subst hb
      obtain rfl := h.eq_having hq (Option.some.inj hn)
      obtain ⟨_, chunks, closed, -, -, -, he, -⟩ :=
        readVerifier_spec h.unobserved.sound.runners hq hopen
      obtain ⟨board, hboard⟩ := s.engine.takeOutput_spec (r.having portions) stream chunks closed
      refine h.reads hfull ?_ (hunobserved (by rw [he, hboard]; rfl))
      exact (congrArg Tap.ended (r.having_tap portions stream)).symm.trans hopen
    | counts hb hk hs =>
      subst hb
      cases hn
      obtain ⟨rfl, -⟩ := h.task_eq hk (by rw [hs]; rfl)
      exact ⟨portions, h.counts hk hs (hunobserved (by split <;> rfl))⟩
    | @awaits q id' k hb hq hk hs =>
      have hp : q.pid = r.pid := by rcases hb with rfl | rfl <;> exact Option.some.inj hn
      obtain rfl := h.eq_having hq hp
      obtain ⟨rfl, -⟩ := h.task_eq hk hs
      exact ⟨portions, h.awaits hb (hunobserved rfl)⟩
    | @finishes q id' k code hb hq hk hs =>
      have hp : q.pid = r.pid := by rcases hb with rfl | rfl <;> exact Option.some.inj hn
      obtain rfl := h.eq_having hq hp
      obtain ⟨rfl, -⟩ := h.task_eq hk hs
      exact absurd rfl (hgone code)
  · have hb := ha.beside h.unobserved hn h.mem_pids (fun q hq hne =>
      h.superseded hq hne) hcount
    exact ⟨portions, h.beside hb (hunobserved hb.updates)⟩

/-- **A run that ends comes to what its bytes say**, and to the code of its process. -/
theorem finishes (h : Midway e₀ before r id (.run path target address) printed portions
      (n :: s.queue) s)
    (ha : Advance n s t) (hcount : t.engine.runCount = s.engine.runCount)
    (hgone : r.pid ∉ t.engine.pids)
    (hfull : ∀ stream, (printed stream).any List.isEmpty = false) :
    ∃ code seconds, (t.world.process? r.pid).bind Process.exit = some code ∧
      let v := e₀.verdict r (fun stream => (printed stream).flatten) code (some seconds)
      t.engine.context = v.1.context ∧ t.shown = before ++ v.2.effects ∧
        t.task? id = some ⟨.run path target address, .ended v.2.ending.answer⟩ := by
  -- only the end of this run makes the engine forget it
  obtain ⟨code, hn, hcode, rfl⟩ : ∃ code, (n = .wake (.exit r.pid) ∨ n = .outputEnded r.pid) ∧
      (s.world.process? r.pid).bind Process.exit = some code ∧
      t = s.finishRun id (r.having portions) code := by
    have hkept : ∀ {u : Session}, u.engine.pids = s.engine.pids → t ≠ u := by
      rintro u hu rfl
      exact hgone (hu ▸ h.mem_pids)
    cases ha with
    | keeps hu => exact absurd rfl (hkept (congrArg Engine.pids hu.engine))
    | launches => exact absurd ((launch_spec ..).runCount.symm.trans hcount) (Nat.succ_ne_self _)
    | @reads q stream _ hq hopen =>
      obtain ⟨_, chunks, closed, -, -, -, he, -⟩ :=
        readVerifier_spec h.unobserved.sound.runners hq hopen
      obtain ⟨board, hboard⟩ := s.engine.takeOutput_spec q stream chunks closed
      refine absurd rfl (hkept ?_)
      rw [he, hboard]
      exact s.engine.pids_putRun _
    | counts => exact absurd rfl (hkept (by split <;> rfl))
    | awaits => exact absurd rfl (hkept rfl)
    | @finishes q i k code hn hq hk hs hcode =>
      have hp : q.pid = r.pid := by
        by_contra hne
        refine hgone (List.mem_map.mpr ⟨r.having portions, ?_, rfl⟩)
        obtain ⟨-, hruns, -⟩ := s.finishRun_same i q code
        rw [hruns]
        exact List.mem_filter.mpr ⟨h.run, decide_eq_true (Ne.symm hne)⟩
      obtain rfl := h.eq_having hq hp
      obtain ⟨rfl, -⟩ := h.task_eq hk hs
      exact ⟨code, hn, hcode, rfl⟩
  have hclosed : ∀ stream, (portions stream).closed = true := by
    refine h.late ?_
    rcases hn with rfl | rfl
    · exact .inr (.inl List.mem_cons_self)
    · exact .inl List.mem_cons_self
  have hprinted : ∀ stream, printed stream = (portions stream).chunks := by
    intro stream
    rw [h.split stream, (h.mute stream (hclosed stream)).2, List.append_nil]
  obtain ⟨standing, hk, -⟩ := h.task
  obtain ⟨effects, htook, hbefore⟩ := h.told
  obtain ⟨hcontext, heffects, hending⟩ := htook.finish (fun stream => (h.full hfull stream).1)
    hclosed code s.world.clock
  obtain ⟨hengine, hshown, htask⟩ := finishRun_run hk (r.having portions) code
  obtain ⟨hworld, -⟩ := s.finishRun_same id (r.having portions) code
  refine ⟨code, secondsBetween r.start s.world.clock, by rw [hworld]; exact hcode, ?_⟩
  simp only [hprinted]
  refine ⟨by rw [hengine]; exact hcontext, ?_, by rw [htask, hending]⟩
  rw [hshown, hbefore, List.append_assoc, heffects]

/-! ## From outside -/

/-- What is done from outside does nothing to a run but to make its process write or end. -/
theorem act (h : Midway e₀ before r id request printed portions s.queue s) {a : Action}
    (ha : a.AsksNoNews) (hstep : a ≠ .step) :
    Midway e₀ before r id request (fun stream => printed stream ++ s.writes r.pid stream a)
      portions (s.act a).queue (s.act a) := by
  have hunobserved := h.unobserved.act ha hstep
  have hnothing : (∀ stream, s.writes r.pid stream a = []) →
      Midway e₀ before r id request printed portions (s.act a).queue (s.act a) →
      Midway e₀ before r id request (fun stream => printed stream ++ s.writes r.pid stream a)
        portions (s.act a).queue (s.act a) := by
    intro hnil hm
    simpa only [hnil, List.append_nil] using hm
  cases a with
  | ask request' =>
    obtain ⟨standing, hk, hrun⟩ := h.task
    refine hnothing (fun _ => rfl) (h.keeps hunobserved rfl h.run rfl (fun _ => rfl)
      (fun _ hm => hm) (fun hlate => h.late ?_) ⟨standing, task?_addTask hk request', hrun⟩)
    · have hmem : ∀ {n'}, n' ∈ s.queue ++ [.begin s.tasks.length] → n'.pid? = some r.pid →
          n' ∈ s.queue := by
        intro n' hn hp
        refine (List.mem_append.mp hn).resolve_right fun hn => ?_
        rw [List.mem_singleton.mp hn] at hp
        cases hp
      exact hlate.imp (hmem · rfl) (.imp_left (hmem · rfl))
  | feed p other chunk =>
    have hunread := s.world.unread_feed p other chunk r.pid
    refine ⟨hunobserved, h.run, h.latest, h.told, fun stream => ?_, fun stream hc => ?_,
      fun hlate => h.late ?_, h.task⟩
    · rw [h.split stream, List.append_assoc]
      exact congrArg (_ ++ ·) (hunread stream).symm
    · refine ⟨World.canWrite_feed.trans (h.mute stream hc).1, (hunread stream).trans ?_⟩
      rw [(h.mute stream hc).1, (h.mute stream hc).2]
      simp
    · have hmem : ∀ {n' : Notice}, n' ∈ s.queue ++ (s.world.feed p other chunk).2.map .wake →
          (∀ q stream, n' ≠ .wake (.output q stream)) → n' ∈ s.queue := by
        intro n' hn hne
        refine (List.mem_append.mp hn).resolve_right fun hn => ?_
        obtain ⟨wake, hw, rfl⟩ := List.mem_map.mp hn
        obtain ⟨rfl, -⟩ := World.of_mem_feed hw
        exact hne p other rfl
      rcases hlate with hn | hn | ha
      · exact .inl (hmem hn (by rintro _ _ ⟨⟩))
      · exact .inr (.inl (hmem hn (by rintro _ _ ⟨⟩)))
      · exact .inr (.inr ha.of_feed)
  | exit p code time =>
    refine hnothing (fun _ => rfl) (h.keeps hunobserved rfl h.run rfl (fun _ => World.unread_exit)
      (fun _ hm => World.canWrite_exit hm) (fun hlate => h.late ?_) h.task)
    have hmem : ∀ {n' : Notice}, n' ∈ s.queue ++ (s.world.exit p code time).2.map .wake →
        n' ∈ s.queue ∨ ∃ wake ∈ (s.world.exit p code time).2, n' = .wake wake := by
      intro n' hn
      refine (List.mem_append.mp hn).imp_right fun hn => ?_
      obtain ⟨wake, hw, rfl⟩ := List.mem_map.mp hn
      exact ⟨wake, hw, rfl⟩
    rcases hlate with hn | hn | ha
    · rcases hmem hn with hn | ⟨wake, -, he⟩
      · exact .inl hn
      · cases he
    · rcases hmem hn with hn | ⟨wake, hw, he⟩
      · exact .inr (.inl hn)
      · cases he
        exact .inr (.inr ((World.of_mem_exit hw).2 _ rfl))
    · exact .inr (.inr ha.of_exit)
  | step => exact absurd rfl hstep

end Midway

/-! ## To the last step -/

theorem Later.trans {u : Session} (h : Later s t) (h' : Later t u) : Later s u := by
  refine ⟨Nat.le_trans h.length h'.length, Nat.le_trans h.count h'.count, fun q hq => ?_⟩
  rcases h'.runs q hq with hnew | ⟨q', hq', hp, hn⟩
  · exact .inl (Nat.lt_of_le_of_lt h.length hnew)
  · rcases h.runs q' hq' with hnew | ⟨q'', hq'', hp', hn'⟩
    · exact .inl (hp ▸ hnew)
    · exact .inr ⟨q'', hq'', hp'.trans hp, hn'.trans hn⟩

theorem Sound.after_later (h : Sound s.queue s) (actions : List Action) :
    Sound (s.after actions).queue (s.after actions) ∧ Later s (s.after actions) :=
  after_induction (P := fun t => Sound t.queue t ∧ Later s t) ⟨h, .refl s⟩
    (fun _ a ht => ⟨ht.1.act a, ht.2.trans (act_later ht.1 a)⟩) actions

/-- A run that is in progress was in progress ever since its process was started. -/
theorem Later.mem_pids {pid : Pid} (h : Later s t) (hpid : pid ≤ s.world.processes.length)
    (hmem : pid ∈ t.engine.pids) : pid ∈ s.engine.pids := by
  obtain ⟨q, hq, rfl⟩ := List.mem_map.mp hmem
  rcases h.runs q hq with hnew | ⟨q', hq', hp, -⟩
  · exact absurd hpid (Nat.not_le_of_lt hnew)
  · exact List.mem_map.mpr ⟨q', hq', hp⟩

namespace Midway

theorem take (h : Midway e₀ before r id request printed portions s.queue s) {rest : List Notice}
    (hq : s.queue = n :: rest) :
    Midway e₀ before r id request printed portions (n :: rest) { s with queue := rest } :=
  h.keeps (h.unobserved.take hq) rfl h.run rfl (fun _ => rfl) (fun _ hm => hm) (hq ▸ h.late) h.task

/-- A run that is in progress and the latest has been so all the time. -/
theorem after (h : Midway e₀ before r id request printed portions s.queue s)
    {actions : List Action} (honly : ∀ a ∈ actions, a.AsksNoNews)
    (hfull : ∀ stream,
      (printed stream ++ s.written r.pid stream actions).any List.isEmpty = false)
    (hgoes : r.pid ∈ (s.after actions).engine.pids)
    (hlatest : (s.after actions).engine.runCount = s.engine.runCount) :
    ∃ later, Midway e₀ before r id request
      (fun stream => printed stream ++ s.written r.pid stream actions) later
      (s.after actions).queue (s.after actions) := by
  induction actions using List.reverseRecOn with
  | nil =>
    refine ⟨portions, ?_⟩
    simp only [written, List.append_nil]
    exact h
  | append_singleton actions a ih =>
    obtain ⟨hsound, hlater⟩ := h.unobserved.sound.after_later actions
    have hstarted : (r.having portions).pid ≤ s.world.processes.length :=
      h.unobserved.sound.runners.le_length h.run
    have hpid : r.pid ≤ (s.after actions).world.processes.length :=
      Nat.le_trans hstarted hlater.length
    have hact := act_later hsound a
    rw [after_concat] at hgoes hlatest ⊢
    simp only [written_concat, ← List.append_assoc] at hfull ⊢
    have hcount : (s.after actions).engine.runCount = s.engine.runCount :=
      Nat.le_antisymm (hlatest ▸ hact.count) hlater.count
    obtain ⟨portions', hm⟩ := ih (fun b hb => honly b (List.mem_append_left _ hb))
      (fun stream => by
        have := hfull stream
        rw [List.any_append, Bool.or_eq_false_iff] at this
        exact this.1) (hact.mem_pids hpid hgoes) hcount
    by_cases hstep : a = .step
    · subst hstep
      have hnil : ∀ stream, (s.after actions).writes r.pid stream .step = [] := fun _ => rfl
      simp only [hnil, List.append_nil] at hfull ⊢
      cases hq : (s.after actions).queue with
      | nil =>
        rw [show (s.after actions).act .step = s.after actions from step_nil hq]
        exact ⟨portions', hm⟩
      | cons n rest =>
        have htaken := hm.take hq
        have hsound' := hsound.act .step
        rw [show (s.after actions).act .step = _ from step_cons hq] at hgoes hlatest hsound' ⊢
        exact htaken.advance (react_advance htaken.unobserved) hsound' (hlatest.trans hcount.symm)
          hgoes hfull
    · exact ⟨portions', hm.act (honly a (by simp)) hstep⟩

end Midway

end Session

end VerifierHost
