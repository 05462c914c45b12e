import VerifierHost.Proofs.Session.Runners

/-! # Every step keeps a session sound

What a notice brings about (`Session.Course`) keeps a session sound without the notice, and so does
whatever comes from outside; so every session is sound whatever it goes through. -/

namespace VerifierHost.Session

variable {s t u : Session} {hand ns : List Notice} {n : Notice} {id : TaskId} {k : Task}

namespace Sound

theorem aside (hand : List Notice) (h : Sound (hand ++ s.queue) s) (ha : Aside s t) :
    Sound (hand ++ t.queue) t :=
  ⟨h.waiters.aside ha, h.runners.aside ha⟩

theorem drop (h : Sound (n :: ns) t) (hs : n.Spent s t) (hengine : t.engine = s.engine) :
    Sound ns t :=
  ⟨h.waiters.drop hs, h.runners.drop hs hengine⟩

/-- Wakes go with what stirs the world. -/
theorem stir {w : World} {wakes : List Wake} {pid : Pid} (hand : List Notice)
    (h : Sound (hand ++ s.queue) s)
    (htouch : World.Touches pid s.world w) (hstir : World.Stirs s.world w wakes) :
    Sound (hand ++ (s.queue ++ wakes.map .wake)) { s with world := w } := by
  have hwakes : ∀ i, .resume i ∉ wakes.map Notice.wake := by
    intro i hi
    obtain ⟨_, -, he⟩ := List.mem_map.mp hi
    cases he
  rw [← List.append_assoc]
  exact ⟨(h.waiters.append hwakes).congr rfl rfl, h.runners.stir htouch hstir⟩

theorem kill (h : Sound (hand ++ s.queue) s) (pid : Pid) :
    Sound (hand ++ (s.kill pid).queue) (s.kill pid) := by
  have hstir := h.stir hand (World.touches_kill s.world pid) (World.stirs_kill s.world pid)
  exact ⟨hstir.waiters.congr rfl rfl, hstir.runners.congr rfl rfl rfl rfl (Nat.le_refl _)⟩

theorem killRuns (h : Sound (hand ++ s.queue) s) :
    Sound (hand ++ s.killRuns.queue) s.killRuns :=
  killRuns_induction (P := fun t => Sound (hand ++ t.queue) t) h fun _ pid hu => hu.kill pid

theorem begun {target : VerificationTarget} {name : Text} (h : Sound (hand ++ s.queue) s)
    (hb : Begun target name s u) : Sound (hand ++ u.queue) u := by
  obtain ⟨hengine, htasks, hserver, -⟩ := s.killRuns_same
  have hkilled := h.killRuns
  rw [hb.queue]
  constructor
  · exact hkilled.waiters.congr (hb.tasks.trans htasks.symm) (by rw [hb.engine, hengine]; rfl)
  · refine hkilled.runners.congr (hb.tasks.trans htasks.symm) hb.world
      (hb.server.trans hserver.symm) (by rw [hb.engine, hengine]; rfl) ?_
    rw [hb.engine, hengine]
    exact Nat.le_succ _

/-- A task that runs nothing ends. -/
theorem endTask (answer : Answer) (h : Sound (hand ++ s.queue) s)
    (hidle : ∀ k, s.task? id = some k → k.standing.runs? = none) :
    Sound (hand ++ (s.endTask id answer).queue) (s.endTask id answer) :=
  ⟨h.waiters.endTask answer, h.runners.endTask answer hidle⟩

end Sound

/-- Those who waited for a run that is concluded will be resumed. -/
theorem Waiters.conclude {c : Conclusion} (hand : List Notice) (h : Waiters (hand ++ s.queue) s)
    (htasks : t.tasks = s.tasks) (hqueue : t.queue = s.queue)
    (hn : s.engine.updates.Notifies t.engine.updates c.released) :
    Waiters (hand ++ (t.conclude id c).queue) (t.conclude id c) := by
  have hnotified := h.notify (t := t.showAll c.effects) htasks hqueue hn
  obtain ⟨u, answer, hu, hcases⟩ :=
    ((t.showAll c.effects).noticeNews c.released).answerRun_eq id c.ending
  have hconclude : t.conclude id c = u.endTask id answer := hu
  rw [hconclude]
  rcases hcases with rfl | rfl
  · exact hnotified.endTask answer
  · obtain ⟨instantiations, effects, he, -, -⟩ :=
      ((t.showAll c.effects).noticeNews c.released).refreshHints_eq
    rw [he]
    exact Waiters.endTask answer (hnotified.congr rfl rfl)

/-- What comes on top when a run is concluded counts no ends of streams. -/
theorem not_mem_of_conclude {more : List Notice}
    (h : ∀ n ∈ more, (∃ i, n = .resume i) ∨ ∃ i, n = .startupEnded i) (pid : Pid) :
    .streamEnded pid ∉ more := by
  intro hm
  rcases h _ hm with ⟨_, he⟩ | ⟨_, he⟩
  · cases he
  · cases he

/-- A run is concluded that never had a process. -/
theorem Runners.conclude_idle {c : Conclusion} (hand : List Notice)
    (h : Runners (hand ++ s.queue) s)
    (htasks : t.tasks = s.tasks) (hqueue : t.queue = s.queue) (hworld : t.world = s.world)
    (hserver : t.server = s.server) (hruns : t.engine.runs = s.engine.runs)
    (hcount : t.engine.runCount = s.engine.runCount)
    (hidle : ∀ k, s.task? id = some k → k.standing.runs? = none) :
    Runners (hand ++ (t.conclude id c).queue) (t.conclude id c) := by
  obtain ⟨hw, hs, -, hr, hc, -, ⟨answer, ht⟩, more, hq, hmore⟩ := t.conclude_same id c
  have hended : Runners (hand ++ s.queue) (t.conclude id c) := by
    refine (h.idles (.ended answer) rfl hidle).congr ?_ (hw.trans hworld) (hs.trans hserver)
      (hr.trans hruns) ?_
    · exact ht.trans (setStanding_tasks_congr htasks id _)
    · exact Nat.le_of_eq (hc.trans hcount).symm
  rw [hq, hqueue, ← List.append_assoc]
  exact hended.append (not_mem_of_conclude hmore)

/-- A run is concluded whose process has exited. -/
theorem Runners.conclude_run {r : ActiveRun} {c : Conclusion} (hand : List Notice)
    (h : Runners (hand ++ s.queue) s)
    (hk : s.task? id = some k) (hrun : k.standing.runs? = some r.pid) (htasks : t.tasks = s.tasks)
    (hqueue : t.queue = s.queue) (hworld : t.world = s.world) (hserver : t.server = s.server)
    (hruns : t.engine.runs = (s.engine.dropRun r.pid).runs)
    (hcount : t.engine.runCount = s.engine.runCount) :
    Runners (hand ++ (t.conclude id c).queue) (t.conclude id c) := by
  obtain ⟨hw, hs, -, hr, hc, -, ⟨answer, ht⟩, more, hq, hmore⟩ := t.conclude_same id c
  have hfinished : Runners (hand ++ s.queue) (t.conclude id c) :=
    h.finish hk hrun (ht.trans (setStanding_tasks_congr htasks id _)) (hw.trans hworld)
      (hs.trans hserver) (hr.trans hruns) (hc.trans hcount)
  rw [hq, hqueue, ← List.append_assoc]
  exact hfinished.append (not_mem_of_conclude hmore)

/-! ## What notices bring about -/

theorem spent_of_standing (hn : n = .begin id ∨ n = .resume id)
    (h : ∀ k, t.task? id = some k → k.standing.IsEnded ∨ k.standing.runs?.isSome) :
    n.Spent u t := by
  rcases hn with rfl | rfl
  · intro k hk hq
    have := h k hk
    rw [hq] at this
    simp [Standing.IsEnded, Standing.runs?] at this
  · intro k w hk hw
    have := h k hk
    rw [hw] at this
    simp [Standing.IsEnded, Standing.runs?] at this

theorem setStanding_standing (standing : Standing) (h : t.tasks = (s.setStanding id standing).tasks)
    (hk : t.task? id = some k) : k.standing = standing := by
  rw [task?_congr h, setStanding_task?, if_pos rfl] at hk
  obtain ⟨_, -, rfl⟩ := Option.map_eq_some_iff.mp hk
  rfl

/-- A request for news that cannot be answered yet waits. -/
theorem Sound.waits (h : Sound (.begin id :: s.queue) s) (hk : s.task? id = some k)
    (hq : k.standing = .queued) (ha : k.request.AsksNews) (file : Text) :
    Sound (s.awaitNews id file).queue (s.awaitNews id file) := by
  refine ⟨h.waiters.await hk hq ha file, ?_⟩
  have hidle : ∀ k', s.task? id = some k' → k'.standing.runs? = none := by
    intro k' hk'
    cases hk.symm.trans hk'
    rw [hq]
    rfl
  have hwait : Runners (.begin id :: s.queue) (s.awaitNews id file) :=
    (h.runners.idles (.awaitingNews (s.engine.updates.waitFor file).2) rfl hidle).congr rfl rfl rfl
      rfl (Nat.le_refl _)
  refine hwait.drop (u := s.awaitNews id file) (fun k' hk' hq' => ?_) rfl
  have hs := setStanding_standing (s := s) _ rfl hk'
  cases hq'.symm.trans hs

/-- A request for news is answered. -/
theorem Sound.answers (h : Sound (n :: s.queue) s) (hn : n = .begin id ∨ n = .resume id)
    (hidle : ∀ k, s.task? id = some k → k.standing.runs? = none) :
    Sound (s.answerNews id).queue (s.answerNews id) := by
  obtain ⟨findings, answer, he⟩ := s.answerNews_eq id
  rw [he]
  have hfound : Sound ([n] ++ (s.setFindings findings).queue) (s.setFindings findings) :=
    ⟨h.waiters.congr rfl rfl, h.runners.congr rfl rfl rfl rfl (Nat.le_refl _)⟩
  refine (hfound.endTask answer hidle).drop (spent_of_standing hn fun k hk => .inl ?_) rfl
  have hs := setStanding_standing (s := s) (.ended answer) rfl hk
  rw [hs]
  trivial

/-- A run is concluded that has a task but never had a process. -/
theorem Sound.concludes {number : Nat} {target : VerificationTarget} {name : Text}
    {status : RunStatus} (h : Sound (n :: s.queue) s) (hn : n = .begin id ∨ n = .resume id)
    (hidle : ∀ k, s.task? id = some k → k.standing.runs? = none) :
    let (engine, c) := s.engine.conclude number target name status none
    Sound ({ s with engine }.conclude id c).queue ({ s with engine }.conclude id c) := by
  obtain ⟨updates, hupdates, hnotifies, -⟩ :=
    s.engine.conclude_spec number target name status none
  dsimp only
  rw [hupdates]
  refine Sound.drop (n := n) ⟨?_, ?_⟩ (spent_of_standing hn fun k hk => .inl ?_) rfl
  · exact Waiters.conclude [n] h.waiters rfl rfl hnotifies
  · exact Runners.conclude_idle [n] h.runners rfl rfl rfl rfl rfl rfl hidle
  · obtain ⟨-, -, -, -, -, -, ⟨answer, htasks⟩, -⟩ := conclude_same
      { s with engine := { s.engine with updates } } id
        (s.engine.conclude number target name status none).2
    rw [setStanding_standing _ htasks hk]
    trivial

/-- A run begins, and its task has come to it or has ended. -/
theorem Sound.launches {path address : Text} {target : VerificationTarget}
    (h : Sound (n :: s.queue) s) (hn : n = .begin id ∨ n = .resume id) (hk : s.task? id = some k)
    (hver : k.request.Verifies) (hidle : k.standing.runs? = none) :
    Sound (s.launch id path target address).queue (s.launch id path target address) := by
  obtain ⟨u, hb, hcases⟩ := s.launch_cases id path target address
  have hu : Sound ([n] ++ u.queue) u := Sound.begun h hb
  have hku : u.task? id = some k := (task?_congr hb.tasks id).trans hk
  have hidles : ∀ k', u.task? id = some k' → k'.standing.runs? = none := by
    intro k' hk'
    cases hku.symm.trans hk'
    exact hidle
  rcases hcases with ⟨invocation, he⟩ | ⟨fault, he⟩
  · rcases u.startVerifier_cases id invocation target (shownName path) with
      ⟨w, pid, event, hw, -, hstart⟩ | ⟨v, hv, htasks, hqueue, hstart⟩
    · obtain ⟨hengine, htasks, hserver, -⟩ := s.killRuns_same
      have hkilled : Runners ([n] ++ s.killRuns.queue) s.killRuns := (Sound.killRuns h).runners
      have hset : Waiters ([n] ++ u.queue) (u.setStanding id (.awaitingOutput pid 0)) :=
        hu.waiters.setStanding (.inr rfl)
      rw [he, hstart]
      refine Sound.drop (n := n) ⟨?_, ?_⟩ (spent_of_standing hn fun k' hk' => .inr ?_) rfl
      · exact (hset.append (by simp)).congr rfl rfl
      · rw [enqueue_queue, setStanding_queue, record_queue, hb.queue]
        refine hkilled.launched (n := u.engine.runCount) (w := w) (k := k) ?_ ?_ ?_ hidle hver
          (setStanding_tasks_congr (hb.tasks.trans htasks.symm) id _) rfl
          (hb.server.trans hserver.symm) rfl ?_
        · rw [hb.engine, hengine]
          exact Nat.lt_succ_self _
        · rw [← hb.world, hw]
        · exact (task?_congr htasks id).trans hk
        · have hruns : u.engine.runs = s.killRuns.engine.runs := by rw [hb.engine, hengine]; rfl
          rw [← hruns]
          exact u.engine.launched_runs ..
      · rw [setStanding_standing (s := u) (.awaitingOutput pid 0) rfl hk']
        rfl
    · have hvs : Sound ([n] ++ v.queue) v := hu.aside [n] hv
      rw [he, hstart]
      refine hvs.concludes hn fun k' hk' => ?_
      exact hidles k' ((task?_congr htasks id).symm.trans hk')
  · rw [he]
    have hended : Sound ([n] ++ (u.endTask id (.failed (.badPath fault))).queue)
      (u.endTask id (.failed (.badPath fault))) := hu.endTask _ hidles
    refine hended.drop (spent_of_standing hn fun k' hk' => .inl ?_) rfl
    rw [setStanding_standing (s := u) (.ended (.failed (.badPath fault))) rfl hk']
    trivial

/-! ## What notices about processes bring about -/

/-- A task that goes on as before. -/
theorem setStanding_self (hk : s.task? id = some k) :
    (s.setStanding id k.standing).tasks = s.tasks := by
  apply List.ext_getElem?
  intro i
  refine (setStanding_task?_of hk k.standing i).trans ?_
  by_cases hi : id = i
  · rw [if_pos hi, ← hi]
    exact hk.symm
  · rw [if_neg hi]
    rfl

/-- A run that goes on as before. -/
theorem Runners.putRun_self (h : Runners ns s) {r : ActiveRun} (hr : r ∈ s.engine.runs) :
    (s.engine.putRun r).runs = s.engine.runs := by
  refine (List.map_congr_left fun q hq => ?_).trans (List.map_id _)
  by_cases he : q.pid = r.pid
  · rw [if_pos he, h.eq_of_pid hq hr he]
    rfl
  · rw [if_neg he]
    rfl

/-- A run reads. -/
theorem Sound.reads {r : ActiveRun} {stream : Stream}
    (h : Sound (.wake (.output r.pid stream) :: s.queue) s) (hr : r ∈ s.engine.runs)
    (hopen : (r.tap stream).ended = false) :
    Sound (s.readVerifier r stream).queue (s.readVerifier r stream) := by
  obtain ⟨id, k, hk, hprogress⟩ := h.runners.running r hr
  obtain ⟨board, hb⟩ := s.engine.takeOutput_spec r stream (s.world.collect r.pid stream).2.1
    (s.world.collect r.pid stream).2.2
  have hmem : ∀ {pid more} {b : Bool},
      .streamEnded pid ∈ (if b then [Notice.streamEnded more] else []) → pid = more := by
    intro pid more b hm
    cases b
    · cases hm
    · simpa using hm
  rw [readVerifier_eq h.runners hr hopen]
  dsimp only
  constructor
  · refine Waiters.append ?_ fun i hi => ?_
    · refine (h.waiters.pass fun i => ⟨by simp, by simp⟩).congr rfl ?_
      show (s.engine.takeOutput r stream _ _).1.updates = _
      rw [hb]
      rfl
    · split at hi
      · simp at hi
      · cases hi
  · refine h.runners.advance hr (r.read_pid ..) (r.read_number ..) hk hprogress.runs?
      (setStanding_self hk).symm rfl ?_ ?_ (World.touches_collect ..) (hprogress.reads hopen) ?_ ?_
    · show (s.engine.takeOutput r stream _ _).1.runs = _
      rw [hb]
      rfl
    · show (s.engine.takeOutput r stream _ _).1.runCount = _
      rw [hb]
      rfl
    · intro q hq st hp
      refine Progress.others hq (World.touches_collect ..) hp ?_ fun hm => hq (hmem hm)
      simpa using Ne.symm hq
    · intro pid hp
      rcases List.mem_append.mp hp with hp | hp
      · exact h.runners.noticed pid (List.mem_cons_of_mem _ hp)
      · rw [hmem hp]
        exact h.runners.le_length hr

/-- The end of a stream is counted. -/
theorem Sound.counts {pid : Pid} {m : Nat} (h : Sound (.streamEnded pid :: s.queue) s)
    (hk : s.task? id = some k) (hs : k.standing = .awaitingOutput pid m) :
    let t := if m = 0 then s.setStanding id (.awaitingOutput pid 1)
      else (s.setStanding id (.awaitingOutput pid (m + 1))).enqueue [.outputEnded pid]
    Sound t.queue t := by
  have hrun : k.standing.runs? = some pid := by rw [hs]; rfl
  obtain ⟨r, hr, rfl⟩ := List.mem_map.mp (h.runners.tasks id k pid hk hrun).2
  obtain ⟨i, k', hk', hprogress⟩ := h.runners.running r hr
  obtain rfl := h.runners.sole i id k' k r.pid hk' hk hprogress.runs? hrun
  cases hk.symm.trans hk'
  rw [hs] at hprogress
  have hadvance : ∀ (standing : Standing) (more : List Notice),
      Progress (s.queue ++ more) s.world r standing →
      (∀ pid, .streamEnded pid ∉ more) → (∀ i, .resume i ∉ more) →
      Sound (s.queue ++ more) (s.setStanding i standing) := by
    intro standing more hp hmore hresume
    have hset : Waiters (.streamEnded r.pid :: s.queue) (s.setStanding i standing) :=
      h.waiters.setStanding (.inr (by rw [hp.runs?]; rfl))
    refine ⟨(hset.pass fun i => ⟨by simp, by simp⟩).append hresume, ?_⟩
    refine h.runners.advance hr rfl rfl hk hrun rfl rfl (h.runners.putRun_self hr).symm rfl
      (.refl ..) hp ?_ ?_
    · intro q hq st hst
      exact Progress.others hq (.refl ..) hst (by simpa using Ne.symm hq) (hmore q.pid)
    · intro pid hm
      have hm := (List.mem_append.mp hm).resolve_right (hmore pid)
      exact h.runners.noticed pid (List.mem_cons_of_mem _ hm)
  by_cases hm : m = 0
  · subst hm
    have hfirst := hadvance (.awaitingOutput r.pid 1) []
    rw [List.append_nil] at hfirst
    rw [if_pos rfl]
    exact hfirst hprogress.counts (by simp) (by simp)
  · rw [if_neg hm]
    have hlast := hadvance (.awaitingOutput r.pid (m + 1)) [.outputEnded r.pid]
      (.read (by simp)) (by simp) (by simp)
    exact ⟨hlast.waiters.congr rfl rfl, hlast.runners.congr rfl rfl rfl rfl (Nat.le_refl _)⟩

/-- The exit of a process is awaited from now on. -/
theorem Sound.awaits {r : ActiveRun} {w : World} (h : Sound (n :: s.queue) s)
    (hn : n = .wake (.exit r.pid) ∨ n = .outputEnded r.pid) (hr : r ∈ s.engine.runs)
    (hk : s.task? id = some k) (hrun : k.standing.runs? = some r.pid)
    (halive : s.world.awaitExit r.pid = (w, none)) :
    Sound s.queue ({ s with world := w }.setStanding id (.awaitingExit r.pid)) := by
  have hwaits : w.AwaitsExit r.pid := by
    obtain ⟨p, hp⟩ := Option.isSome_iff_exists.mp (h.runners.known r hr)
    rcases World.awaitExit_cases hp with ⟨code, -, he⟩ | ⟨-, -, hw⟩
    · cases he.symm.trans halive
    · rwa [halive] at hw
  have htouch : World.Touches r.pid s.world w := by
    have := World.touches_awaitExit s.world r.pid
    rwa [halive] at this
  have hpass : ∀ i, n ≠ .begin i ∧ n ≠ .resume i := by
    rintro i
    rcases hn with rfl | rfl <;> exact ⟨by simp, by simp⟩
  constructor
  · have hset : Waiters (n :: s.queue) (s.setStanding id (.awaitingExit r.pid)) :=
      h.waiters.setStanding (.inr rfl)
    exact (hset.pass hpass).congr rfl rfl
  · refine h.runners.advance hr rfl rfl hk hrun rfl rfl (h.runners.putRun_self hr).symm rfl htouch
      (.exiting (.inr hwaits)) ?_ ?_
    · intro q hq st hp
      rw [← List.append_nil s.queue]
      refine Progress.others hq htouch hp ?_ List.not_mem_nil
      rcases hn with rfl | rfl <;> simp [Ne.symm hq]
    · exact fun pid hp => h.runners.noticed pid (List.mem_cons_of_mem _ hp)

/-- A run is over. -/
theorem Sound.finishes {r : ActiveRun} (h : Sound (n :: s.queue) s)
    (hn : n = .wake (.exit r.pid) ∨ n = .outputEnded r.pid) (hk : s.task? id = some k)
    (hrun : k.standing.runs? = some r.pid) (code : ExitCode) :
    Sound (s.finishRun id r code).queue (s.finishRun id r code) := by
  obtain ⟨board, updates, he, hnotifies, -⟩ := s.engine.finish_spec r code s.world.clock
  have hpass : ∀ i, n ≠ .begin i ∧ n ≠ .resume i := by
    rintro i
    rcases hn with rfl | rfl <;> exact ⟨by simp, by simp⟩
  unfold finishRun
  dsimp only
  rw [he]
  obtain ⟨-, -, -, hruns, -⟩ := conclude_same
    { s with engine := { s.engine.dropRun r.pid with board, updates } } id
    (s.engine.finish r code s.world.clock).2
  have hspent : r.pid ∉ ({ s with engine := { s.engine.dropRun r.pid with board, updates } }.conclude
      id (s.engine.finish r code s.world.clock).2).engine.pids := by
    rw [Engine.pids, hruns]
    exact s.engine.not_mem_pids_dropRun r.pid
  refine ⟨Waiters.pass (n := n) (Waiters.conclude [n] h.waiters rfl rfl hnotifies) hpass,
    Runners.drop (n := n) (u := _)
      (Runners.conclude_run [n] h.runners hk hrun rfl rfl rfl rfl rfl rfl) ?_ rfl⟩
  rcases hn with rfl | rfl
  · exact hspent
  · exact hspent

/-! ## Every step -/

/-- **Whatever comes of a notice keeps the session sound.** -/
theorem Course.sound (h : Sound (n :: s.queue) s) (hc : Course n s t) : Sound t.queue t := by
  cases hc with
  | aside ha hs => exact (Sound.aside [n] h ha).drop hs ha.engine
  | waits hn hk hq hask _ =>
    subst hn
    exact h.waits hk hq hask _
  | answers hk _ hn =>
    refine h.answers (hn.imp And.left And.left) fun k' hk' => ?_
    cases hk.symm.trans hk'
    rcases hn with ⟨-, hs⟩ | ⟨-, w, hs, -⟩
    · rw [hs]; rfl
    · rw [hs]; rfl
  | launches hk hver hn =>
    refine h.launches (hn.imp And.left And.left) hk hver ?_
    rcases hn with ⟨-, hs⟩ | ⟨-, a, hs⟩
    · rw [hs]; rfl
    · rw [hs]; rfl
  | reads hn hr hopen =>
    subst hn
    exact h.reads hr hopen
  | counts hn hk hs =>
    subst hn
    exact h.counts hk hs
  | awaits hn hr hk hs halive => exact h.awaits hn hr hk hs halive
  | finishes hn _ hk hs => exact h.finishes hn hk hs _

theorem Sound.congr (h : Sound hand s) (htasks : t.tasks = s.tasks) (hworld : t.world = s.world)
    (hserver : t.server = s.server) (hengine : t.engine = s.engine) : Sound hand t :=
  ⟨h.waiters.congr htasks (by rw [hengine]),
    h.runners.congr htasks hworld hserver (by rw [hengine]) (Nat.le_of_eq (by rw [hengine]))⟩

/-- A step does nothing, or something comes of the first notice. -/
theorem step_course (h : Sound s.queue s) :
    s.step = s ∨ ∃ n rest, s.queue = n :: rest ∧ Course n { s with queue := rest } s.step ∧
      Sound (n :: rest) { s with queue := rest } := by
  cases hq : s.queue with
  | nil => exact .inl (step_nil hq)
  | cons n rest =>
    rw [hq] at h
    have htaken : Sound (n :: rest) { s with queue := rest } := h.congr rfl rfl rfl rfl
    rw [step_cons hq]
    exact .inr ⟨n, rest, rfl, react_course htaken, htaken⟩

theorem Sound.step (h : Sound s.queue s) : Sound s.step.queue s.step := by
  rcases step_course h with he | ⟨n, rest, -, hc, htaken⟩
  · rwa [he]
  · exact hc.sound htaken

/-- **Whatever happens to a session keeps it sound.** -/
theorem Sound.act (h : Sound s.queue s) (a : Action) : Sound (s.act a).queue (s.act a) := by
  cases a with
  | ask request => exact Sound.aside [] h (.addTask s request)
  | feed pid stream chunk =>
    have hfed := Sound.stir [] h (World.touches_feed s.world pid stream chunk)
      (World.stirs_feed ..)
    exact hfed.congr rfl rfl rfl rfl
  | exit pid code time =>
    have hexited := Sound.stir [] h (World.touches_exit s.world pid code time)
      (World.stirs_exit ..)
    exact hexited.congr rfl rfl rfl rfl
  | step => exact h.step

/-- A session in which nothing has happened. -/
def Fresh (s : Session) : Prop :=
  ∃ files plans directory settings decorating attached serverName toolchain inherited,
    s = .start files plans (.idle directory settings decorating) attached serverName toolchain
      inherited

theorem Fresh.task?_ne_some (h : s.Fresh) : s.task? id ≠ some k := by
  obtain ⟨_, _, _, _, _, _, _, _, _, rfl⟩ := h
  intro hk
  cases hk

/-- Nobody waits yet, and nothing runs. -/
theorem Fresh.sound (h : s.Fresh) : Sound s.queue s := by
  have hnone : ∀ {i k}, s.task? i ≠ some k := h.task?_ne_some
  obtain ⟨files, plans, directory, settings, decorating, attached, serverName, toolchain, inherited,
    rfl⟩ := h
  constructor
  · exact ⟨fun _ _ hk => absurd hk hnone, fun _ _ _ hk => absurd hk hnone,
      fun _ _ hk => absurd hk hnone, fun _ hm => absurd hm List.not_mem_nil⟩
  · refine ⟨.start plans, ?_, ?_, ?_, .nil, .nil, ?_, ?_, ?_, fun _ _ _ hk => absurd hk hnone,
      fun _ _ _ _ _ hk => absurd hk hnone⟩
    · rintro pid (hp | ⟨q, hq, -⟩)
      · cases hp
      · exact absurd hq List.not_mem_nil
    all_goals exact fun _ hr => absurd hr List.not_mem_nil

/-- **Sessions are sound** whatever they have gone through. -/
theorem Fresh.sound_after (h : s.Fresh) (actions : List Action) :
    Sound (s.after actions).queue (s.after actions) :=
  after_induction (P := fun s => Sound s.queue s) h.sound (fun _ a hs => hs.act a) actions

/-! A session to run two verifiers that say nothing and survive when they are killed. -/

def quietScript : Script where
  stdout := some []
  stderr := some []
  exit := none
  lasts := .zero
  diesWhenKilled := false

def quiet : Session :=
  start .empty [.started quietScript, .started quietScript] (.idle (.ofText "/w") .default true)
    true "server" ⟨"cargo", "rustc", "server"⟩ []

theorem fresh_quiet : quiet.Fresh := ⟨_, _, _, _, _, _, _, _, _, rfl⟩

end VerifierHost.Session
