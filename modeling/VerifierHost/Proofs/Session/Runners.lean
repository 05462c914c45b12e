import VerifierHost.Proofs.Session.Shape
import VerifierHost.Proofs.Session.Waiters

/-! # No run gets stuck

What each small step does to `Runners`: a run that is read is read on until both streams have ended,
then its exit is awaited, and all that time there is something that will move it on. -/

namespace VerifierHost

variable {ns ns' : List Notice} {w w' : World} {r : ActiveRun} {standing : Standing}

theorem Progress.mono (h : Progress ns w r standing)
    (hcount : ns'.count (.streamEnded r.pid) = ns.count (.streamEnded r.pid))
    (houtput : ∀ stream, (r.tap stream).ended = false →
      .wake (.output r.pid stream) ∈ ns ∨ w.Awaits r.pid stream →
        .wake (.output r.pid stream) ∈ ns' ∨ w'.Awaits r.pid stream)
    (hread : .outputEnded r.pid ∈ ns → .outputEnded r.pid ∈ ns')
    (hexit : .wake (.exit r.pid) ∈ ns ∨ w.AwaitsExit r.pid →
      .wake (.exit r.pid) ∈ ns' ∨ w'.AwaitsExit r.pid) : Progress ns' w' r standing := by
  cases h with
  | reading counted few woken =>
    exact .reading (hcount ▸ counted) few fun stream hs => houtput stream hs (woken stream hs)
  | read noticed => exact .read (hread noticed)
  | exiting woken => exact .exiting (hexit woken)

/-- Notices may come on top that count no end of its streams, while its process is left alone. -/
theorem Progress.beside {more : List Notice} (h : Progress ns w r standing)
    (hprocess : w'.process? r.pid = w.process? r.pid) (hmore : .streamEnded r.pid ∉ more) :
    Progress (ns ++ more) w' r standing := by
  refine h.mono ?_ ?_ (List.mem_append_left _) ?_
  · rw [List.count_append, List.count_eq_zero_of_not_mem hmore, Nat.add_zero]
  · exact fun stream _ => Or.imp (List.mem_append_left _) (·.congr hprocess)
  · exact Or.imp (List.mem_append_left _) (·.congr hprocess)

/-- A run of which nothing was read yet, and whose readers have been woken. -/
theorem Progress.begins (hout : r.stdout = .start) (herr : r.stderr = .start)
    (hnew : .streamEnded r.pid ∉ ns) :
    Progress (ns ++ [.wake (.output r.pid .stdout), .wake (.output r.pid .stderr)]) w r
      (.awaitingOutput r.pid 0) := by
  refine .reading ?_ (Nat.zero_le 1) fun stream _ => .inl (List.mem_append_right _ ?_)
  · rw [List.count_append, List.count_eq_zero_of_not_mem hnew, ActiveRun.endedTaps, hout, herr]
    simp [Tap.start]
  · cases stream <;> simp

theorem ActiveRun.endedTaps_eq (r : ActiveRun) {stream other : Stream} (h : other ≠ stream) :
    r.endedTaps = (r.tap stream).ended.toNat + (r.tap other).ended.toNat := by
  cases stream <;> cases other
  · exact absurd rfl h
  · rfl
  · exact Nat.add_comm ..
  · exact absurd rfl h

theorem ActiveRun.endedTaps_read (r : ActiveRun) {stream : Stream}
    (hopen : (r.tap stream).ended = false) (chunks : List Text.Bytes) (closed : Bool) :
    (r.read stream chunks closed).1.endedTaps =
      r.endedTaps + (closed || chunks.any List.isEmpty).toNat := by
  obtain ⟨other, hother⟩ : ∃ other : Stream, other ≠ stream := by
    cases stream
    · exact ⟨.stderr, by decide⟩
    · exact ⟨.stdout, by decide⟩
  rw [endedTaps_eq _ hother, endedTaps_eq _ hother, ended_tap_read, tap_read_of_ne _ _ _ hother,
    hopen]
  simp only [Bool.toNat_false]
  omega

/-- What a reader leaves: its run has read, and it waits for more unless the stream has ended. -/
theorem Progress.reads {stream : Stream}
    (h : Progress (.wake (.output r.pid stream) :: ns) w r standing)
    (hopen : (r.tap stream).ended = false) :
    let (w', chunks, closed) := w.collect r.pid stream
    Progress (ns ++ if closed || chunks.any List.isEmpty then [.streamEnded r.pid] else []) w'
      (r.read stream chunks closed).1 standing := by
  dsimp only
  generalize hc : (w.collect r.pid stream).2.2 = closed
  generalize hch : (w.collect r.pid stream).2.1 = chunks
  generalize hmore : (if closed || chunks.any List.isEmpty then [Notice.streamEnded r.pid]
    else []) = more
  have hpid := r.read_pid stream chunks closed
  have hcount : more.count (.streamEnded r.pid) =
      (closed || chunks.any List.isEmpty).toNat := by
    rw [← hmore]
    split
    next he => simp [he]
    next he => simp [he]
  cases h with
  | @reading n counted few woken =>
    rw [← hpid]
    refine .reading ?_ few ?_
    · rw [hpid, List.count_append, hcount, r.endedTaps_read hopen]
      rw [List.count_cons_of_ne (by simp)] at counted
      omega
    · intro other hother
      rw [hpid]
      by_cases ho : other = stream
      · subst ho
        rw [r.ended_tap_read, Bool.or_eq_false_iff] at hother
        refine .inr (World.awaits_collect (hc.trans hother.1) ?_)
        rw [hch]
        exact hother.2
      · rw [r.tap_read_of_ne chunks closed ho] at hother
        rcases woken other hother with hm | ha
        · refine .inl (List.mem_append_left _ ((List.mem_cons.mp hm).resolve_left ?_))
          simpa using ho
        · exact .inr (World.awaits_collect_of_ne ho ha)
  | read noticed =>
    rw [← hpid] at noticed ⊢
    exact .read (List.mem_append_left _ ((List.mem_cons.mp noticed).resolve_left (by simp)))
  | exiting woken =>
    rw [← hpid] at woken ⊢
    refine .exiting (woken.imp (fun hm => ?_) World.awaitsExit_collect)
    exact List.mem_append_left _ ((List.mem_cons.mp hm).resolve_left (by simp))

/-- The first of two ends is counted. -/
theorem Progress.counts (h : Progress (.streamEnded r.pid :: ns) w r (.awaitingOutput r.pid 0)) :
    Progress ns w r (.awaitingOutput r.pid 1) := by
  cases h with
  | reading counted few woken =>
    refine .reading ?_ (Nat.le_refl 1) fun stream hs => ?_
    · rw [List.count_cons_self] at counted
      omega
    · exact (woken stream hs).imp_left fun hm => (List.mem_cons.mp hm).resolve_left (by simp)
  | read noticed => exact .read ((List.mem_cons.mp noticed).resolve_left (by simp))

/-- What moves other runs on stays when one process is touched and notices about it come and go. -/
theorem Progress.others {q : ActiveRun} {pid : Pid} {n : Notice}
    (hne : q.pid ≠ pid) (htouch : World.Touches pid w w') (h : Progress (n :: ns) w q standing)
    (hn : n ≠ .streamEnded q.pid ∧ (∀ stream, n ≠ .wake (.output q.pid stream)) ∧
      n ≠ .outputEnded q.pid ∧ n ≠ .wake (.exit q.pid))
    {more : List Notice} (hmore : .streamEnded q.pid ∉ more) :
    Progress (ns ++ more) w' q standing := by
  have hkept : ∀ {m}, m ∈ n :: ns → n ≠ m → m ∈ ns := fun hm hnm =>
    (List.mem_cons.mp hm).resolve_left (Ne.symm hnm)
  have hrest : Progress ns w q standing := by
    refine h.mono (List.count_cons_of_ne hn.1).symm ?_ (hkept · hn.2.2.1) ?_
    · exact fun stream _ => Or.imp_left (hkept · (hn.2.1 stream))
    · exact Or.imp_left (hkept · hn.2.2.2)
  exact hrest.beside (htouch.others q.pid hne.symm) hmore

namespace Session

variable {s t : Session} {hand : List Notice} {n : Notice} {id : TaskId} {k : Task}

theorem Serves.congr {pid : Pid} (h : t.Serves pid) (hserver : t.server = s.server) :
    s.Serves pid := by
  rwa [Serves, hserver] at h

namespace Runners

theorem congr (h : Runners ns s) (htasks : t.tasks = s.tasks) (hworld : t.world = s.world)
    (hserver : t.server = s.server) (hruns : t.engine.runs = s.engine.runs)
    (hcount : s.engine.runCount ≤ t.engine.runCount) : Runners ns t := by
  have htask := task?_congr htasks
  refine ⟨hworld ▸ h.sane, ?_, ?_, ?_, ?_, ?_, ?_, hworld ▸ h.noticed, ?_, ?_, ?_⟩
  · intro pid hp
    rw [hworld]
    exact h.served pid (hp.congr hserver)
  · rw [hruns, hworld]
    exact h.known
  · intro r hr hs
    exact h.apart r (hruns ▸ hr) (hs.congr hserver)
  · rw [Engine.pids, hruns]
    exact h.pids
  · rw [hruns]
    exact h.numbers
  · intro r hr
    exact Nat.le_trans (h.bounded r (hruns ▸ hr)) hcount
  · intro r hr
    obtain ⟨i, k, hk, hp⟩ := h.running r (hruns ▸ hr)
    exact ⟨i, k, (htask i).trans hk, hworld ▸ hp⟩
  · intro i k pid hk hp
    rw [Engine.pids, hruns]
    exact h.tasks i k pid (htask i ▸ hk) hp
  · intro i j ki kj pid hi hj
    exact h.sole i j ki kj pid (htask i ▸ hi) (htask j ▸ hj)

/-- Notices may come on top that count no end of a stream. -/
theorem append {more : List Notice} (h : Runners ns s) (hmore : ∀ pid, .streamEnded pid ∉ more) :
    Runners (ns ++ more) s :=
  { h with
    noticed := fun pid hp => h.noticed pid ((List.mem_append.mp hp).resolve_right (hmore pid))
    running := by
      intro r hr
      obtain ⟨i, k, hk, hp⟩ := h.running r hr
      exact ⟨i, k, hk, hp.beside rfl (hmore r.pid)⟩ }

theorem not_mem_wakes {wakes : List Wake} (pid : Pid) :
    Notice.streamEnded pid ∉ wakes.map Notice.wake := by
  intro hm
  obtain ⟨_, -, he⟩ := List.mem_map.mp hm
  cases he

/-- Wakes go with what stirs the world. -/
theorem stir {wakes : List Wake} {pid : Pid} (h : Runners ns s)
    (htouch : World.Touches pid s.world w) (hstir : World.Stirs s.world w wakes) :
    Runners (ns ++ wakes.map .wake) { s with world := w } :=
  { h with
    sane := htouch.sane h.sane
    served := fun q hq => by
      rw [htouch.length]
      exact h.served q hq
    known := fun r hr => by
      rw [htouch.known]
      exact h.known r hr
    noticed := by
      intro q hq
      rw [htouch.length]
      exact h.noticed q ((List.mem_append.mp hq).resolve_right (not_mem_wakes q))
    running := by
      intro r hr
      obtain ⟨i, k, hk, hp⟩ := h.running r hr
      have hwake : ∀ {wake}, wake ∈ wakes → Notice.wake wake ∈ ns ++ wakes.map .wake :=
        fun hw => List.mem_append_right _ (List.mem_map_of_mem hw)
      refine ⟨i, k, hk, hp.mono ?_ ?_ ?_ ?_⟩
      · rw [List.count_append, List.count_eq_zero_of_not_mem (not_mem_wakes r.pid), Nat.add_zero]
      · rintro stream - (ho | ho)
        · exact .inl (List.mem_append_left _ ho)
        · exact (hstir.reader r.pid stream ho).symm.imp_left hwake
      · exact List.mem_append_left _
      · rintro (he | he)
        · exact .inl (List.mem_append_left _ he)
        · exact (hstir.waiter r.pid he).symm.imp_left hwake }

/-- A notice that is spent may go. -/
theorem drop {u : Session} (h : Runners (n :: ns) t) (hs : n.Spent u t)
    (hengine : t.engine = u.engine) : Runners ns t :=
  { h with
    noticed := fun pid hp => h.noticed pid (List.mem_cons_of_mem _ hp)
    running := by
      intro r hr
      obtain ⟨i, k, hk, hp⟩ := h.running r hr
      have hpid : r.pid ∈ u.engine.pids := hengine ▸ List.mem_map_of_mem hr
      refine ⟨i, k, hk, ?_⟩
      have hkept : ∀ {m}, m ∈ n :: ns → m ≠ n → m ∈ ns :=
        fun hm hne => (List.mem_cons.mp hm).resolve_left hne
      cases hst : k.standing with
      | awaitingOutput pid m =>
        rw [hst] at hp
        refine hp.mono ?_ ?_ ?_ ?_
        · rw [List.count_cons_of_ne]
          rintro rfl
          have hrun := hp.runs?
          cases hrun
          exact hs i k m hk hst
        · rintro stream hopen (ho | ho)
          · refine .inl (hkept ho ?_)
            rintro rfl
            cases hopen.symm.trans (hs r (hengine ▸ hr) rfl)
          · exact .inr ho
        · intro ho
          refine hkept ho ?_
          rintro rfl
          exact hs hpid
        · rintro (he | he)
          · refine .inl (hkept he ?_)
            rintro rfl
            exact hs hpid
          · exact .inr he
      | awaitingExit pid =>
        rw [hst] at hp
        cases hp with
        | exiting woken =>
          refine .exiting ?_
          rcases woken with he | he
          · refine .inl (hkept he ?_)
            rintro rfl
            exact hs hpid
          · exact .inr he
      | _ => rw [hst] at hp; cases hp }

/-- What goes on beside the runs moves none of them. -/
theorem aside (h : Runners (hand ++ s.queue) s) (ha : Aside s t) :
    Runners (hand ++ t.queue) t := by
  obtain ⟨more, hqueue, hharmless⟩ := ha.queue
  have hmore : ∀ pid, .streamEnded pid ∉ more := fun pid hp => hharmless _ hp
  rw [hqueue, ← List.append_assoc]
  refine append ?_ hmore
  -- a task that has a run has always had it
  have hold : ∀ {i k pid}, t.task? i = some k → k.standing.runs? = some pid →
      s.task? i = some k := by
    intro i k pid hk hr
    cases hs : s.task? i with
    | none =>
      rcases ha.new i k hs hk with ⟨hq, -⟩ | hal
      · rw [hq] at hr; cases hr
      · cases hal.runs?_eq_none.symm.trans hr
    | some k' =>
      obtain ⟨k'', hk'', hp⟩ := ha.old i k' hs
      cases hk.symm.trans hk''
      rcases hp with rfl | ⟨-, -, hal⟩
      · rfl
      · cases hal.runs?_eq_none.symm.trans hr
  have hprocess : ∀ r ∈ s.engine.runs, t.world.process? r.pid = s.world.process? r.pid :=
    fun r hr => ha.others r hr (h.le_length hr) (h.apart r hr)
  refine ⟨ha.sane h.sane, ?_, ?_, ?_, ?_, ?_, ?_, ?_, ?_, ?_, ?_⟩
  · intro pid hp
    rcases ha.serves pid hp with hp | ⟨-, hp⟩
    · exact Nat.le_trans (h.served pid hp) ha.length
    · exact hp
  · intro r hr
    rw [ha.engine] at hr
    rw [hprocess r hr]
    exact h.known r hr
  · intro r hr hs
    rw [ha.engine] at hr
    rcases ha.serves r.pid hs with hs | ⟨hl, -⟩
    · exact h.apart r hr hs
    · exact absurd (h.le_length hr) (Nat.not_le_of_lt hl)
  · rw [ha.engine]
    exact h.pids
  · rw [ha.engine]
    exact h.numbers
  · rw [ha.engine]
    exact h.bounded
  · exact fun pid hp => Nat.le_trans (h.noticed pid hp) ha.length
  · intro r hr
    rw [ha.engine] at hr
    obtain ⟨i, k, hk, hp⟩ := h.running r hr
    obtain ⟨k', hk', hpass⟩ := ha.old i k hk
    rcases hpass with rfl | ⟨-, hq | ho, -⟩
    · refine ⟨i, k', hk', hp.mono rfl ?_ (fun hm => hm) ?_⟩
      · exact fun stream _ hw => hw.imp_right (·.congr (hprocess r hr))
      · exact fun hw => hw.imp_right (·.congr (hprocess r hr))
    · rw [hq] at hp; cases hp
    · cases hp.runs?.symm.trans ho.runs?_eq_none
  · intro i k pid hk hr
    rw [ha.engine]
    exact h.tasks i k pid (hold hk hr) hr
  · intro i j ki kj pid hi hj hri hrj
    exact h.sole i j ki kj pid (hold hi hri) (hold hj hrj) hri hrj

/-- A task that runs nothing goes on with something else. -/
theorem idles (h : Runners ns s) (standing : Standing) (hst : standing.runs? = none)
    (hidle : ∀ k, s.task? id = some k → k.standing.runs? = none) :
    Runners ns (s.setStanding id standing) := by
  have hrun : ∀ {i k pid}, (s.setStanding id standing).task? i = some k →
      k.standing.runs? = some pid → s.task? i = some k := by
    intro i k pid hk hp
    rcases task?_setStanding_cases rfl hk with ⟨_, -, -, rfl⟩ | ⟨-, hk⟩
    · cases hst.symm.trans hp
    · exact hk
  exact
    { h with
      running := by
        intro r hr
        obtain ⟨i, k, hk, hp⟩ := h.running r hr
        refine ⟨i, k, (task?_setStanding_of_ne rfl i ?_).trans hk, hp⟩
        rintro rfl
        cases hp.runs?.symm.trans (hidle k hk)
      tasks := fun i k pid hk hp => h.tasks i k pid (hrun hk hp) hp
      sole := fun i j ki kj pid hi hj hri hrj =>
        h.sole i j ki kj pid (hrun hi hri) (hrun hj hrj) hri hrj }

theorem endTask (answer : Answer) (h : Runners (hand ++ s.queue) s)
    (hidle : ∀ k, s.task? id = some k → k.standing.runs? = none) :
    Runners (hand ++ (s.endTask id answer).queue) (s.endTask id answer) := by
  have hnone : ∀ pid, .streamEnded pid ∉
      (s.tasksWhere (awaitsStartup id)).map Notice.startupEnded := by
    intro pid hp
    obtain ⟨_, -, he⟩ := List.mem_map.mp hp
    cases he
  have hmore := (h.idles (.ended answer) rfl hidle).append hnone
  rw [List.append_assoc] at hmore
  exact hmore.congr rfl rfl rfl rfl (Nat.le_refl _)

/-- A run moves on, and its task with it. -/
theorem advance {r r' : ActiveRun} {standing : Standing} (h : Runners ns s)
    (hr : r ∈ s.engine.runs) (hpid : r'.pid = r.pid) (hnumber : r'.number = r.number)
    (hk : s.task? id = some k) (hrun : k.standing.runs? = some r.pid)
    (htasks : t.tasks = (s.setStanding id standing).tasks) (hserver : t.server = s.server)
    (hruns : t.engine.runs = (s.engine.putRun r').runs)
    (hcount : t.engine.runCount = s.engine.runCount)
    (htouch : World.Touches r.pid s.world t.world)
    (hprogress : Progress ns' t.world r' standing)
    (hothers : ∀ q, q.pid ≠ r.pid → ∀ st, Progress ns s.world q st → Progress ns' t.world q st)
    (hnoticed : ∀ pid, .streamEnded pid ∈ ns' → pid ≤ s.world.processes.length) :
    Runners ns' t := by
  have hrun' : standing.runs? = some r.pid := hpid ▸ hprogress.runs?
  -- each run is the one that moved on, or was there and is another one
  have hcases : ∀ q ∈ t.engine.runs, q = r' ∨ q ∈ s.engine.runs ∧ q.pid ≠ r.pid := by
    intro q hq
    rw [hruns] at hq
    exact hpid ▸ Engine.mem_runs_putRun hq
  have hpids : t.engine.pids = s.engine.pids := by
    rw [Engine.pids, hruns]
    exact Engine.pids_putRun ..
  have hbefore : ∀ {q}, q ∈ t.engine.runs → ∃ q' ∈ s.engine.runs, q'.pid = q.pid ∧
      q'.number = q.number := by
    intro q hq
    rcases hcases q hq with rfl | ⟨hq, -⟩
    · exact ⟨r, hr, hpid.symm, hnumber.symm⟩
    · exact ⟨q, hq, rfl, rfl⟩
  have hsame : ∀ {i k' pid}, t.task? i = some k' → k'.standing.runs? = some pid →
      ∃ k, s.task? i = some k ∧ k.request = k'.request ∧ k.standing.runs? = some pid := by
    intro i k' pid hk' hp
    rcases task?_setStanding_cases htasks hk' with ⟨k₀, hk₀, rfl, rfl⟩ | ⟨-, hk'⟩
    · cases hk.symm.trans hk₀
      exact ⟨k, hk, rfl, hrun.trans (hrun'.symm.trans hp)⟩
    · exact ⟨k', hk', rfl, hp⟩
  refine ⟨htouch.sane h.sane, ?_, ?_, ?_, ?_, ?_, ?_, ?_, ?_, ?_, ?_⟩
  · intro pid hp
    rw [htouch.length]
    exact h.served pid (hp.congr hserver)
  · intro q hq
    obtain ⟨q', hq', he, -⟩ := hbefore hq
    rw [htouch.known, ← he]
    exact h.known q' hq'
  · intro q hq hs
    obtain ⟨q', hq', he, -⟩ := hbefore hq
    exact h.apart q' hq' (he ▸ hs.congr hserver)
  · rw [hpids]
    exact h.pids
  · rw [hruns, Engine.numbers_putRun]
    · exact h.numbers
    · intro q hq he
      rw [hnumber, h.eq_of_pid hq hr (he.trans hpid)]
  · intro q hq
    obtain ⟨q', hq', -, he⟩ := hbefore hq
    rw [hcount, ← he]
    exact h.bounded q' hq'
  · intro pid hp
    rw [htouch.length]
    exact hnoticed pid hp
  · intro q hq
    rcases hcases q hq with rfl | ⟨hq, hne⟩
    · exact ⟨id, { k with standing }, task?_setStanding_self hk htasks, hprogress⟩
    · obtain ⟨i, k', hk', hp⟩ := h.running q hq
      refine ⟨i, k', (task?_setStanding_of_ne htasks i ?_).trans hk', hothers q hne _ hp⟩
      rintro rfl
      cases hk.symm.trans hk'
      exact hne (Option.some.inj (hp.runs?.symm.trans hrun))
  · intro i k' pid hk' hp
    obtain ⟨k, hk, hreq, hp⟩ := hsame hk' hp
    rw [hpids, ← hreq]
    exact h.tasks i k pid hk hp
  · intro i j ki kj pid hi hj hri hrj
    obtain ⟨ki', hki, -, hri⟩ := hsame hi hri
    obtain ⟨kj', hkj, -, hrj⟩ := hsame hj hrj
    exact h.sole i j ki' kj' pid hki hkj hri hrj

/-- A run leaves, and its task has ended. -/
theorem finish {r : ActiveRun} {answer : Answer} (h : Runners ns s) (hk : s.task? id = some k)
    (hrun : k.standing.runs? = some r.pid)
    (htasks : t.tasks = (s.setStanding id (.ended answer)).tasks) (hworld : t.world = s.world)
    (hserver : t.server = s.server) (hruns : t.engine.runs = (s.engine.dropRun r.pid).runs)
    (hcount : t.engine.runCount = s.engine.runCount) : Runners ns t := by
  have hmem : ∀ {q}, q ∈ t.engine.runs ↔ q ∈ s.engine.runs ∧ q.pid ≠ r.pid := by
    intro q
    rw [hruns, Engine.dropRun, List.mem_filter, decide_eq_true_eq]
  have hsub : t.engine.runs.Sublist s.engine.runs := by
    rw [hruns]
    exact List.filter_sublist
  have hother : ∀ {i k' pid}, t.task? i = some k' → k'.standing.runs? = some pid →
      i ≠ id ∧ s.task? i = some k' := by
    intro i k' pid hk' hp
    rcases task?_setStanding_cases htasks hk' with ⟨_, -, -, rfl⟩ | hold
    · cases hp
    · exact hold
  refine ⟨hworld ▸ h.sane, ?_, ?_, ?_, ?_, ?_, ?_, hworld ▸ h.noticed, ?_, ?_, ?_⟩
  · intro pid hp
    rw [hworld]
    exact h.served pid (hp.congr hserver)
  · intro q hq
    rw [hworld]
    exact h.known q (hmem.mp hq).1
  · exact fun q hq hs => h.apart q (hmem.mp hq).1 (hs.congr hserver)
  · exact h.pids.sublist (hsub.map _)
  · exact h.numbers.sublist (hsub.map _)
  · intro q hq
    rw [hcount]
    exact h.bounded q (hmem.mp hq).1
  · intro q hq
    obtain ⟨hq, hne⟩ := hmem.mp hq
    obtain ⟨i, k', hk', hp⟩ := h.running q hq
    refine ⟨i, k', (task?_setStanding_of_ne htasks i ?_).trans hk', hworld ▸ hp⟩
    rintro rfl
    cases hk.symm.trans hk'
    exact hne (Option.some.inj (hp.runs?.symm.trans hrun))
  · intro i k' pid hk' hp
    obtain ⟨hi, hk'⟩ := hother hk' hp
    obtain ⟨hver, hm⟩ := h.tasks i k' pid hk' hp
    refine ⟨hver, ?_⟩
    obtain ⟨q, hq, rfl⟩ := List.mem_map.mp hm
    refine List.mem_map_of_mem (hmem.mpr ⟨hq, fun he => hi ?_⟩)
    exact h.sole i id k' k r.pid hk' hk (he ▸ hp) hrun
  · intro i j ki kj pid hi hj hri hrj
    exact h.sole i j ki kj pid (hother hi hri).2 (hother hj hrj).2 hri hrj

/-- A process that does not exist yet is nobody's, and nothing was noticed of it. -/
theorem unborn {pid : Pid} (h : Runners ns s) (hpid : s.world.processes.length < pid) :
    pid ∉ s.engine.pids ∧ ¬ s.Serves pid ∧ .streamEnded pid ∉ ns ∧
      ∀ {i k}, s.task? i = some k → k.standing.runs? ≠ some pid := by
  have hunlisted : pid ∉ s.engine.pids := by
    intro hm
    obtain ⟨r, hr, rfl⟩ := List.mem_map.mp hm
    exact Nat.not_le_of_lt hpid (h.le_length hr)
  exact ⟨hunlisted, fun hs => Nat.not_le_of_lt hpid (h.served pid hs),
    fun hm => Nat.not_le_of_lt hpid (h.noticed pid hm),
    fun hk hp => hunlisted (h.tasks _ _ pid hk hp).2⟩

/-- A run that begins has a process of its own, a task of its own, and wakes to read it. -/
theorem launched {w : World} {pid : Pid} {n : Nat} (h : Runners ns s)
    (hnumber : s.engine.runCount < n) (hspawn : s.world.spawn = (w, .ok pid))
    (hk : s.task? id = some k) (hidle : k.standing.runs? = none) (hver : k.request.Verifies)
    (htasks : t.tasks = (s.setStanding id (.awaitingOutput pid 0)).tasks) (hworld : t.world = w)
    (hserver : t.server = s.server) (hcount : t.engine.runCount = n)
    (hruns : ∃ r : ActiveRun, t.engine.runs = s.engine.runs ++ [r] ∧ r.number = n ∧ r.pid = pid ∧
      r.stdout = .start ∧ r.stderr = .start) :
    Runners (ns ++ [.wake (.output pid .stdout), .wake (.output pid .stderr)]) t := by
  obtain ⟨r, hruns, rfl, rfl, hout, herr⟩ := hruns
  subst hworld
  obtain ⟨hfresh, hle, hknown⟩ := World.spawn_ok hspawn
  have hgrow := World.grows_spawn s.world
  rw [hspawn] at hgrow
  obtain ⟨hunlisted, hunserved, hunnoticed, hunrun⟩ :=
    h.unborn (hfresh ▸ Nat.lt_succ_self _ : s.world.processes.length < r.pid)
  have hcases : ∀ {q}, q ∈ t.engine.runs → q ∈ s.engine.runs ∨ q = r := by
    intro q hq
    rw [hruns] at hq
    exact (List.mem_append.mp hq).imp_right List.mem_singleton.mp
  have hpids : t.engine.pids = s.engine.pids ++ [r.pid] := by
    rw [Engine.pids, hruns, List.map_append]
    rfl
  have hprocess : ∀ {q}, q ∈ s.engine.runs → t.world.process? q.pid = s.world.process? q.pid :=
    fun hq => hgrow.others _ (h.le_length hq)
  have hother : ∀ {i k' pid}, t.task? i = some k' → k'.standing.runs? = some pid →
      i = id ∧ pid = r.pid ∧ k'.request = k.request ∨ i ≠ id ∧ s.task? i = some k' := by
    intro i k' pid hk' hp
    rcases task?_setStanding_cases htasks hk' with ⟨k₀, hk₀, rfl, rfl⟩ | hold
    · cases hk.symm.trans hk₀
      exact .inl ⟨rfl, (Option.some.inj hp).symm, rfl⟩
    · exact .inr hold
  have hwakes : ∀ q : Pid, Notice.streamEnded q ∉
      [Notice.wake (.output r.pid .stdout), Notice.wake (.output r.pid .stderr)] := by
    intro q hq
    simp at hq
  refine ⟨hgrow.sane h.sane, ?_, ?_, ?_, ?_, ?_, ?_, ?_, ?_, ?_, ?_⟩
  · exact fun q hq => Nat.le_trans (h.served q (hq.congr hserver)) hgrow.length
  · intro q hq
    rcases hcases hq with hq | rfl
    · rw [hprocess hq]
      exact h.known q hq
    · exact hknown
  · intro q hq hs
    rcases hcases hq with hq | rfl
    · exact h.apart q hq (hs.congr hserver)
    · exact hunserved (hs.congr hserver)
  · rw [hpids]
    exact h.pids.append (List.nodup_singleton _) (List.disjoint_singleton.mpr hunlisted)
  · rw [hruns, List.map_append]
    refine h.numbers.append (List.nodup_singleton _) (List.disjoint_singleton.mpr fun hm => ?_)
    obtain ⟨q, hq, he⟩ := List.mem_map.mp hm
    exact Nat.not_le_of_lt hnumber (he ▸ h.bounded q hq)
  · intro q hq
    rw [hcount]
    rcases hcases hq with hq | rfl
    · exact Nat.le_trans (h.bounded q hq) (Nat.le_of_lt hnumber)
    · exact Nat.le_refl _
  · intro q hq
    have hq := (List.mem_append.mp hq).resolve_right (hwakes q)
    exact Nat.le_trans (h.noticed q hq) hgrow.length
  · intro q hq
    rcases hcases hq with hq | rfl
    · obtain ⟨i, k', hk', hp⟩ := h.running q hq
      refine ⟨i, k', (task?_setStanding_of_ne htasks i ?_).trans hk',
        hp.beside (hprocess hq) (hwakes q.pid)⟩
      rintro rfl
      cases hk.symm.trans hk'
      cases hidle.symm.trans hp.runs?
    · exact ⟨id, _, task?_setStanding_self hk htasks, .begins hout herr hunnoticed⟩
  · intro i k' q hk' hp
    rw [hpids]
    rcases hother hk' hp with ⟨-, rfl, hreq⟩ | ⟨-, hk'⟩
    · exact ⟨hreq ▸ hver, List.mem_append_right _ (List.mem_singleton.mpr rfl)⟩
    · obtain ⟨hv, hm⟩ := h.tasks i k' q hk' hp
      exact ⟨hv, List.mem_append_left _ hm⟩
  · intro i j ki kj q hi hj hri hrj
    rcases hother hi hri with ⟨rfl, rfl, -⟩ | ⟨-, hi⟩
    · rcases hother hj hrj with ⟨rfl, -, -⟩ | ⟨-, hj⟩
      · rfl
      · exact absurd hrj (hunrun hj)
    · rcases hother hj hrj with ⟨-, rfl, -⟩ | ⟨-, hj⟩
      · exact absurd hri (hunrun hi)
      · exact h.sole i j ki kj q hi hj hri hrj

end Runners

end Session

end VerifierHost
