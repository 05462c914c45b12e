import VerifierHost.Proofs.Session.Course

/-! # Nobody who waits for news is lost

What each small step does to `Waiters`: the tasks in the queue are begun in their turn, and those
that wait for news are told when it has come. -/

namespace VerifierHost.Session

variable {s t : Session} {hand ns ns' : List Notice} {n : Notice} {id : TaskId} {k : Task}

namespace Waiters

theorem congr (h : Waiters ns s) (htasks : t.tasks = s.tasks)
    (hupdates : t.engine.updates = s.engine.updates) : Waiters ns t := by
  have htask := task?_congr htasks
  refine ⟨?_, ?_, ?_, ?_⟩
  · intro i k hk
    rw [htask] at hk
    exact h.queued i k hk
  · intro i k w hk
    rw [htask] at hk
    rw [hupdates]
    exact h.waiting i k w hk
  · intro i k hk
    rw [htask] at hk
    exact h.aloof i k hk
  · intro i hi
    rw [htask, hupdates]
    exact h.resumes i hi

/-- Notices may come on top that resume nobody. -/
theorem append {more : List Notice} (h : Waiters ns s) (hmore : ∀ i, .resume i ∉ more) :
    Waiters (ns ++ more) s := by
  refine ⟨?_, ?_, h.aloof, ?_⟩
  · exact fun i k hk hq => List.mem_append_left _ (h.queued i k hk hq)
  · intro i k w hk hw
    obtain ⟨ha, he⟩ := h.waiting i k w hk hw
    exact ⟨ha, he.imp_right fun hr => ⟨hr.1, List.mem_append_left _ hr.2⟩⟩
  · exact fun i hi => h.resumes i ((List.mem_append.mp hi).resolve_right (hmore i))

/-- A notice that is spent may go. -/
theorem drop (h : Waiters (n :: ns) t) (hs : n.Spent s t) : Waiters ns t := by
  refine ⟨?_, ?_, h.aloof, fun i hi => h.resumes i (List.mem_cons_of_mem _ hi)⟩
  · intro i k hk hq
    rcases List.mem_cons.mp (h.queued i k hk hq) with rfl | hm
    · exact absurd hq (hs k hk)
    · exact hm
  · intro i k w hk hw
    obtain ⟨ha, he⟩ := h.waiting i k w hk hw
    refine ⟨ha, he.imp_right fun hr => ⟨hr.1, ?_⟩⟩
    rcases List.mem_cons.mp hr.2 with rfl | hm
    · exact absurd hw (hs k w hk)
    · exact hm

/-- So may a notice that concerns no task. -/
theorem pass (h : Waiters (n :: ns) t) (hn : ∀ i, n ≠ .begin i ∧ n ≠ .resume i) : Waiters ns t := by
  refine ⟨?_, ?_, h.aloof, fun i hi => h.resumes i (List.mem_cons_of_mem _ hi)⟩
  · intro i k hk hq
    exact (List.mem_cons.mp (h.queued i k hk hq)).resolve_left (Ne.symm (hn i).1)
  · intro i k w hk hw
    obtain ⟨ha, he⟩ := h.waiting i k w hk hw
    exact ⟨ha, he.imp_right fun hr =>
      ⟨hr.1, (List.mem_cons.mp hr.2).resolve_left (Ne.symm (hn i).2)⟩⟩

/-- A task ends or comes to a run. -/
theorem setStanding {standing : Standing} (h : Waiters ns s)
    (hst : standing.IsEnded ∨ standing.runs?.isSome) : Waiters ns (s.setStanding id standing) := by
  have hcases : ∀ i k, (s.setStanding id standing).task? i = some k →
      s.task? i = some k ∨ k.standing = standing := by
    intro i k hk
    rcases task?_setStanding_cases rfl hk with ⟨_, -, -, rfl⟩ | ⟨-, hk⟩
    · exact .inr rfl
    · exact .inl hk
  refine ⟨?_, ?_, ?_, ?_⟩
  · intro i k hk hq
    rcases hcases i k hk with hk | rfl
    · exact h.queued i k hk hq
    · rw [hq] at hst; simp [Standing.IsEnded, Standing.runs?] at hst
  · intro i k w hk hw
    rcases hcases i k hk with hk | rfl
    · exact h.waiting i k w hk hw
    · rw [hw] at hst; simp [Standing.IsEnded, Standing.runs?] at hst
  · intro i k hk ho
    rcases hcases i k hk with hk | rfl
    · exact h.aloof i k hk ho
    · cases hs : k.standing <;> simp_all [Standing.IsEnded, Standing.runs?, Standing.OnServer]
  · intro i hi
    obtain ⟨k, hk, hq, hw⟩ := h.resumes i hi
    by_cases he : i = id
    · subst he
      refine ⟨_, task?_setStanding_self hk rfl, ?_, ?_⟩
      · rintro rfl; simp [Standing.IsEnded, Standing.runs?] at hst
      · rintro w rfl; simp [Standing.IsEnded, Standing.runs?] at hst
    · exact ⟨k, (task?_setStanding_of_ne rfl i he).trans hk, hq, hw⟩

theorem endTask (answer : Answer) (h : Waiters (hand ++ s.queue) s) :
    Waiters (hand ++ (s.endTask id answer).queue) (s.endTask id answer) := by
  have hset : Waiters (hand ++ s.queue) (s.setStanding id (.ended answer)) :=
    h.setStanding (.inl trivial)
  have hnone : ∀ i, .resume i ∉ (s.tasksWhere (awaitsStartup id)).map Notice.startupEnded := by
    intro i hi
    obtain ⟨_, -, he⟩ := List.mem_map.mp hi
    cases he
  have hmore := hset.append hnone
  rw [List.append_assoc] at hmore
  exact hmore.congr rfl rfl

/-- What goes on beside the runs loses nobody. -/
theorem aside (h : Waiters (hand ++ s.queue) s) (ha : Aside s t) :
    Waiters (hand ++ t.queue) t := by
  obtain ⟨more, hqueue, hharmless⟩ := ha.queue
  have hold : ∀ {m}, m ∈ hand ++ s.queue → m ∈ hand ++ t.queue := by
    intro m hm
    rw [hqueue, ← List.append_assoc]
    exact List.mem_append_left _ hm
  -- a task was there before, and unless it is aloof now it has not changed, or it is new
  have hcases : ∀ i k, t.task? i = some k →
      s.task? i = some k ∨ k.Aloof ∨ k.standing = .queued ∧ .begin i ∈ t.queue := by
    intro i k hk
    cases hs : s.task? i with
    | none => exact .inr ((ha.new i k hs hk).symm)
    | some k' =>
      obtain ⟨k'', hk'', hp⟩ := ha.old i k' hs
      cases hk.symm.trans hk''
      rcases hp with rfl | ⟨-, -, hal⟩
      · exact .inl rfl
      · exact .inr (.inl hal)
  refine ⟨?_, ?_, ?_, ?_⟩
  · intro i k hk hq
    rcases hcases i k hk with hk | hal | ⟨-, hb⟩
    · exact hold (h.queued i k hk hq)
    · exact absurd hq hal.ne_queued
    · exact List.mem_append_right _ hb
  · intro i k w hk hw
    rcases hcases i k hk with hk | hal | ⟨hq, -⟩
    · rw [ha.engine]
      obtain ⟨hask, he⟩ := h.waiting i k w hk hw
      exact ⟨hask, he.imp_right fun hr => ⟨hr.1, hold hr.2⟩⟩
    · exact absurd hw (hal.ne_awaitingNews w)
    · cases hw.symm.trans hq
  · intro i k hk ho
    rcases hcases i k hk with hk | hal | ⟨hq, -⟩
    · exact h.aloof i k hk ho
    · exact hal.not_asksNews ho
    · rw [hq] at ho; cases ho
  · intro i hi
    rw [hqueue, ← List.append_assoc] at hi
    rcases List.mem_append.mp hi with hi | hi
    · obtain ⟨k, hk, hq, hw⟩ := h.resumes i hi
      obtain ⟨k', hk', hp⟩ := ha.old i k hk
      refine ⟨k', hk', ?_⟩
      rcases hp with rfl | ⟨-, -, hal⟩
      · rw [ha.engine]; exact ⟨hq, hw⟩
      · exact ⟨hal.ne_queued, fun w hw' => absurd hw' (hal.ne_awaitingNews w)⟩
    · obtain ⟨k, hk, hal⟩ := hharmless _ hi
      exact ⟨k, hk, hal.ne_queued, fun w hw => absurd hw (hal.ne_awaitingNews w)⟩

end Waiters

theorem resume_mem_noticeNews {waits : List WaitId} {i : TaskId} :
    .resume i ∈ (s.noticeNews waits).queue ↔ .resume i ∈ s.queue ∨
      ∃ w ∈ waits, ∃ k, s.task? i = some k ∧ k.standing = .awaitingNews w := by
  have hwaiting : ∀ w test, (∀ standing, test standing = true ↔ standing = .awaitingNews w) →
      (i ∈ s.tasksWhere test ↔ ∃ k, s.task? i = some k ∧ k.standing = .awaitingNews w) := by
    intro w test htest
    rw [mem_tasksWhere]
    apply exists_congr
    intro k
    rw [htest]
  rw [noticeNews, enqueue_queue, List.mem_append]
  apply or_congr_right
  constructor
  · intro hm
    obtain ⟨w, hw, hm⟩ := List.mem_flatMap.mp hm
    obtain ⟨j, hj, he⟩ := List.mem_map.mp hm
    cases he
    exact ⟨w, hw, (hwaiting w _ fun standing => by cases standing <;> simp).mp hj⟩
  · rintro ⟨w, hw, hk⟩
    refine List.mem_flatMap.mpr ⟨w, hw, List.mem_map_of_mem ?_⟩
    exact (hwaiting w _ fun standing => by cases standing <;> simp).mpr hk

namespace Waiters

/-- Those whose waits were released will be resumed. -/
theorem notify {waits : List WaitId} (h : Waiters (hand ++ s.queue) s)
    (htasks : t.tasks = s.tasks) (hqueue : t.queue = s.queue)
    (hn : s.engine.updates.Notifies t.engine.updates waits) :
    Waiters (hand ++ (t.noticeNews waits).queue) (t.noticeNews waits) := by
  have htask := task?_congr htasks
  have hold : ∀ {m}, m ∈ hand ++ s.queue → m ∈ hand ++ (t.noticeNews waits).queue := by
    intro m hm
    rw [noticeNews, enqueue_queue, hqueue, ← List.append_assoc]
    exact List.mem_append_left _ hm
  refine ⟨?_, ?_, ?_, ?_⟩
  · intro i k hk hq
    exact hold (h.queued i k (htask i ▸ hk) hq)
  · intro i k w hk hw
    obtain ⟨hask, he⟩ := h.waiting i k w (htask i ▸ hk) hw
    refine ⟨hask, ?_⟩
    rcases he with ⟨file, hat⟩ | ⟨hr, hm⟩
    · refine (hn.expected file w hat).imp (⟨file, ·⟩) fun hr => ⟨hr.1, ?_⟩
      exact List.mem_append_right _ (resume_mem_noticeNews.mpr (.inr ⟨w, hr.2, k, hk, hw⟩))
    · exact .inr ⟨hn.released w hr, hold hm⟩
  · exact fun i k hk => h.aloof i k (htask i ▸ hk)
  · intro i hi
    have hcases : .resume i ∈ hand ++ s.queue ∨
        ∃ w ∈ waits, ∃ k, t.task? i = some k ∧ k.standing = .awaitingNews w := by
      rcases List.mem_append.mp hi with hi | hi
      · exact .inl (List.mem_append_left _ hi)
      · rw [← hqueue]
        exact (resume_mem_noticeNews.mp hi).imp_left (List.mem_append_right _)
    rcases hcases with hi | ⟨w, hw, k, hk, hs⟩
    · obtain ⟨k, hk, hq, hr⟩ := h.resumes i hi
      exact ⟨k, (htask i).trans hk, hq, fun w hw => hn.released w (hr w hw)⟩
    · refine ⟨k, hk, fun hq => (by cases hs.symm.trans hq), fun w' hw' => ?_⟩
      cases hs.symm.trans hw'
      exact hn.ended w hw

/-- A task that begins to wait is known to the waits of the engine. -/
theorem await (h : Waiters (.begin id :: ns) s) (hk : s.task? id = some k)
    (hq : k.standing = .queued) (ha : k.request.AsksNews) (file : Text) :
    Waiters ns (s.awaitNews id file) := by
  have hstatus : ∀ {w status}, s.engine.updates.book.status? w = some status →
      (s.awaitNews id file).engine.updates.book.status? w = some status :=
    fun hs => Updates.status?_waitFor hs
  have htasks : (s.awaitNews id file).tasks =
      (s.setStanding id (.awaitingNews (s.engine.updates.waitFor file).2)).tasks := rfl
  have hkept : ∀ {m}, m ∈ Notice.begin id :: ns → m ≠ .begin id → m ∈ ns :=
    fun hm hne => (List.mem_cons.mp hm).resolve_left hne
  refine ⟨?_, ?_, ?_, ?_⟩
  · intro i k' hk' hq'
    rcases task?_setStanding_cases htasks hk' with ⟨_, -, -, rfl⟩ | ⟨hi, hk'⟩
    · cases hq'
    · exact hkept (h.queued i k' hk' hq') fun he => hi (Notice.begin.inj he)
  · intro i k' w hk' hw
    rcases task?_setStanding_cases htasks hk' with ⟨k₀, hk₀, rfl, rfl⟩ | ⟨-, hk'⟩
    · cases hk.symm.trans hk₀
      cases hw
      exact ⟨ha, .inl ⟨file, Updates.expectsAt_waitFor ..⟩⟩
    · obtain ⟨hask, he⟩ := h.waiting i k' w hk' hw
      refine ⟨hask, ?_⟩
      rcases he with ⟨f, hat⟩ | ⟨hr, hm⟩
      · exact .inl ⟨f, hat.waitFor⟩
      · exact .inr ⟨hstatus hr, hkept hm (fun he => by cases he)⟩
  · intro i k' hk' ho
    rcases task?_setStanding_cases htasks hk' with ⟨_, -, -, rfl⟩ | ⟨-, hk'⟩
    · cases ho
    · exact h.aloof i k' hk' ho
  · intro i hi
    obtain ⟨k', hk', hq', hr⟩ := h.resumes i (List.mem_cons_of_mem _ hi)
    have he : i ≠ id := by
      rintro rfl
      cases hk.symm.trans hk'
      exact hq' hq
    exact ⟨k', (task?_setStanding_of_ne htasks i he).trans hk', hq',
      fun w hw => hstatus (hr w hw)⟩

end Waiters

end VerifierHost.Session
