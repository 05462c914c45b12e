import Mathlib.Data.List.Nodup
import VerifierHost.Proofs.Session.Aside
import VerifierHost.Proofs.Waiting.Updates

/-! # What holds between the steps of a session

Every run has one task, and something is about to move the run on: a notice in the queue, or a
reader or waiter at its process. Every task that waits for news is known to the waits of the engine,
or its wait was released and a notice will tell it. The notices are a parameter, so that a notice
that was just taken from the queue can still be counted while it is reacted to. -/

namespace VerifierHost

def Request.Verifies : Request → Prop
  | .verify .. | .run .. => True
  | _ => False

theorem Request.Verifies.not_asksNews {request : Request} (h : request.Verifies) :
    ¬ request.AsksNews := by
  cases request <;> first | exact not_false | cases h

def ActiveRun.endedTaps (r : ActiveRun) : Nat := r.stdout.ended.toNat + r.stderr.ended.toNat

/-- How a run goes on, by the standing of its task. While the streams are read, the ends that were
counted and those still in the queue make up the taps that have ended, and every other tap is about
to be woken or can be. -/
inductive Progress (notices : List Notice) (w : World) (r : ActiveRun) : Standing → Prop
  | reading {n : Nat} (counted : n + notices.count (.streamEnded r.pid) = r.endedTaps)
      (few : n ≤ 1)
      (woken : ∀ stream, (r.tap stream).ended = false →
        .wake (.output r.pid stream) ∈ notices ∨ w.Awaits r.pid stream) :
      Progress notices w r (.awaitingOutput r.pid n)
  | read {n : Nat} (noticed : .outputEnded r.pid ∈ notices) :
      Progress notices w r (.awaitingOutput r.pid n)
  | exiting (woken : .wake (.exit r.pid) ∈ notices ∨ w.AwaitsExit r.pid) :
      Progress notices w r (.awaitingExit r.pid)

theorem Progress.runs? {notices : List Notice} {w : World} {r : ActiveRun} {standing : Standing}
    (h : Progress notices w r standing) : standing.runs? = some r.pid := by
  cases h <;> rfl

/-- Once nothing is left to notice, the process of a run is alive. -/
theorem Progress.alive {w : World} {r : ActiveRun} {standing : Standing}
    (h : Progress [] w r standing) (hw : w.Sane) : ¬ w.HasEnded r.pid := by
  intro hended
  cases h with
  | reading counted few woken =>
    have hopen : ∃ stream, (r.tap stream).ended = false := by
      cases ho : r.stdout.ended with
      | false => exact ⟨.stdout, ho⟩
      | true =>
        cases he : r.stderr.ended with
        | false => exact ⟨.stderr, he⟩
        | true =>
          simp only [List.count_nil, ActiveRun.endedTaps, ho, he, Bool.toNat_true] at counted
          omega
    obtain ⟨stream, hs⟩ := hopen
    exact (woken stream hs).elim List.not_mem_nil (hw.not_awaits hended stream)
  | read noticed => exact List.not_mem_nil noticed
  | exiting woken => exact woken.elim List.not_mem_nil (hw.not_awaitsExit hended)

namespace Session

/-- Tasks, and the notices and waits that will move them on. -/
structure Waiters (notices : List Notice) (s : Session) : Prop where
  queued : ∀ id k, s.task? id = some k → k.standing = .queued → .begin id ∈ notices
  waiting : ∀ id k w, s.task? id = some k → k.standing = .awaitingNews w →
    k.request.AsksNews ∧ (s.engine.updates.Expects w ∨
      s.engine.updates.book.status? w = some .released ∧ .resume id ∈ notices)
  aloof : ∀ id k, s.task? id = some k → k.standing.OnServer → ¬ k.request.AsksNews
  resumes : ∀ id, .resume id ∈ notices → ∃ k, s.task? id = some k ∧ k.standing ≠ .queued ∧
    ∀ w, k.standing = .awaitingNews w → s.engine.updates.book.status? w = some .released

/-- Runs, and the tasks and processes that move them on. -/
structure Runners (notices : List Notice) (s : Session) : Prop where
  sane : s.world.Sane
  served : ∀ pid, s.Serves pid → pid ≤ s.world.processes.length
  known : ∀ r ∈ s.engine.runs, (s.world.process? r.pid).isSome
  apart : ∀ r ∈ s.engine.runs, ¬ s.Serves r.pid
  pids : s.engine.pids.Nodup
  numbers : (s.engine.runs.map ActiveRun.number).Nodup
  bounded : ∀ r ∈ s.engine.runs, r.number ≤ s.engine.runCount
  noticed : ∀ pid, .streamEnded pid ∈ notices → pid ≤ s.world.processes.length
  running : ∀ r ∈ s.engine.runs, ∃ id k, s.task? id = some k ∧
    Progress notices s.world r k.standing
  tasks : ∀ id k pid, s.task? id = some k → k.standing.runs? = some pid →
    k.request.Verifies ∧ pid ∈ s.engine.pids
  sole : ∀ i j ki kj pid, s.task? i = some ki → s.task? j = some kj →
    ki.standing.runs? = some pid → kj.standing.runs? = some pid → i = j

/-- Everybody is taken care of. -/
structure Sound (notices : List Notice) (s : Session) : Prop where
  waiters : Waiters notices s
  runners : Runners notices s

/-! ## Finding runs and their tasks -/

section Finding

variable {s : Session} {notices : List Notice} {pid : Pid} {id : TaskId} {r : ActiveRun}

theorem mem_tasksWhere {test : Standing → Bool} :
    id ∈ s.tasksWhere test ↔ ∃ k, s.task? id = some k ∧ test k.standing = true := by
  simp only [tasksWhere, List.mem_filter, List.mem_range, task?]
  constructor
  · rintro ⟨hlt, ht⟩
    rw [List.getElem?_eq_getElem hlt] at ht ⊢
    exact ⟨_, rfl, ht⟩
  · rintro ⟨k, hk, ht⟩
    refine ⟨(List.getElem?_eq_some_iff.mp hk).1, ?_⟩
    rw [hk]
    exact ht

theorem mem_awaitsStartup {i : TaskId} :
    i ∈ s.tasksWhere (awaitsStartup id) ↔
      ∃ k, s.task? i = some k ∧ k.standing = .awaitingStartup id := by
  refine mem_tasksWhere.trans (exists_congr fun k => and_congr_right fun _ => ?_)
  cases k.standing <;> simp [awaitsStartup]

theorem taskOfRun?_some (h : s.taskOfRun? pid = some id) :
    ∃ k, s.task? id = some k ∧ k.standing.runs? = some pid := by
  obtain ⟨k, hk, ht⟩ := mem_tasksWhere.mp (List.mem_of_mem_head? h)
  refine ⟨k, hk, ?_⟩
  cases hs : k.standing <;> simp_all [Standing.runs?]

theorem taskOfRun?_none (h : s.taskOfRun? pid = none) {k : Task} (hk : s.task? id = some k) :
    k.standing.runs? ≠ some pid := by
  intro hr
  have hnil := List.head?_eq_none_iff.mp h
  refine List.eq_nil_iff_forall_not_mem.mp hnil id (mem_tasksWhere.mpr ⟨k, hk, ?_⟩)
  cases hs : k.standing <;> simp_all [Standing.runs?]

theorem mem_runs_of_run? (h : s.engine.run? pid = some r) : r ∈ s.engine.runs ∧ r.pid = pid :=
  ⟨List.mem_of_find?_eq_some h, by simpa using List.find?_some h⟩

theorem not_mem_pids_of_run? (h : s.engine.run? pid = none) : pid ∉ s.engine.pids := by
  intro hm
  obtain ⟨r, hr, rfl⟩ := List.mem_map.mp hm
  simpa using List.find?_eq_none.mp h r hr

/-- No two runs have the same process. -/
theorem Runners.eq_of_pid (h : Runners notices s) {q : ActiveRun} (hr : r ∈ s.engine.runs)
    (hq : q ∈ s.engine.runs) (he : r.pid = q.pid) : r = q :=
  List.inj_on_of_nodup_map h.pids hr hq he

/-- A run is found by its process. -/
theorem Runners.run?_eq (h : Runners notices s) (hr : r ∈ s.engine.runs) :
    s.engine.run? r.pid = some r := by
  cases hf : s.engine.run? r.pid with
  | none => exact absurd (List.mem_map_of_mem hr) (not_mem_pids_of_run? hf)
  | some q =>
    obtain ⟨hq, he⟩ := mem_runs_of_run? hf
    rw [h.eq_of_pid hq hr he]

theorem Runners.le_length (h : Runners notices s) (hr : r ∈ s.engine.runs) :
    r.pid ≤ s.world.processes.length := by
  obtain ⟨p, hp⟩ := Option.isSome_iff_exists.mp (h.known r hr)
  exact h.sane.le_of_process? hp

end Finding

end Session

end VerifierHost
