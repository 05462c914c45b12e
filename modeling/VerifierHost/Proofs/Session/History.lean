import VerifierHost.Session.Control

/-! # What a session goes through

From outside a session is asked something, its processes write and end; in between it takes steps
of its own. A history is any sequence of these. -/

namespace VerifierHost

/-- The effects among what can be seen of a session. -/
def Event.effect? : Event → Option Effect
  | .shown effect => some effect
  | _ => none

/-- What can happen to a session that nobody stops. -/
inductive Action where
  | ask (request : Request)
  | feed (pid : Pid) (stream : Stream) (chunk : Text.Bytes)
  | exit (pid : Pid) (code : ExitCode) (time : Millis)
  | step

namespace Session

def act (s : Session) : Action → Session
  | .ask request => (s.addTask request).1
  | .feed pid stream chunk => s.feed pid stream chunk
  | .exit pid code time => s.exit pid code time
  | .step => s.step

def after (s : Session) (actions : List Action) : Session := actions.foldl act s

@[simp] theorem after_nil (s : Session) : s.after [] = s := rfl

@[simp] theorem after_concat (s : Session) (actions : List Action) (a : Action) :
    s.after (actions ++ [a]) = (s.after actions).act a := by
  simp [after]

theorem after_append (s : Session) (before later : List Action) :
    s.after (before ++ later) = (s.after before).after later :=
  List.foldl_append

/-- What holds at the start and survives whatever can happen holds after every history. -/
theorem after_induction {P : Session → Prop} {s : Session} (start : P s)
    (act : ∀ s a, P s → P (s.act a)) (actions : List Action) : P (s.after actions) := by
  induction actions generalizing s with
  | nil => exact start
  | cons a rest ih => exact ih (act s a start)

theorem step_nil {s : Session} (h : s.queue = []) : s.step = s := by
  rw [step, h]

theorem step_cons {s : Session} {n : Notice} {rest : List Notice} (h : s.queue = n :: rest) :
    s.step = { s with queue := rest }.react n := by
  rw [step, h]

/-- The effects that were shown so far. -/
def shown (s : Session) : List Effect := s.events.filterMap Event.effect?

/-! ## What the small steps change -/

section Fields

variable (s : Session) (notices : List Notice) (events : List Event) (effects : List Effect)
  (id : TaskId) (standing : Standing)

@[simp] theorem enqueue_queue : (s.enqueue notices).queue = s.queue ++ notices := rfl

@[simp] theorem record_queue : (s.record events).queue = s.queue := rfl

theorem record_shown : (s.record events).shown = s.shown ++ events.filterMap Event.effect? := by
  simp [shown, record]

@[simp] theorem showAll_shown : (s.showAll effects).shown = s.shown ++ effects := by
  rw [showAll, record_shown, List.filterMap_map]
  exact congrArg _ (List.filterMap_some ..)

@[simp] theorem setStanding_queue : (s.setStanding id standing).queue = s.queue := rfl

@[simp] theorem enqueue_nil : s.enqueue [] = s := by simp [enqueue]

@[simp] theorem showAll_nil : s.showAll [] = s := by simp [showAll, record]

theorem setStanding_task? (i : TaskId) :
    (s.setStanding id standing).task? i =
      if id = i then (s.task? i).map fun k => { k with standing } else s.task? i := by
  simp only [task?, setStanding, List.getElem?_modify]
  by_cases h : id = i
  · simp [h]
  · simp [h]

end Fields

theorem task?_congr {s t : Session} (h : t.tasks = s.tasks) (i : TaskId) :
    t.task? i = s.task? i := by
  rw [task?, h]; rfl

theorem setStanding_tasks_congr {s t : Session} (h : t.tasks = s.tasks) (id : TaskId)
    (standing : Standing) : (t.setStanding id standing).tasks = (s.setStanding id standing).tasks :=
  congrArg (List.modify · id _) h

theorem setStanding_task?_of {s : Session} {id : TaskId} {k : Task} (hk : s.task? id = some k)
    (standing : Standing) (i : TaskId) :
    (s.setStanding id standing).task? i =
      if id = i then some { k with standing } else s.task? i := by
  rw [setStanding_task?]
  by_cases hi : id = i
  · subst hi; rw [if_pos rfl, if_pos rfl, hk]; rfl
  · rw [if_neg hi, if_neg hi]

/-! ## One task goes on and no other does -/

section Turn

variable {s t : Session} {id i : TaskId} {k k' : Task} {standing : Standing}

theorem task?_setStanding_self (hk : s.task? id = some k)
    (htasks : t.tasks = (s.setStanding id standing).tasks) :
    t.task? id = some { k with standing } := by
  rw [task?_congr htasks, setStanding_task?_of hk, if_pos rfl]

theorem task?_setStanding_of_ne (htasks : t.tasks = (s.setStanding id standing).tasks)
    (i : TaskId) (hi : i ≠ id) : t.task? i = s.task? i := by
  rw [task?_congr htasks, setStanding_task?, if_neg (Ne.symm hi)]

/-- Whoever is there then is the task that went on, or was there before. -/
theorem task?_setStanding_cases (htasks : t.tasks = (s.setStanding id standing).tasks)
    (hk' : t.task? i = some k') :
    (∃ k, s.task? id = some k ∧ i = id ∧ k' = { k with standing }) ∨
      i ≠ id ∧ s.task? i = some k' := by
  by_cases hi : i = id
  · subst hi
    rw [task?_congr htasks, setStanding_task?, if_pos rfl, Option.map_eq_some_iff] at hk'
    obtain ⟨k, hk, rfl⟩ := hk'
    exact .inl ⟨k, hk, rfl, rfl⟩
  · exact .inr ⟨hi, (task?_setStanding_of_ne htasks i hi).symm.trans hk'⟩

end Turn

/-! ## A task is added -/

section Added

variable {s t : Session} {i : TaskId} {k : Task} {request : Request}

theorem task?_added_of_lt (htasks : t.tasks = s.tasks ++ [⟨request, .queued⟩])
    (hi : i < s.tasks.length) : t.task? i = s.task? i := by
  rw [task?, htasks]
  exact List.getElem?_append_left hi

theorem task?_added_of (htasks : t.tasks = s.tasks ++ [⟨request, .queued⟩])
    (hk : s.task? i = some k) : t.task? i = some k :=
  (task?_added_of_lt htasks (List.getElem?_eq_some_iff.mp hk).1).trans hk

theorem task?_addTask (hk : s.task? i = some k) (request : Request) :
    (s.addTask request).1.task? i = some k :=
  task?_added_of rfl hk

theorem task?_added_last (htasks : t.tasks = s.tasks ++ [⟨request, .queued⟩]) :
    t.task? s.tasks.length = some ⟨request, .queued⟩ := by
  rw [task?, htasks]
  exact List.getElem?_concat_length

theorem task?_added (htasks : t.tasks = s.tasks ++ [⟨request, .queued⟩])
    (i : TaskId) : t.task? i = s.task? i ∨
      s.task? i = none ∧ t.task? i = some ⟨request, .queued⟩ := by
  rcases Nat.lt_trichotomy i s.tasks.length with hlt | rfl | hgt
  · exact .inl (task?_added_of_lt htasks hlt)
  · exact .inr ⟨List.getElem?_eq_none (Nat.le_refl _), task?_added_last htasks⟩
  · refine .inl ?_
    unfold task?
    rw [htasks, List.getElem?_eq_none (Nat.le_of_lt hgt), List.getElem?_eq_none]
    rw [List.length_append]
    exact hgt

/-- Whoever is there then was there before, or is the one that was added. -/
theorem task?_added_cases (htasks : t.tasks = s.tasks ++ [⟨request, .queued⟩])
    (hk : t.task? i = some k) :
    s.task? i = some k ∨ i = s.tasks.length ∧ k = ⟨request, .queued⟩ := by
  rcases task?_added htasks i with hsame | ⟨hnone, hnew⟩
  · exact .inl (hsame.symm.trans hk)
  · cases hnew.symm.trans hk
    have hlt : i < t.tasks.length := (List.getElem?_eq_some_iff.mp hnew).1
    rw [htasks, List.length_append, List.length_singleton] at hlt
    exact .inr ⟨Nat.le_antisymm (Nat.le_of_lt_succ hlt) (List.getElem?_eq_none_iff.mp hnone), rfl⟩

end Added

end Session

end VerifierHost
