import VerifierHost.Proofs.Server.Sharing

/-! # A caller that has given up

A session goes on in the same way without a caller that only waits for its startup, or has ended:
taking that caller away (`Session.without`) commutes with all that the others do. -/

namespace VerifierHost

/-- A caller that has joined a startup, or has ended. -/
def Standing.Passive : Standing → Prop
  | .awaitingStartup _ | .startupCame _ | .ended _ => True
  | _ => False

/-- A notice that tells a task of the end of its startup or lets it go on. -/
def Notice.isFor (id : TaskId) : Notice → Bool
  | .startupEnded j | .resume j => j = id
  | _ => false

namespace Session

/-- A session in which a caller has given up, and is not told anything any more. -/
def without (s : Session) (id : TaskId) : Session :=
  { s.setStanding id (.ended (.failed .cancelled)) with
    queue := s.queue.filter fun n => !n.isFor id }

variable {s t u : Session} {id i j : TaskId} {k : Task} {answer : Answer} {standing : Standing}
  {notices : List Notice}

theorem enqueue_without (s : Session) (id : TaskId) (notices : List Notice) :
    (s.enqueue notices).without id =
      (s.without id).enqueue (notices.filter fun n => !n.isFor id) := by
  simp [without, enqueue, setStanding]

section Passive

variable (hid : ∀ k, s.task? id = some k → k.standing.Passive)

include hid

end Passive

/-- From one session to another nobody has moved but one task, and only that has something to
notice. -/
def MovesOnly (id : TaskId) (s t : Session) : Prop :=
  t = s ∨ ∃ standing more,
    t = (s.setStanding id standing).enqueue more ∧ ∀ m ∈ more, m.isFor id = true

theorem MovesOnly.startupEnded (s : Session) (id : TaskId) : MovesOnly id s (s.startupEnded id) := by
  unfold Session.startupEnded
  split
  next =>
    split
    next =>
      refine .inr ⟨_, _, rfl, fun m hm => ?_⟩
      rw [List.mem_singleton.mp hm]
      exact decide_eq_true rfl
    next => exact .inl rfl
  next => exact .inl rfl

/-- A caller that goes on with what its startup has come to ends with that. -/
theorem MovesOnly.resume (hk : s.task? id = some ⟨.ensureReady, standing⟩)
    (hs : standing.Passive)
    (hawaited : ∀ j k, s.task? j = some k → k.standing ≠ .awaitingStartup id) :
    MovesOnly id s (s.resume id) := by
  cases standing with
  | startupCame answer =>
    have hresume : s.resume id = s.endTask id answer := by
      unfold Session.resume useServer
      rw [hk]
      rfl
    rw [hresume, endTask, tasksWhere_awaitsStartup hawaited]
    exact .inr ⟨_, [], rfl, List.forall_mem_nil _⟩
  | awaitingStartup | ended =>
    refine .inl ?_
    unfold Session.resume
    rw [hk]
    rfl
  | _ => exact hs.elim

theorem MovesOnly.without_eq (h : MovesOnly id s t) : t.without id = s.without id := by
  rcases h with rfl | ⟨standing, more, rfl, hmore⟩
  · rfl
  · have hnone : more.filter (fun n => !n.isFor id) = [] :=
      List.filter_eq_nil_iff.mpr fun m hm => by rw [hmore m hm]; exact Bool.false_ne_true
    rw [enqueue_without, hnone, enqueue_nil]
    simp only [without, setStanding, List.modify_modify_eq]
    rfl

theorem MovesOnly.queue (h : MovesOnly id s t) : ∃ more, t.queue = s.queue ++ more := by
  rcases h with rfl | ⟨standing, more, rfl, -⟩
  · exact ⟨[], (List.append_nil _).symm⟩
  · exact ⟨more, rfl⟩

end Session

end VerifierHost
