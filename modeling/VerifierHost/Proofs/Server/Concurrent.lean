import VerifierHost.Proofs.Server.Absent
import VerifierHost.Proofs.Server.Joining

/-! # Concurrent callers

A caller that has joined a startup gives up for itself alone: with and without that a session goes
the same way for everybody else (`Mirrored`). -/

namespace VerifierHost

/-- What comes from outside a session, and not from one of its callers. -/
def Incident.others (id : TaskId) : Incident → Bool
  | .act (.ask _) | .act (.feed ..) | .act (.exit ..) => true
  | .act .step => false
  | .cancel j => j ≠ id

namespace Session

variable {s t u : Session} {x : Incident} {xs before later : List Incident} {id i j : TaskId}
  {k : Task} {answer : Answer}

/-- A caller that has joined a startup, or has ended. -/
def Enrolled (s : Session) (id : TaskId) : Prop :=
  (∃ i, s.Partakes i id) ∨ ∃ answer, s.task? id = some ⟨.ensureReady, .ended answer⟩

theorem Enrolled.task (h : s.Enrolled id) :
    ∃ standing, s.task? id = some ⟨.ensureReady, standing⟩ ∧ standing.Passive := by
  rcases h with ⟨i, hj | ⟨answer, -, hj | hj⟩⟩ | ⟨answer, hj⟩
  all_goals exact ⟨_, hj, trivial⟩

theorem Convened.unawaited (h : Convened s) (hj : s.Enrolled id) (j : TaskId) (k : Task)
    (hk : s.task? j = some k) : k.standing ≠ .awaitingStartup id := by
  obtain ⟨standing, hid, -⟩ := hj.task
  intro hs
  obtain ⟨-, ki, hki, hr, -⟩ := h.linked.waits j k id hk hs
  cases hid.symm.trans hki
  cases hr

theorem Convened.enrolled (h : Convened s) (hx : s.Permits x) (hj : s.Enrolled id) :
    (s.meet x).Enrolled id := by
  have hkeeps := (h.proceeds hx).keeps
  rcases hj with ⟨i, hp⟩ | ⟨answer, hk⟩
  · by_cases hx' : x = .cancel id
    · subst hx'
      show (s.cancel id).Enrolled id
      rcases h.cancel_eq hx with ⟨-, he⟩ | ⟨k, hk, -, -, he⟩
      · rw [he]
        exact .inl ⟨i, hp⟩
      · obtain ⟨standing, hk', -⟩ := Enrolled.task (.inl ⟨i, hp⟩)
        cases hk.symm.trans hk'
        rw [he]
        exact .inr ⟨_, task?_setStanding_self hk rfl⟩
    · exact .inl ⟨i, h.partakes hx hx' hp⟩
  · exact .inr ⟨answer, hkeeps id _ hk rfl⟩

/-- A step of the caller is none without it. -/
theorem Convened.step_isFor (h : Convened s) (hj : s.Enrolled id) {n : Notice}
    {rest : List Notice} (hq : s.queue = n :: rest) (hn : n.isFor id = true) :
    s.step.without id = s.without id ∧ ∃ more, s.step.queue = rest ++ more := by
  obtain ⟨standing, hk, hs⟩ := hj.task
  have hsame : { s with queue := rest }.without id = s.without id := by
    have hfilter : s.queue.filter (fun n => !n.isFor id) = rest.filter fun n => !n.isFor id := by
      rw [hq, List.filter_cons_of_neg]
      rw [hn]
      exact Bool.false_ne_true
    unfold without
    rw [hfilter]
    rfl
  have hmoves : MovesOnly id { s with queue := rest } s.step := by
    rw [step_cons hq]
    cases n with
    | startupEnded j =>
      obtain rfl : j = id := of_decide_eq_true hn
      exact .startupEnded _ j
    | resume j =>
      obtain rfl : j = id := of_decide_eq_true hn
      exact .resume hk hs (h.unawaited hj)
    | _ => cases hn
  exact ⟨hmoves.without_eq.trans hsame, hmoves.queue⟩

/-- A session gets to where what is next to notice is for others. -/
theorem Convened.clears (h : Convened s) (hj : s.Enrolled id) {pre rest : List Notice} {n : Notice}
    (hq : s.queue = pre ++ n :: rest) (hpre : ∀ m ∈ pre, m.isFor id = true) :
    ∃ later rest', s.Sharing later ∧ (∀ x ∈ later, x = .act .step) ∧
      (s.meeting later).queue = n :: rest' ∧ (s.meeting later).without id = s.without id := by
  induction pre generalizing s rest with
  | nil => exact ⟨[], rest, trivial, nofun, hq, rfl⟩
  | cons m pre ih =>
    obtain ⟨hsame, more, hq'⟩ := h.step_isFor hj hq (hpre m List.mem_cons_self)
    have hx : s.Permits (.act .step) := trivial
    obtain ⟨later, rest', hl, hsteps, hqueue, hthere⟩ := ih (s := s.step) (h.meet hx).1
      (h.enrolled hx hj) (hq'.trans (List.append_assoc pre (n :: rest) more))
      fun m hm => hpre m (List.mem_cons_of_mem _ hm)
    exact ⟨.act .step :: later, rest', ⟨hx, hl⟩,
      List.forall_mem_cons.mpr ⟨rfl, hsteps⟩, hqueue, hthere.trans hsame⟩

end Session

end VerifierHost
