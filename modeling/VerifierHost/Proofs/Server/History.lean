import Mathlib.Data.List.Induction
import VerifierHost.Proofs.Process.Pipes
import VerifierHost.Proofs.Session.Steps

/-! # Histories with stops

Besides all that happens to a session by itself its server may be stopped, at any moment. A process
ends either before its waiter is about to look or after that (`Session.Timely`), so that whoever
reads its streams comes before the waiter. -/

namespace VerifierHost

namespace Task

variable {k : Task}

theorem hasEnded_iff : k.hasEnded = true ↔ k.standing.IsEnded := by
  unfold hasEnded answer?
  cases k.standing with
  | ended => exact iff_of_true rfl trivial
  | _ => exact iff_of_false Bool.false_ne_true not_false

theorem hasEnded_eq_false {standing : Standing} (hs : k.standing = standing)
    (hopen : ¬ standing.IsEnded) : k.hasEnded = false :=
  Bool.eq_false_iff.mpr fun he => hopen (hs ▸ hasEnded_iff.mp he)

end Task

inductive Happening where
  | act (action : Action)
  /-- The shared server is stopped. -/
  | stop

namespace Session

def undergo (s : Session) : Happening → Session
  | .act a => s.act a
  | .stop => s.stopServer.1

def through (s : Session) (hs : List Happening) : Session := hs.foldl undergo s

/-- Nothing happens out of turn: no process ends while its waiter is about to look. -/
def Timely (s : Session) : Happening → Prop
  | .act (.exit pid _ _) => .wake (.exit pid) ∉ s.queue
  | .act _ | .stop => True

instance (s : Session) : DecidablePred s.Timely
  | .act (.exit pid _ _) => inferInstanceAs (Decidable (.wake (.exit pid) ∉ s.queue))
  | .act (.ask _) | .act (.feed ..) | .act .step | .stop => .isTrue trivial

/-- All that happens is timely. -/
def Orderly (s : Session) : List Happening → Prop
  | [] => True
  | x :: rest => s.Timely x ∧ (s.undergo x).Orderly rest

instance decidableOrderly : (s : Session) → (hs : List Happening) → Decidable (s.Orderly hs)
  | _, [] => .isTrue trivial
  | s, x :: rest =>
    have := decidableOrderly (s.undergo x) rest
    inferInstanceAs (Decidable (s.Timely x ∧ (s.undergo x).Orderly rest))

/-- What a happening adds to what a process has printed: all that it holds when it was started by
that, and otherwise the chunk it writes. -/
def prints (s : Session) (pid : Pid) (x : Happening) : List Text.Bytes :=
  if (s.world.process? pid).isNone then (s.undergo x).world.unread pid .stdout
  else
    match x with
    | .act (.feed p .stdout chunk) => if p = pid ∧ s.world.canWrite pid .stdout then [chunk] else []
    | _ => []

/-- All that a process has printed. -/
def printed (s : Session) (pid : Pid) : List Happening → List Text.Bytes
  | [] => []
  | x :: rest => s.prints pid x ++ (s.undergo x).printed pid rest

/-! ## Histories grow at their ends -/

@[simp] theorem through_concat (s : Session) (hs : List Happening) (x : Happening) :
    s.through (hs ++ [x]) = (s.through hs).undergo x := by
  simp [through]

theorem through_append (s : Session) (hs more : List Happening) :
    s.through (hs ++ more) = (s.through hs).through more := List.foldl_append

theorem orderly_append {s : Session} {hs more : List Happening} :
    s.Orderly (hs ++ more) ↔ s.Orderly hs ∧ (s.through hs).Orderly more := by
  induction hs generalizing s with
  | nil => simp [Orderly, through]
  | cons x rest ih =>
    rw [List.cons_append, Orderly, Orderly, ih, and_assoc]
    rfl

theorem printed_concat (s : Session) (pid : Pid) (hs : List Happening) (x : Happening) :
    s.printed pid (hs ++ [x]) = s.printed pid hs ++ (s.through hs).prints pid x := by
  induction hs generalizing s with
  | nil => simp [printed, through]
  | cons y rest ih =>
    rw [List.cons_append, printed, printed, ih, List.append_assoc]
    rfl

/-- What holds at the start and survives whatever happens in time holds throughout. -/
theorem through_induction {s : Session} {P : List Happening → Session → Prop} (start : P [] s)
    (undergo : ∀ hs x, (s.through hs).Timely x → P hs (s.through hs) →
      P (hs ++ [x]) ((s.through hs).undergo x)) {hs : List Happening} (h : s.Orderly hs) :
    P hs (s.through hs) := by
  induction hs using List.reverseRecOn with
  | nil => exact start
  | append_singleton hs x ih =>
    obtain ⟨hbefore, htimely, -⟩ := orderly_append.mp h
    rw [through_concat]
    exact undergo hs x htimely (ih hbefore)

/-! ## A stop is no harm -/

/-- The startup under way is the task of one. -/
def KnowsStartup (s : Session) : Prop :=
  ∀ id, s.startup = some id → ∃ k, s.task? id = some k ∧ k.request = .startup

variable {s : Session} {notices : List Notice} {id : TaskId} {k : Task}

/-- A startup runs no verifier and waits for no news. -/
theorem Sound.startup_standing (h : Sound notices s) (hk : s.task? id = some k)
    (hr : k.request = .startup) :
    k.standing = .queued ∨ k.standing.OnServer ∨ k.standing.IsEnded := by
  have hrun : k.standing.runs? = none := by
    cases hs : k.standing.runs? with
    | none => rfl
    | some pid =>
      have hv := (h.runners.tasks id k pid hk hs).1
      rw [hr] at hv
      cases hv
  cases hs : k.standing with
  | queued => exact .inl rfl
  | awaitingNews w =>
    have ha := (h.waiters.waiting id k w hk hs).1
    rw [hr] at ha
    cases ha
  | ended => exact .inr (.inr trivial)
  | awaitingOutput => rw [hs] at hrun; cases hrun
  | awaitingExit => rw [hs] at hrun; cases hrun
  | _ => exact .inr (.inl trivial)

theorem giveUp_same (s : Session) (standing : Standing) :
    (s.giveUp standing).tasks = s.tasks ∧ (s.giveUp standing).startup = s.startup := by
  cases standing <;> exact ⟨rfl, rfl⟩

/-- Whoever runs no verifier and waits for no news gives up two waits for the server, if any. -/
theorem giveUp_cases (s : Session) {standing : Standing}
    (h : standing = .queued ∨ standing.OnServer ∨ standing.IsEnded) :
    s.giveUp standing = s ∨ ∃ ready crashed, s.giveUp standing =
      s.setSupervisor ((s.server.supervisor.cancelWait ready).cancelWait crashed) [] := by
  cases standing with
  | awaitingPhase ready crashed => exact .inr ⟨ready, crashed, rfl⟩
  | phaseCame ready crashed => exact .inr ⟨ready, crashed, rfl⟩
  | queued | awaitingStartup | startupCame | ended => exact .inl rfl
  | _ =>
    rcases h with h | h | h
    · cases h
    · cases h
    · cases h

/-- A task that runs nothing and waits for no news can be cancelled. -/
theorem cancel_aside (h : ∀ k, s.task? id = some k →
    k.standing = .queued ∨ k.standing.OnServer ∨ k.standing.IsEnded) :
    Aside s (s.cancel id) := by
  unfold cancel
  split
  next => exact .refl s
  next k hk =>
    split
    next => exact .refl s
    next hopen =>
      have hgiven : Aside s (s.giveUp k.standing) := by
        rcases s.giveUp_cases (h k hk) with he | ⟨ready, crashed, he⟩
        · rw [he]
          exact .refl s
        · rw [he]
          exact .setSupervisor (.inl rfl) fun _ hr => hr
      refine hgiven.trans (Aside.endTask fun k' hk' => ?_)
      rw [task?_congr (s.giveUp_same k.standing).1, hk] at hk'
      cases hk'
      rcases h k hk with hq | ho | he
      · exact .inl hq
      · exact .inr ho
      · exact absurd (Task.hasEnded_iff.mpr he) hopen

theorem stopSupervised_startup (s : Session) : s.stopSupervised.1.startup = s.startup := by
  unfold stopSupervised
  cases s.server.supervisor.doomed with
  | none => dsimp only; split <;> rfl
  | some pid => dsimp only; split <;> rfl

/-- The address that the server has told is forgotten. -/
def unannounced (s : Session) : Session := { s with server := { s.server with announced := none } }

/-- A stop ends the startup under way and then stops the supervised process. -/
theorem stopServer_cases (s : Session) :
    ∃ u, s.stopServer = { u with startup := none }.stopSupervised ∧
      (s.startup = none ∧ u = s.unannounced ∨
        ∃ id, s.startup = some id ∧ u = s.unannounced.cancel id) := by
  cases hid : s.startup with
  | none =>
    refine ⟨s.unannounced, ?_, .inl ⟨rfl, rfl⟩⟩
    simp only [stopServer, hid, unannounced]
  | some id =>
    refine ⟨s.unannounced.cancel id, ?_, .inr ⟨id, rfl, rfl⟩⟩
    simp only [stopServer, hid, unannounced]

theorem unannounced_aside (s : Session) : Aside s s.unannounced :=
  .of_server rfl rfl rfl rfl rfl rfl fun _ h => h

theorem stopServer_startup (s : Session) : s.stopServer.1.startup = none := by
  obtain ⟨u, he, -⟩ := s.stopServer_cases
  rw [he]
  exact stopSupervised_startup _

theorem stopServer_aside (h : Sound notices s) (hstartup : s.KnowsStartup) :
    Aside s s.stopServer.1 := by
  obtain ⟨u, he, hu⟩ := s.stopServer_cases
  have hcancelled : Aside s u := by
    rcases hu with ⟨-, rfl⟩ | ⟨id, hid, rfl⟩
    · exact s.unannounced_aside
    · refine s.unannounced_aside.trans (cancel_aside fun k hk => ?_)
      obtain ⟨k', hk', hr⟩ := hstartup id hid
      cases hk.symm.trans hk'
      exact h.startup_standing hk hr
  have hleft : Aside u { u with startup := none } :=
    .of_server rfl rfl rfl rfl rfl rfl fun _ h => h
  rw [he]
  exact hcancelled.trans (hleft.trans (.stopSupervised _))

end Session

end VerifierHost
