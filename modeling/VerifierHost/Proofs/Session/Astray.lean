import VerifierHost.Proofs.Session.Cancelling

/-! # Which processes nobody will kill

Every process that was started has ended, was killed, runs a verifier of a run or is held by the
supervisor, with one exception: once its task was cancelled a verifier is no run's, and if it was
not killed before that nobody will kill it (`Session.lost`). -/

namespace VerifierHost

/-- What can happen to a session whose server can be stopped besides. -/
inductive Occurrence where
  | meets (x : Incident)
  /-- The shared server is stopped. -/
  | stop

namespace Session

def endure (s : Session) : Occurrence → Session
  | .meets x => s.meet x
  | .stop => s.stopServer.1

def enduring (s : Session) (xs : List Occurrence) : Session := xs.foldl endure s

/-- The verifier that a cancelled task has run, unless that was killed before. -/
def loses? (s : Session) : Occurrence → Option Pid
  | .meets (.cancel id) =>
    ((s.task? id).bind fun k => k.standing.runs?).filter fun pid => pid ∉ s.killed
  | .meets (.act _) | .stop => none

/-- The verifiers that were lost in a history. -/
def lost (s : Session) : List Occurrence → List Pid
  | [] => []
  | x :: rest => (s.loses? x).toList ++ (s.endure x).lost rest

/-- A process that runs the verifier of a run or is held by the supervisor. -/
def Owned (s : Session) (pid : Pid) : Prop :=
  pid ∈ s.engine.pids ∨ s.server.supervisor.held = some pid

/-- The books are kept: whatever was started has ended, was killed, is owned or was lost, and what
was lost is out of reach. -/
structure Tally (lost : List Pid) (s : Session) : Prop where
  cover : ∀ pid ∈ s.spawned,
    s.world.HasEnded pid ∨ pid ∈ s.killed ∨ s.Owned pid ∨ pid ∈ lost
  astray : ∀ pid ∈ lost, pid ≤ s.world.processes.length ∧ pid ∉ s.killed ∧ ¬ s.Owned pid

variable {s t u : Session} {x : Occurrence} {xs : List Occurrence} {id : TaskId} {k : Task}
  {pid : Pid} {lost : List Pid}

@[simp] theorem enduring_concat (s : Session) (xs : List Occurrence) (x : Occurrence) :
    s.enduring (xs ++ [x]) = (s.enduring xs).endure x := by
  simp [enduring]

theorem lost_concat (s : Session) (xs : List Occurrence) (x : Occurrence) :
    s.lost (xs ++ [x]) = s.lost xs ++ ((s.enduring xs).loses? x).toList := by
  induction xs generalizing s with
  | nil => simp [Session.lost, enduring]
  | cons y rest ih =>
    rw [List.cons_append, Session.lost, ih, Session.lost, List.append_assoc]
    rfl

/-- From one session to another processes were killed that were owned, those that were started are
owned, and whatever is owned no more has ended or was killed. -/
structure Keeps (kills starts : List Pid) (s t : Session) : Prop where
  handles : Handles kills starts s t
  within : ∀ pid ∈ kills, s.Owned pid
  started : ∀ pid ∈ starts, t.Owned pid
  owned : ∀ pid, s.Owned pid → t.Owned pid ∨ s.world.HasEnded pid ∨ pid ∈ kills
  only : ∀ pid, t.Owned pid → s.Owned pid ∨ pid ∈ starts

/-- What a notice does to processes keeps them owned. -/
theorem Toll.keeps (h : Toll s t) : ∃ kills starts, Keeps kills starts s t := by
  cases h with
  | sustains hsame =>
    refine ⟨[], [], hsame.handles, nofun, nofun, fun pid howned => ?_, fun pid howned => .inl ?_⟩
    · rcases howned with hpid | hpid
      · exact (hsame.runs pid hpid).imp .inl .inl
      · exact hsame.held.imp (fun he => .inr (he.trans hpid)) fun hnone => .inl (hnone.2 pid hpid)
    · refine howned.imp (fun hpid => hsame.pids.subset hpid) fun hpid => ?_
      rcases hsame.held with he | ⟨hnone, -⟩
      · exact he.symm.trans hpid
      · cases hnone.symm.trans hpid
  | manages handles engine =>
    refine ⟨_, _, handles, fun pid hp => .inr (Option.mem_toList.mp hp),
      fun pid hp => .inr (Option.mem_toList.mp hp), fun pid howned => ?_, fun pid howned => ?_⟩
    · exact howned.imp (fun hpid => .inl (engine ▸ hpid)) fun hpid =>
        .inr (Option.mem_toList.mpr hpid)
    · exact howned.imp (fun hpid => .inl (engine ▸ hpid)) Option.mem_toList.mpr
  | @launches starts handles count pids server =>
    refine ⟨_, _, handles, fun pid hp => .inl hp,
      fun pid hp => .inl (pids ▸ List.mem_append_right _ hp), fun pid howned => ?_,
      fun pid howned => ?_⟩
    · rcases howned with hpid | hpid
      · exact .inr (.inr hpid)
      · exact .inl (.inr (server ▸ hpid))
    · rcases howned with hpid | hpid
      · rw [pids] at hpid
        exact (List.mem_append.mp hpid).imp_left .inl
      · exact .inl (.inr (server ▸ hpid))

namespace Tally

theorem keeps {kills starts : List Pid} (h : Tally lost s) (hs : s.world.Sane)
    (hk : Keeps kills starts s t) : Tally lost t := by
  refine ⟨fun pid hp => ?_, fun pid hp => ?_⟩
  · rw [hk.handles.spawned] at hp
    rw [hk.handles.killed, List.mem_append]
    rcases List.mem_append.mp hp with hp | hp
    · rcases h.cover pid hp with hended | hkilled | howned | hlost
      · exact .inl (hk.handles.ages.ended hs pid hended)
      · exact .inr (.inl (.inl hkilled))
      · rcases hk.owned pid howned with howned | hended | hkills
        · exact .inr (.inr (.inl howned))
        · exact .inl (hk.handles.ages.ended hs pid hended)
        · exact .inr (.inl (.inr hkills))
      · exact .inr (.inr (.inr hlost))
    · exact .inr (.inr (.inl (hk.started pid hp)))
  · obtain ⟨hle, hnot, hfree⟩ := h.astray pid hp
    refine ⟨Nat.le_trans hle hk.handles.ages.length, fun hkilled => ?_, fun howned => ?_⟩
    · rw [hk.handles.killed] at hkilled
      exact (List.mem_append.mp hkilled).elim hnot fun hkills => hfree (hk.within pid hkills)
    · rcases hk.only pid howned with howned | hstarted
      · exact hfree howned
      · exact Nat.not_le_of_lt ((hk.handles.fresh pid).mp hstarted).1 hle

theorem act (h : Tally lost s) (hc : s.Cared) (a : Action) : Tally lost (s.act a) := by
  obtain ⟨kills, starts, hk⟩ := (act_toll hc.guarded a).keeps
  exact h.keeps hc.sound.runners.sane hk

end Tally

/-! ## Requests are given up -/

theorem Quits.seen (h : Quits id k s t) : t.killed = s.killed ∧ t.spawned = s.spawned :=
  ⟨congrArg (List.filterMap Event.killed?) h.events,
    congrArg (List.filterMap Event.spawned?) h.events⟩

/-- A task that runs nothing leaves all processes alone. -/
theorem Quits.keeps (h : Quits id k s t) (hidle : k.standing.runs? = none) : Keeps [] [] s t := by
  obtain ⟨hworld, hpids⟩ : t.world = s.world ∧ t.engine.pids = s.engine.pids := by
    rw [h.result]
    cases hs : k.standing <;> rw [hs] at hidle <;> first | cases hidle; done | exact ⟨rfl, rfl⟩
  have howned : ∀ pid, t.Owned pid ↔ s.Owned pid := fun pid => by
    rw [Owned, Owned, hpids, h.server.held]
  exact ⟨.of_same hworld h.events, nofun, nofun, fun pid hp => .inl ((howned pid).mpr hp),
    fun pid hp => .inl ((howned pid).mp hp)⟩

/-- The process of a run that is dropped is let go. -/
theorem Quits.lets_go (h : Quits id k s t) (hrun : k.standing.runs? = some pid) :
    World.Touches pid s.world t.world ∧
      ∀ q, t.Owned q ↔ q ∈ s.engine.pids ∧ q ≠ pid ∨ s.server.supervisor.held = some q := by
  obtain ⟨hworld, hengine⟩ : t.world = s.world.abandon pid ∧ t.engine = s.engine.dropRun pid := by
    rw [h.result]
    cases hs : k.standing <;> rw [hs] at hrun <;> cases hrun <;> exact ⟨rfl, rfl⟩
  refine ⟨hworld ▸ World.touches_abandon .., fun q => ?_⟩
  rw [Owned, h.server.held, hengine]
  refine or_congr_left ⟨fun hq => ?_, fun ⟨hq, hne⟩ => ?_⟩
  · obtain ⟨r, hr, rfl⟩ := List.mem_map.mp hq
    obtain ⟨hr, hne⟩ := List.mem_filter.mp hr
    exact ⟨List.mem_map_of_mem hr, of_decide_eq_true hne⟩
  · obtain ⟨r, hr, rfl⟩ := List.mem_map.mp hq
    exact List.mem_map_of_mem (List.mem_filter.mpr ⟨hr, decide_eq_true hne⟩)

/-- Only one who runs a verifier loses one. -/
theorem loses?_idle (h : ∀ k, s.task? id = some k → k.standing.runs? = none) :
    s.loses? (.meets (.cancel id)) = none := by
  have hnone : (s.task? id).bind (fun k => k.standing.runs?) = none := by
    cases hk : s.task? id with
    | none => rfl
    | some k => exact h k hk
  rw [loses?, hnone]
  rfl

namespace Tally

/-- A verifier is lost if its task is cancelled before it was killed. -/
theorem quits (h : Tally lost s) (hc : s.Cared) (hq : Quits id k s t) :
    Tally (lost ++ (s.loses? (.meets (.cancel id))).toList) t := by
  have hloses : s.loses? (.meets (.cancel id)) =
      k.standing.runs?.filter fun pid => pid ∉ s.killed := by
    rw [loses?, hq.task]
    rfl
  cases hrun : k.standing.runs? with
  | none =>
    rw [hloses, hrun]
    exact (List.append_nil lost).symm ▸ h.keeps hc.sound.runners.sane (hq.keeps hrun)
  | some pid =>
    obtain ⟨htouch, howned⟩ := hq.lets_go hrun
    obtain ⟨hkilled, hspawned⟩ := hq.seen
    obtain ⟨-, hpid⟩ := hc.sound.runners.tasks id k pid hq.task hrun
    have hmem : ∀ q, q ∈ (s.loses? (.meets (.cancel id))).toList ↔ q = pid ∧ q ∉ s.killed := by
      intro q
      rw [hloses, hrun, Option.mem_toList, Option.filter_eq_some_iff]
      constructor
      · rintro ⟨he, hnot⟩
        exact ⟨(Option.some.inj he).symm, of_decide_eq_true hnot⟩
      · rintro ⟨rfl, hnot⟩
        exact ⟨rfl, decide_eq_true hnot⟩
    refine ⟨fun q hp => ?_, fun q hp => ?_⟩
    · rw [hspawned] at hp
      rw [hkilled, List.mem_append, hmem, howned]
      rcases h.cover q hp with hended | hk | hpids | hlost
      · exact .inl (htouch.ages.ended hc.sound.runners.sane q hended)
      · exact .inr (.inl hk)
      · rcases hpids with hpids | hheld
        · by_cases hk : q ∈ s.killed
          · exact .inr (.inl hk)
          · by_cases hne : q = pid
            · exact .inr (.inr (.inr (.inr ⟨hne, hk⟩)))
            · exact .inr (.inr (.inl (.inl ⟨hpids, hne⟩)))
        · exact .inr (.inr (.inl (.inr hheld)))
      · exact .inr (.inr (.inr (.inl hlost)))
    · rw [hkilled, htouch.length, howned]
      rcases List.mem_append.mp hp with hp | hp
      · obtain ⟨hle, hnot, hfree⟩ := h.astray q hp
        exact ⟨hle, hnot, fun hor => hfree (hor.imp_left And.left)⟩
      · obtain ⟨rfl, hnot⟩ := (hmem q).mp hp
        obtain ⟨r, hr, rfl⟩ := List.mem_map.mp hpid
        refine ⟨hc.sound.runners.le_length hr, hnot, fun hor => ?_⟩
        rcases hor with ⟨-, hne⟩ | hheld
        · exact hne rfl
        · exact hc.sound.runners.apart r hr (.inl hheld)

theorem cancel (h : Tally lost s) (hc : s.Cared) (id : TaskId) :
    Tally (lost ++ (s.loses? (.meets (.cancel id))).toList) (s.cancel id) := by
  rcases s.cancel_quits id with ⟨hover, he⟩ | ⟨k, hq⟩
  · have hnone : s.loses? (.meets (.cancel id)) = none := loses?_idle fun k hk => by
      have hended := Task.hasEnded_iff.mp (hover k hk)
      cases hs : k.standing <;> rw [hs] at hended <;> first | exact hended.elim | rfl
    rw [he, hnone]
    exact (List.append_nil lost).symm ▸ h
  · exact h.quits hc hq

end Tally

/-! ## The server is stopped -/

/-- **A stop succeeds** and kills the process that is held, and nothing is held any more. The
startup runs no verifier, so no run is dropped. -/
theorem Cared.stopServer_ok (h : s.Cared) : ∃ t, s.stopServer = (t, .ok ()) ∧
    Keeps s.server.supervisor.held.toList [] s t ∧ t.engine = s.engine ∧
    t.server.supervisor.state = .stopped ∧ t.server.supervisor.held = none := by
  have haside := stopServer_aside h.sound h.linked.startup
  obtain ⟨u, he, hu⟩ := s.stopServer_cases
  obtain ⟨hg, hheld, hleft⟩ : u.server.supervisor.Guarded ∧
      u.server.supervisor.held = s.server.supervisor.held ∧ Handles [] [] s u := by
    have hsame : Handles [] [] s s.unannounced := .of_same rfl rfl
    rcases hu with ⟨-, rfl⟩ | ⟨i, hi, rfl⟩
    · exact ⟨h.guarded, rfl, hsame⟩
    · rcases s.unannounced.cancel_quits i with ⟨-, hstays⟩ | ⟨k, hq⟩
      · rw [hstays]
        exact ⟨h.guarded, rfl, hsame⟩
      · obtain ⟨k', hk', hr⟩ := h.linked.startup i hi
        cases hq.task.symm.trans hk'
        have hidle : k.standing.runs? = none := by
          rcases h.sound.startup_standing hk' hr with hs | hs | hs <;>
            cases hst : k.standing <;> rw [hst] at hs <;> first | rfl | exact hs.elim | cases hs
        exact ⟨h.guarded.same hq.server, hq.server.held, hsame.before (hq.keeps hidle).handles⟩
  obtain ⟨t, ht, handles, -, hstate, hnone⟩ :=
    stopSupervised_ok (s := { u with startup := none }) hg
  have hall : Handles s.server.supervisor.held.toList [] s t := by
    rw [← hheld]
    exact hleft.after (handles.of_start (s := u) rfl rfl)
  rw [he, ht] at haside
  have hengine := haside.engine
  refine ⟨t, he.trans ht, ⟨hall, fun pid hp => .inr (Option.mem_toList.mp hp), nofun,
    fun pid howned => ?_, fun pid howned => .inl ?_⟩, hengine, hstate, hnone⟩
  · exact howned.imp (fun hpid => .inl (hengine ▸ hpid)) fun hpid =>
      .inr (Option.mem_toList.mpr hpid)
  · refine howned.imp (fun hpid => hengine ▸ hpid) fun hpid => ?_
    cases hnone.symm.trans hpid

/-! ## Whatever happens -/

theorem launch_attached (s : Session) (id : TaskId) (path : Text) (target : VerificationTarget)
    (address : Text) : (s.launch id path target address).attached = s.attached := by
  obtain ⟨u, hb, ⟨invocation, he⟩ | ⟨fault, he⟩⟩ := s.launch_cases id path target address
  · rw [he]
    refine Eq.trans ?_ hb.attached
    rcases u.startVerifier_cases id invocation target (shownName path) with
      ⟨w, pid, event, -, -, hs⟩ | ⟨v, haside, -, -, hs⟩
    · rw [hs]
      rfl
    · rw [hs]
      exact (conclude_same ..).2.2.1.trans haside.attached
  · rw [he]
    exact hb.attached

/-- An editor that reaches the engine goes on doing so. -/
theorem Course.attached {n : Notice} (h : Course n s t) : t.attached = s.attached := by
  cases h with
  | aside aside => exact aside.attached
  | waits | awaits => rfl
  | answers =>
    obtain ⟨findings, answer, he⟩ := s.answerNews_eq _
    rw [he]
    rfl
  | launches => exact launch_attached ..
  | reads =>
    unfold readVerifier
    split
    next => rfl
    next => dsimp only; split <;> rfl
  | counts => split <;> rfl
  | finishes => exact (conclude_same ..).2.2.1

theorem Cared.attached (h : s.Cared) (x : Occurrence) : (s.endure x).attached = s.attached := by
  cases x with
  | stop => exact (stopServer_aside h.sound h.linked.startup).attached
  | meets x =>
    cases x with
    | cancel id =>
      show (s.cancel id).attached = s.attached
      rcases s.cancel_quits id with ⟨-, he⟩ | ⟨k, hq⟩
      · rw [he]
      · rw [hq.result]
        cases k.standing <;> rfl
    | act a =>
      cases a with
      | ask | feed | exit => rfl
      | step =>
        rcases step_course h.sound with he | ⟨n, rest, -, hc, -⟩
        · exact congrArg Session.attached he
        · exact hc.attached

theorem Cared.endure (h : s.Cared) (x : Occurrence) : (s.endure x).Cared := by
  cases x with
  | stop => exact h.stop
  | meets x =>
    cases x with
    | act a => exact h.act a
    | cancel id => exact h.cancel id

/-- **Whatever happens** the books are kept. -/
theorem Tally.endure (h : Tally lost s) (hc : s.Cared) (x : Occurrence) :
    Tally (lost ++ (s.loses? x).toList) (s.endure x) := by
  cases x with
  | stop =>
    obtain ⟨t, he, hk, -⟩ := hc.stopServer_ok
    show Tally (lost ++ []) s.stopServer.1
    rw [he, List.append_nil]
    exact h.keeps hc.sound.runners.sane hk
  | meets x =>
    cases x with
    | act a => exact (List.append_nil lost).symm ▸ h.act hc a
    | cancel id => exact h.cancel hc id

theorem Fresh.enduring (h : s.Fresh) (xs : List Occurrence) : (s.enduring xs).Cared ∧
    Tally (s.lost xs) (s.enduring xs) ∧ (s.enduring xs).attached = s.attached := by
  induction xs using List.reverseRecOn with
  | nil =>
    refine ⟨h.cared, ?_, rfl⟩
    obtain ⟨_, _, _, _, _, _, _, _, _, rfl⟩ := h
    exact ⟨nofun, nofun⟩
  | append_singleton before x ih =>
    obtain ⟨hc, ht, ha⟩ := ih
    rw [enduring_concat, lost_concat]
    exact ⟨hc.endure x, ht.endure hc x, (hc.attached x).trans ha⟩

end Session

end VerifierHost
