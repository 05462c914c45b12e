import VerifierHost.Server.Address

/-! # What a supervisor keeps

A supervisor holds a process exactly in its live states, and all that it reads are the streams of
that process. So none of its moves is refused: each has one outcome, which the lemmas below name.
The only exception are the readers of a process that crashes, which have to be gone by then. -/

namespace VerifierHost

namespace Phases

variable {σ : Type} [DecidableEq σ] {p : Phases σ} {state : σ}

theorem set?_eq (h : state ∈ p.states) : ∃ p' ended, p.set? state = some (p', ended) ∧
    p'.current = state ∧ p'.states = p.states := by
  unfold set?
  rw [if_pos h]
  split
  next => exact ⟨_, _, rfl, rfl, rfl⟩
  next => exact ⟨_, _, rfl, rfl, rfl⟩

end Phases

theorem ServerState.mem_all (state : ServerState) : state ∈ ServerState.all := by
  cases state <;> decide

namespace Supervisor

/-- A process is held exactly in the live states. -/
structure Guarded (s : Supervisor) : Prop where
  states : s.phases.states = ServerState.all
  guard : s.held.isSome = s.state.isLive

/-- A process is held exactly in the live states, and each stream that is read is one of its own. -/
structure Kept (s : Supervisor) : Prop where
  states : s.phases.states = ServerState.all
  guard : s.held.isSome = s.state.isLive
  readers : ∀ r ∈ s.readers, s.held = some r.pid
  sole : (s.readers.map StreamReader.stream).Nodup

/-- Two supervisors differ at most in who waits for their states. -/
structure Same (s t : Supervisor) : Prop where
  name : t.name = s.name
  states : t.phases.states = s.phases.states
  state : t.state = s.state
  held : t.held = s.held
  readers : t.readers = s.readers

variable {s t u : Supervisor} {pid : Pid} {state : ServerState}

theorem Same.refl (s : Supervisor) : Same s s := ⟨rfl, rfl, rfl, rfl, rfl⟩

theorem Same.trans (h : Same s t) (h' : Same t u) : Same s u :=
  ⟨h'.name.trans h.name, h'.states.trans h.states, h'.state.trans h.state, h'.held.trans h.held,
    h'.readers.trans h.readers⟩

theorem Kept.same (h : s.Kept) (hst : Same s t) : t.Kept := by
  refine ⟨hst.states.trans h.states, ?_, ?_, ?_⟩
  · rw [hst.held, hst.state]; exact h.guard
  · rw [hst.held, hst.readers]; exact h.readers
  · rw [hst.readers]; exact h.sole

theorem same_waitFor (s : Supervisor) (state : ServerState) : Same s (s.waitFor state).1 := by
  unfold waitFor
  split
  next phases id ended h =>
    unfold Phases.waitFor? at h
    split at h
    · split at h
      · cases h; exact ⟨rfl, rfl, rfl, rfl, rfl⟩
      · cases h; exact ⟨rfl, rfl, rfl, rfl, rfl⟩
    · cases h
  next => exact ⟨rfl, rfl, rfl, rfl, rfl⟩

theorem same_cancelWait (s : Supervisor) (id : WaitId) : Same s (s.cancelWait id) :=
  ⟨rfl, rfl, rfl, rfl, rfl⟩

theorem Kept.idle (name : Text) : (Supervisor.idle name).Kept :=
  ⟨rfl, rfl, fun _ hr => absurd hr List.not_mem_nil, .nil⟩

/-- A move to a state that agrees with what is held succeeds. -/
theorem mark_eq (hstates : s.phases.states = ServerState.all)
    (hguard : s.held.isSome = state.isLive) : ∃ phases ended,
      s.phases.set? state = some (phases, ended) ∧ s.mark state = .ok ({ s with phases }, ended) ∧
        phases.current = state ∧ phases.states = ServerState.all := by
  obtain ⟨phases, ended, hset, hcurrent, hall⟩ :=
    Phases.set?_eq (p := s.phases) (hstates ▸ state.mem_all)
  refine ⟨phases, ended, hset, ?_, hcurrent, hall.trans hstates⟩
  unfold mark
  rw [hset, ← hguard]
  cases s.held <;> rfl

/-- The readers of other processes than the one that is held. -/
def bystanders (s : Supervisor) : List StreamReader :=
  s.readers.filter fun r => s.held ≠ some r.pid

theorem mem_bystanders {r : StreamReader} :
    r ∈ s.bystanders ↔ r ∈ s.readers ∧ s.held ≠ some r.pid := by
  rw [bystanders, List.mem_filter, decide_eq_true_eq]

/-- Without a process nobody is let go. -/
theorem bystanders_of_none (h : s.held = none) : s.bystanders = s.readers := by
  rw [bystanders, h]
  exact List.filter_eq_self.mpr fun _ _ => rfl

namespace Guarded

theorem idle (name : Text) : (Supervisor.idle name).Guarded := ⟨rfl, rfl⟩

theorem same (h : s.Guarded) (hst : Same s t) : t.Guarded :=
  ⟨hst.states.trans h.states, by rw [hst.held, hst.state]; exact h.guard⟩

/-- A process is held in the live states only. -/
theorem held_eq_none (h : s.Guarded) (hdead : s.state.isLive = false) : s.held = none := by
  have hguard := h.guard
  rw [hdead] at hguard
  exact Option.isSome_eq_false_iff.mp hguard |> Option.isNone_iff_eq_none.mp

theorem state_ne_ready (h : s.Guarded) (hheld : s.held = none) : s.state ≠ .ready := by
  intro hready
  have hguard := h.guard
  rw [hheld, hready] at hguard
  cases hguard

/-- What is stopped is what is held. -/
theorem doomed_eq (h : s.Guarded) : s.doomed = s.held := by
  unfold doomed
  split
  next => rfl
  next hdead => exact (h.held_eq_none (by simpa using hdead)).symm

/-- A stop lets the readers of the process go, and nobody else. -/
theorem stop_eq (h : s.Guarded) : ∃ phases ended,
    s.phases.set? .stopped = some (phases, ended) ∧
      s.stop = .ok ({ s with held := none, readers := s.bystanders, phases }, ended) ∧
      phases.current = .stopped ∧ phases.states = ServerState.all := by
  unfold stop
  rw [h.doomed_eq]
  exact mark_eq (s := { s with held := none, readers := s.bystanders }) h.states rfl

/-- A process is taken over with a reader for each stream, besides those there are. -/
theorem adopt_eq (h : s.Guarded) (pid : Pid) (stdout stderr : LineUse) : ∃ phases ended,
    s.phases.set? .running = some (phases, ended) ∧
      s.adopt pid stdout stderr = .ok ({ s with
        held := some pid
        readers := s.readers ++ [.start pid .stdout stdout, .start pid .stderr stderr]
        phases }, ended) ∧
      phases.current = .running ∧ phases.states = ServerState.all :=
  mark_eq (s := { s with
    held := some pid
    readers := s.readers ++ [.start pid .stdout stdout, .start pid .stderr stderr] }) h.states rfl

/-- The end of the process that is held is a crash. -/
theorem processEnded_eq (h : s.Guarded) (hheld : s.held = some pid) : ∃ phases ended,
    s.phases.set? .crashed = some (phases, ended) ∧
      s.processEnded pid = .ok ({ s with held := none, phases }, ended) ∧
      phases.current = .crashed ∧ phases.states = ServerState.all := by
  unfold processEnded
  rw [if_pos hheld]
  exact mark_eq (s := { s with held := none }) h.states rfl

/-- Only a live server becomes ready. -/
theorem setReady_eq (h : s.Guarded) : (s.state.isLive = false ∧ s.setReady = .ok (s, [])) ∨
    s.state.isLive = true ∧ ∃ phases ended, s.phases.set? .ready = some (phases, ended) ∧
      s.setReady = .ok ({ s with phases }, ended) ∧ phases.current = .ready ∧
      phases.states = ServerState.all := by
  unfold setReady
  cases hlive : s.state.isLive with
  | false => exact .inl ⟨rfl, if_neg Bool.false_ne_true⟩
  | true =>
    rw [if_pos rfl]
    exact .inr ⟨rfl, mark_eq h.states (h.guard.trans hlive)⟩

theorem setReady_ok (h : s.Guarded) {ended : List WaitId} (hs : s.setReady = .ok (t, ended)) :
    t.Guarded ∧ t.name = s.name ∧ t.held = s.held ∧ t.readers = s.readers ∧
      t.state = if s.state.isLive then .ready else s.state := by
  rcases h.setReady_eq with ⟨hdead, he⟩ | ⟨hlive, phases, more, -, he, hcurrent, hstates⟩
  · cases he.symm.trans hs
    exact ⟨h, rfl, rfl, rfl, by rw [hdead]; rfl⟩
  · cases he.symm.trans hs
    refine ⟨⟨hstates, ?_⟩, rfl, rfl, rfl, by rw [hlive]; exact hcurrent⟩
    show s.held.isSome = phases.current.isLive
    rw [h.guard, hlive, hcurrent]
    rfl

end Guarded

namespace Kept

theorem guarded (h : s.Kept) : s.Guarded := ⟨h.states, h.guard⟩

theorem readers_eq_nil (h : s.Kept) (hheld : s.held = none) : s.readers = [] := by
  apply List.eq_nil_iff_forall_not_mem.mpr
  intro r hr
  cases hheld.symm.trans (h.readers r hr)

/-- A stop lets go of the process and of all readers. -/
theorem stop_eq (h : s.Kept) : ∃ phases ended,
    s.phases.set? .stopped = some (phases, ended) ∧
      s.stop = .ok ({ s with held := none, readers := [], phases }, ended) ∧
      phases.current = .stopped ∧ phases.states = ServerState.all := by
  have hnil : s.bystanders = [] := by
    apply List.eq_nil_iff_forall_not_mem.mpr
    intro r hr
    obtain ⟨hr, hne⟩ := mem_bystanders.mp hr
    exact hne (h.readers r hr)
  have heq := h.guarded.stop_eq
  rwa [hnil] at heq

/-- A process is taken over with a reader for each stream. -/
theorem adopt_eq (h : s.Kept) (hheld : s.held = none) (pid : Pid) (stdout stderr : LineUse) :
    ∃ phases ended, s.phases.set? .running = some (phases, ended) ∧
      s.adopt pid stdout stderr =
        .ok ({ s with
          held := some pid
          readers := [.start pid .stdout stdout, .start pid .stderr stderr]
          phases }, ended) ∧
      phases.current = .running ∧ phases.states = ServerState.all := by
  have heq := h.guarded.adopt_eq pid stdout stderr
  rwa [h.readers_eq_nil hheld] at heq

end Kept

end Supervisor

/-! ## Lines that announce an address -/

/-- The number in the last line that announces one. -/
def lastAnnounced? (lines : List Text) : Option (List CodePoint) :=
  (lines.filterMap fun line => announcedIn? line.points).getLast?

theorem lastAnnounced?_append (xs ys : List Text) :
    lastAnnounced? (xs ++ ys) = (lastAnnounced? ys).or (lastAnnounced? xs) := by
  rw [lastAnnounced?, List.filterMap_append, List.getLast?_append]
  rfl

theorem lastAnnounced?_cons (line : Text) (rest : List Text) :
    lastAnnounced? (line :: rest) = (lastAnnounced? rest).or (announcedIn? line.points) := by
  rw [← List.singleton_append, lastAnnounced?_append]
  congr 1
  cases h : announcedIn? line.points <;> simp [lastAnnounced?, h]

namespace SharedServer

variable {s : SharedServer}

/-- Lines that nobody takes for announcements change nothing. -/
theorem takeLines_idle {lineUse : LineUse} (h : lineUse ≠ .announced) (lines : List Text) :
    s.takeLines lineUse lines = (s, []) := by
  induction lines with
  | nil => rfl
  | cons line rest ih =>
    have hline : s.takeLine lineUse line = .ok (s, []) := by
      unfold takeLine
      split
      next => exact absurd rfl h
      next => rfl
    simp only [takeLines, hline, ih, List.append_nil]

/-- Lines without announcements change nothing. -/
theorem takeLines_silent {lines : List Text} (h : lastAnnounced? lines = none)
    (lineUse : LineUse) : s.takeLines lineUse lines = (s, []) := by
  induction lines with
  | nil => rfl
  | cons line rest ih =>
    rw [lastAnnounced?_cons, Option.or_eq_none_iff] at h
    have hline : s.takeLine lineUse line = .ok (s, []) := by
      unfold takeLine
      rw [h.2]
      cases lineUse <;> rfl
    simp only [takeLines, hline, ih h.1, List.append_nil]

/-- What announcing lines leave: the last one counts, and it makes a live server ready. -/
theorem takeLines_announced (h : s.supervisor.Guarded) {lines : List Text} {digits : List CodePoint}
    (hl : lastAnnounced? lines = some digits) :
    let t := (s.takeLines .announced lines).1
    t.supervisor.Guarded ∧ t.supervisor.name = s.supervisor.name ∧
      t.supervisor.held = s.supervisor.held ∧ t.supervisor.readers = s.supervisor.readers ∧
      t.supervisor.state = (if s.supervisor.state.isLive then .ready else s.supervisor.state) ∧
      t.announced = some (localAddress digits) := by
  induction lines generalizing s with
  | nil => cases hl
  | cons line rest ih =>
    dsimp only at ih ⊢
    rw [lastAnnounced?_cons] at hl
    cases ha : announcedIn? line.points with
    | none =>
      have hline : s.takeLine .announced line = .ok (s, []) := by
        unfold takeLine
        rw [ha]
      rw [ha, Option.or_none] at hl
      simp only [takeLines, hline]
      exact ih h hl
    | some first =>
      obtain ⟨t, ended, ht⟩ : ∃ t ended, s.supervisor.setReady = .ok (t, ended) := by
        rcases h.setReady_eq with ⟨-, he⟩ | ⟨-, phases, ended, -, he, -⟩
        · exact ⟨_, _, he⟩
        · exact ⟨_, _, he⟩
      have hline : s.takeLine .announced line =
          .ok (⟨t, some (localAddress first)⟩, ended) := by
        simp only [takeLine, ha, ht]
      obtain ⟨hguarded, hname, hheld, hreaders, hstate⟩ := h.setReady_ok ht
      simp only [takeLines, hline]
      cases hr : lastAnnounced? rest with
      | none =>
        rw [hr, ha] at hl
        cases hl
        rw [takeLines_silent hr]
        exact ⟨hguarded, hname, hheld, hreaders, hstate, rfl⟩
      | some last =>
        rw [hr] at hl
        cases hl
        obtain ⟨hk, hn, hh, hrs, hst, ho⟩ := ih (s := ⟨t, some (localAddress first)⟩) hguarded hr
        refine ⟨hk, hn.trans hname, hh.trans hheld, hrs.trans hreaders, hst.trans ?_, ho⟩
        dsimp only
        rw [hstate]
        cases hlive : s.supervisor.state.isLive with
        | false => simp [hlive]
        | true => rfl

/-- Lines leave the server alone, or one of them announces an address. -/
theorem takeLines_cases (h : s.supervisor.Guarded) (lineUse : LineUse) (lines : List Text) :
    ((lineUse = .announced → lastAnnounced? lines = none) ∧
        s.takeLines lineUse lines = (s, [])) ∨
      lineUse = .announced ∧ ∃ digits, lastAnnounced? lines = some digits ∧
        (s.takeLines lineUse lines).1.supervisor.Guarded ∧
        (s.takeLines lineUse lines).1.supervisor.state =
          (if s.supervisor.state.isLive then .ready else s.supervisor.state) ∧
        (s.takeLines lineUse lines).1.announced = some (localAddress digits) := by
  by_cases hu : lineUse = .announced
  · subst hu
    cases hl : lastAnnounced? lines with
    | none => exact .inl ⟨fun _ => rfl, takeLines_silent hl _⟩
    | some digits =>
      obtain ⟨hguarded, -, -, -, hstate, hannounced⟩ := takeLines_announced h hl
      exact .inr ⟨rfl, digits, rfl, hguarded, hstate, hannounced⟩
  · exact .inl ⟨fun he => absurd he hu, takeLines_idle hu lines⟩

end SharedServer

end VerifierHost
