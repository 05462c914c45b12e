import VerifierHost.Proofs.Waiting.Phases
import VerifierHost.Waiting.Named

/-! # Every wait for a state ends once, and at its own call

A wait for a state is ended by the first call after it that concerns its state: by a move to the
state, which releases it, or by another wait for the state or the end of all waits, which cancel it.
What carries this through a run is that the table holds pending waits only, each under its own state
(`Phases.Kept`); what one call does to them is `Phases.Turns`. -/

namespace VerifierHost

/-- What can be asked of a variable that is waited for. -/
inductive PhaseCall where
  | set (state : Text)
  | waitFor (state : Text)
  | cancelAll
  deriving DecidableEq, Repr

namespace PhaseCall

/-- Whether a wait for a state is ended by a call. -/
def ends (state : Text) : PhaseCall → Bool
  | .set s | .waitFor s => s = state
  | .cancelAll => true

/-- What the waits are that a call ends. -/
def ending : PhaseCall → WaitStatus
  | .set _ => .released
  | .waitFor _ | .cancelAll => .cancelled

/-- The state that a call moves to. -/
def target? : PhaseCall → Option Text
  | .set state => some state
  | .waitFor _ | .cancelAll => none

theorem ending_ne_pending (c : PhaseCall) : c.ending ≠ .pending := by cases c <;> exact nofun

end PhaseCall

/-- What has become of a wait for a state after some calls: the first that ends it decides. -/
def fateOf (state : Text) (later : List PhaseCall) : WaitStatus :=
  match later.find? (·.ends state) with
  | none => .pending
  | some c => c.ending

/-- The last known state that calls move to. -/
def lastTarget (states : List Text) (initial : Text) (calls : List PhaseCall) : Text :=
  ((calls.filterMap PhaseCall.target?).filter (· ∈ states)).getLastD initial

theorem lastTarget_cons (states : List Text) (initial : Text) (c : PhaseCall)
    (later : List PhaseCall) : lastTarget states initial (c :: later) =
      lastTarget states (lastTarget states initial [c]) later := by
  cases hc : c.target? with
  | none => simp [lastTarget, hc]
  | some s =>
    by_cases hm : s ∈ states
    · simp only [lastTarget, List.filterMap_cons_some hc, List.filterMap_nil, List.filter_cons, hm,
        decide_true, if_true, List.filter_nil, List.getLastD_cons, List.getLastD_nil]
    · simp [lastTarget, hc, hm]

theorem fateOf_cons (state : Text) (c : PhaseCall) (later : List PhaseCall) :
    fateOf state (c :: later) = if c.ends state then c.ending else fateOf state later := by
  unfold fateOf
  cases h : c.ends state <;> simp [h]

/-! ## One call -/

namespace Phases

variable {σ : Type} [DecidableEq σ] {p p' : Phases σ} {state : σ} {id : WaitId}
  {ended : List WaitId}

/-- The table of waits holds pending waits, each under one state, and none for the present state. -/
structure Kept (p : Phases σ) : Prop where
  known : ∀ state id, p.waiting.get? state = some id → state ∈ p.states
  pending : ∀ state id, p.waiting.get? state = some id → p.book.status? id = some .pending
  single : ∀ state other id, p.waiting.get? state = some id → p.waiting.get? other = some id →
    state = other
  idle : p.waiting.get? p.current = none

/-- The waits for some states have ended, all in one way, and nothing else happened to waits. -/
structure Turns (ends : σ → Bool) (ending : WaitStatus) (p p' : Phases σ) : Prop where
  states : p'.states = p.states
  kept : p'.Kept
  ended : ∀ state id, p.waiting.get? state = some id → ends state = true →
    p'.book.status? id = some ending
  spared : ∀ state id, p.waiting.get? state = some id → ends state = false →
    p'.waiting.get? state = some id
  steady : ∀ id status, p.book.status? id = some status → status ≠ .pending →
    p'.book.status? id = some status

theorem start?_spec {states : List σ} {initial : σ} (h : start? states initial = some p) :
    p.states = states ∧ p.current = initial ∧ p.Kept := by
  unfold start? at h
  split at h
  next =>
    cases h
    exact ⟨rfl, rfl, nofun, nofun, nofun, rfl⟩
  next => cases h

theorem states_set? (h : p.set? state = some (p', ended)) :
    state ∈ p.states ∧ p'.states = p.states := by
  unfold set? at h
  split at h
  next hm => split at h <;> (cases h; exact ⟨hm, rfl⟩)
  next => cases h

/-- A move ends the wait for its state. -/
theorem Kept.set (h : p.Kept) (hset : p.set? state = some (p', ended)) :
    Turns (state = ·) .released p p' := by
  obtain ⟨hcurrent, hself, hothers, hbook⟩ := set?_spec hset
  have hstates := (states_set? hset).2
  have hold : ∀ s id, p'.waiting.get? s = some id → state ≠ s ∧ p.waiting.get? s = some id := by
    intro s id hw
    have hne : state ≠ s := by
      intro he
      subst he
      cases hself.symm.trans hw
    exact ⟨hne, hothers s hne ▸ hw⟩
  refine ⟨hstates, ⟨fun s id hw => ?_, fun s id hw => ?_, fun s t id hs ht => ?_, ?_⟩,
    fun s id hw he => ?_, fun s id hw he => ?_, fun id status hs hne => ?_⟩
  · rw [hstates]
    exact h.known s id (hold s id hw).2
  · obtain ⟨hne, hw⟩ := hold s id hw
    rcases hbook id with ⟨⟨-, hthis⟩, -⟩ | ⟨-, he, -⟩
    · exact absurd (h.single state s id hthis hw) hne
    · exact he.trans (h.pending s id hw)
  · exact h.single s t id (hold s id hs).2 (hold t id ht).2
  · rw [hcurrent, hself]
  · have hs : state = s := of_decide_eq_true he
    subst hs
    rcases hbook id with ⟨-, hr, -⟩ | ⟨hno, -⟩
    · exact hr
    · exact absurd ⟨h.pending state id hw, hw⟩ hno
  · rw [hothers s (of_decide_eq_false he)]
    exact hw
  · rcases hbook id with ⟨⟨hp, -⟩, -⟩ | ⟨-, he, -⟩
    · exact absurd (Option.some.inj (hs.symm.trans hp)) hne
    · exact he.trans hs

theorem waitFor?_current (h : p.current ∈ p.states) :
    p.waitFor? p.current =
      some ({ p with book := (p.book.issue .released).1 }, (p.book.issue .released).2, []) := by
  unfold waitFor?
  rw [if_pos h, if_pos rfl]

/-- A wait for the present state is over at once and is not put into the table. -/
theorem Kept.issue (h : p.Kept) :
    Turns (p.current = ·) .cancelled p { p with book := (p.book.issue .released).1 } := by
  have hold : ∀ w status, p.book.status? w = some status →
      (p.book.issue .released).1.status? w = some status := by
    intro w status hw
    have hne : w ≠ (p.book.issue .released).2 := by
      rintro rfl
      cases (WaitBook.status?_issued ..).symm.trans hw
    rw [WaitBook.status?_issue, if_neg hne]
    exact hw
  refine ⟨rfl, ⟨h.known, fun s w hw => hold w _ (h.pending s w hw), h.single, h.idle⟩,
    fun s w hw he => ?_, fun s w hw _ => hw, fun w status hw _ => hold w status hw⟩
  have hs : p.current = s := of_decide_eq_true he
  cases h.idle.symm.trans (hs ▸ hw)

/-- The book of waits without the wait for a state. -/
def dropped (p : Phases σ) (state : σ) : WaitBook :=
  (p.book.finishAll (p.waiting.get? state).toList .cancelled).1

/-- The variable with a new wait for a state in the place of the one before it. -/
def renewed (p : Phases σ) (state : σ) : Phases σ :=
  { p with
    waiting := p.waiting.put state ((p.dropped state).issue .pending).2
    book := ((p.dropped state).issue .pending).1 }

theorem waitFor?_of_ne (h : state ∈ p.states) (hne : p.current ≠ state) : ∃ ended,
    p.waitFor? state = some (p.renewed state, ((p.dropped state).issue .pending).2, ended) := by
  unfold waitFor?
  rw [if_pos h, if_neg hne]
  exact ⟨_, rfl⟩

theorem Kept.status?_dropped (h : p.Kept) (state : σ) (w : WaitId) :
    (p.dropped state).status? w =
      if p.waiting.get? state = some w then some .cancelled else p.book.status? w := by
  rcases p.book.finishAll_spec (p.waiting.get? state).toList cancelled_ne_pending w with
    ⟨⟨-, hm⟩, he, -⟩ | ⟨hno, he, -⟩
  · rw [if_pos (Option.mem_toList.mp hm)]
    exact he
  · rw [if_neg fun hw => hno ⟨h.pending state w hw, Option.mem_toList.mpr hw⟩]
    exact he

/-- The new wait was not known before. -/
theorem Kept.status?_new (h : p.Kept) (state : σ) :
    p.book.status? ((p.dropped state).issue .pending).2 = none := by
  have hfresh := (p.dropped state).status?_issued .pending
  rw [h.status?_dropped] at hfresh
  split at hfresh
  next => cases hfresh
  next => exact hfresh

theorem Kept.status?_renewed (h : p.Kept) (state : σ) {w : WaitId} {status : WaitStatus}
    (hw : p.book.status? w = some status) : (p.renewed state).book.status? w =
      if p.waiting.get? state = some w then some .cancelled else some status := by
  have hne : w ≠ ((p.dropped state).issue .pending).2 := by
    rintro rfl
    cases (h.status?_new state).symm.trans hw
  show ((p.dropped state).issue .pending).1.status? w = _
  rw [WaitBook.status?_issue, if_neg hne, h.status?_dropped, hw]

theorem get?_renewed {s : σ} {w : WaitId} (hw : (p.renewed state).waiting.get? s = some w) :
    s = state ∧ w = ((p.dropped state).issue .pending).2 ∨
      state ≠ s ∧ p.waiting.get? s = some w := by
  unfold renewed at hw
  dsimp only at hw
  by_cases hs : state = s
  · subst hs
    rw [Table.get?_put_self] at hw
    exact .inl ⟨rfl, (Option.some.inj hw).symm⟩
  · rw [Table.get?_put_of_ne _ _ hs] at hw
    exact .inr ⟨hs, hw⟩

theorem Kept.renewed (h : p.Kept) (hm : state ∈ p.states) (hne : p.current ≠ state) :
    (p.renewed state).Kept := by
  have hnew := h.status?_new state
  refine ⟨fun s w hw => ?_, fun s w hw => ?_, fun s t w hs ht => ?_, ?_⟩
  · rcases get?_renewed hw with ⟨rfl, -⟩ | ⟨-, hold⟩
    · exact hm
    · exact h.known s w hold
  · rcases get?_renewed hw with ⟨-, rfl⟩ | ⟨hother, hold⟩
    · exact (WaitBook.status?_issue ..).trans (if_pos rfl)
    · rw [h.status?_renewed state (h.pending s w hold),
        if_neg fun hthis => hother (h.single state s w hthis hold)]
  · rcases get?_renewed hs with ⟨rfl, hws⟩ | ⟨-, hsold⟩
    · rcases get?_renewed ht with ⟨rfl, -⟩ | ⟨-, htold⟩
      · rfl
      · cases hnew.symm.trans (hws ▸ h.pending t w htold)
    · rcases get?_renewed ht with ⟨-, hwt⟩ | ⟨-, htold⟩
      · cases hnew.symm.trans (hwt ▸ h.pending s w hsold)
      · exact h.single s t w hsold htold
  · exact (Table.get?_put_of_ne _ _ (Ne.symm hne)).trans h.idle

/-- A new wait ends the one before it for the same state. -/
theorem Kept.renew (h : p.Kept) (hm : state ∈ p.states) (hne : p.current ≠ state) :
    Turns (state = ·) .cancelled p (p.renewed state) := by
  refine ⟨rfl, h.renewed hm hne, fun s w hw he => ?_, fun s w hw he => ?_,
    fun w status hs hover => ?_⟩
  · have hs : state = s := of_decide_eq_true he
    subst hs
    rw [h.status?_renewed state (h.pending state w hw), if_pos hw]
  · exact (Table.get?_put_of_ne _ _ (of_decide_eq_false he)).trans hw
  · have hother : p.waiting.get? state ≠ some w := fun hw =>
      hover (Option.some.inj (hs.symm.trans (h.pending state w hw)))
    rw [h.status?_renewed state hs, if_neg hother]

/-- A wait for a state, which is over at once or else in the table. -/
theorem Kept.waitFor (h : p.Kept) (hm : state ∈ p.states) : ∃ p' id ended,
    p.waitFor? state = some (p', id, ended) ∧ p.book.status? id = none ∧
      p'.current = p.current ∧ Turns (state = ·) .cancelled p p' ∧
      if p.current = state then p'.book.status? id = some .released
      else p'.waiting.get? state = some id := by
  split
  next hc =>
    subst hc
    refine ⟨_, _, _, waitFor?_current hm, WaitBook.status?_issued .., rfl, h.issue, ?_⟩
    exact (WaitBook.status?_issue ..).trans (if_pos rfl)
  next hc =>
    obtain ⟨ended, hwait⟩ := waitFor?_of_ne hm hc
    exact ⟨_, _, ended, hwait, h.status?_new state, rfl, h.renew hm hc, Table.get?_put_self ..⟩

/-- The end of all waits leaves none. -/
theorem Kept.cancelAll (h : p.Kept) : Turns (fun _ => true) .cancelled p p.cancelAll.1 := by
  have hbook := p.book.finishAll_spec (p.waiting.map Prod.snd) cancelled_ne_pending
  refine ⟨rfl, ⟨nofun, nofun, nofun, rfl⟩, fun s id hw _ => ?_, nofun, fun id status hs hne => ?_⟩
  · rcases hbook id with ⟨-, he, -⟩ | ⟨hno, -⟩
    · exact he
    · exact absurd ⟨h.pending s id hw, List.mem_map_of_mem (Table.mem_of_get? hw)⟩ hno
  · rcases hbook id with ⟨⟨hp, -⟩, -⟩ | ⟨-, he, -⟩
    · exact absurd (Option.some.inj (hs.symm.trans hp)) hne
    · exact he.trans hs

/-- A call for a state that there is not. -/
theorem Kept.refuse (h : p.Kept) (hm : state ∉ p.states) (ending : WaitStatus) :
    Turns (state = ·) ending p p := by
  refine ⟨rfl, h, fun s id hw he => ?_, fun _ _ hw _ => hw, fun _ _ hs _ => hs⟩
  have hs : state = s := of_decide_eq_true he
  exact absurd (hs ▸ h.known s id hw) hm

end Phases

namespace NamedPhases

variable {m : NamedPhases} {state : Text} {id : WaitId}

/-- A call, with the variable after it and the answer; a call that fails changes nothing. -/
def call (m : NamedPhases) : PhaseCall → NamedPhases × Except Violation (Option WaitId)
  | .set state =>
    match m.set state with
    | .ok moved => (moved, .ok none)
    | .error v => (m, .error v)
  | .waitFor state =>
    match m.waitFor state with
    | .ok (waited, id) => (waited, .ok (some id))
    | .error v => (m, .error v)
  | .cancelAll => (m.cancelAll, .ok none)

/-- The variable after some calls. -/
def after (m : NamedPhases) (calls : List PhaseCall) : NamedPhases :=
  calls.foldl (fun m c => (m.call c).1) m

/-- How a wait stands after some calls. -/
def standing (m : NamedPhases) (calls : List PhaseCall) (id : WaitId) : Option WaitStatus :=
  (m.after calls).phases.book.status? id

/-- A wait for a state that was handed out by one of some calls. -/
def Waits (m : NamedPhases) (calls : List PhaseCall) (state : Text) (id : WaitId) : Prop :=
  ∃ before later, calls = before ++ .waitFor state :: later ∧
    ((m.after before).call (.waitFor state)).2 = .ok (some id)

theorem call_of_not_mem (h : state ∉ m.phases.states) {c : PhaseCall}
    (hc : c = .set state ∨ c = .waitFor state) :
    m.call c = (m, .error (unknown "unknown state" m.name state)) := by
  rcases hc with rfl | rfl
  · simp [call, set, Phases.set?, h]
  · simp [call, waitFor, Phases.waitFor?, h]

theorem call_set (h : m.phases.Kept) (hm : state ∈ m.phases.states) :
    (m.call (.set state)).1.name = m.name ∧ (m.call (.set state)).1.phases.current = state ∧
      Phases.Turns (state = ·) .released m.phases (m.call (.set state)).1.phases := by
  cases hset : m.phases.set? state with
  | none =>
    unfold Phases.set? at hset
    rw [if_pos hm] at hset
    split at hset <;> cases hset
  | some moved =>
    have hcall : m.call (.set state) = ({ m with phases := moved.1 }, .ok none) := by
      simp [call, set, hset]
    rw [hcall]
    exact ⟨rfl, (Phases.set?_spec hset).1, h.set hset⟩

theorem call_waitFor (h : m.phases.Kept) (hm : state ∈ m.phases.states) : ∃ id,
    (m.call (.waitFor state)).2 = .ok (some id) ∧ m.phases.book.status? id = none ∧
      (m.call (.waitFor state)).1.name = m.name ∧
      (m.call (.waitFor state)).1.phases.current = m.phases.current ∧
      Phases.Turns (state = ·) .cancelled m.phases (m.call (.waitFor state)).1.phases ∧
      if m.phases.current = state then
        (m.call (.waitFor state)).1.phases.book.status? id = some .released
      else (m.call (.waitFor state)).1.phases.waiting.get? state = some id := by
  obtain ⟨phases, id, ended, hwait, hspec⟩ := h.waitFor hm
  have hcall : m.call (.waitFor state) = ({ m with phases }, .ok (some id)) := by
    simp [call, waitFor, hwait]
  rw [hcall]
  exact ⟨id, rfl, hspec.1, rfl, hspec.2⟩

/-- What a call does to a variable: only a move to a known state changes the state, and waits end as
the call says. -/
structure Obeys (c : PhaseCall) (m m' : NamedPhases) : Prop where
  name : m'.name = m.name
  current : m'.phases.current = lastTarget m.phases.states m.phases.current [c]
  turns : Phases.Turns (c.ends ·) c.ending m.phases m'.phases

theorem obeys_call (h : m.phases.Kept) (c : PhaseCall) : Obeys c m (m.call c).1 := by
  cases c with
  | set s =>
    by_cases hm : s ∈ m.phases.states
    · obtain ⟨hname, hcurrent, hturns⟩ := call_set h hm
      exact ⟨hname, by simp [hcurrent, lastTarget, PhaseCall.target?, hm], hturns⟩
    · rw [call_of_not_mem hm (.inl rfl)]
      exact ⟨rfl, by simp [lastTarget, PhaseCall.target?, hm], h.refuse hm _⟩
  | waitFor s =>
    by_cases hm : s ∈ m.phases.states
    · obtain ⟨id, -, -, hname, hcurrent, hturns, -⟩ := call_waitFor h hm
      exact ⟨hname, hcurrent, hturns⟩
    · rw [call_of_not_mem hm (.inr rfl)]
      exact ⟨rfl, rfl, h.refuse hm _⟩
  | cancelAll => exact ⟨rfl, rfl, h.cancelAll⟩

/-! ## A run -/

theorem after_append (m : NamedPhases) (calls more : List PhaseCall) :
    m.after (calls ++ more) = (m.after calls).after more := List.foldl_append

theorem after_cons (m : NamedPhases) (c : PhaseCall) (later : List PhaseCall) :
    m.after (c :: later) = (m.call c).1.after later := rfl

/-- What a run keeps, whatever is called: the table holds pending waits only, and a wait that is over
stays as it is. -/
structure Persists (calls : List PhaseCall) (m m' : NamedPhases) : Prop where
  name : m'.name = m.name
  states : m'.phases.states = m.phases.states
  current : m'.phases.current = lastTarget m.phases.states m.phases.current calls
  kept : m'.phases.Kept
  steady : ∀ id status, m.phases.book.status? id = some status → status ≠ .pending →
    m'.phases.book.status? id = some status

theorem persists_after (h : m.phases.Kept) (calls : List PhaseCall) :
    Persists calls m (m.after calls) := by
  induction calls generalizing m with
  | nil => exact ⟨rfl, rfl, rfl, h, fun _ _ hs _ => hs⟩
  | cons c later ih =>
    obtain ⟨hname, hcurrent, hturns⟩ := obeys_call h c
    have hlater := ih hturns.kept
    refine ⟨hlater.name.trans hname, hlater.states.trans hturns.states, ?_, hlater.kept, ?_⟩
    · rw [after_cons, hlater.current, hcurrent, hturns.states, ← lastTarget_cons]
    · exact fun id status hs hne => hlater.steady id status (hturns.steady id status hs hne) hne

/-- A wait in the table comes to its end with the first call that ends it. -/
theorem standing_of_waiting (h : m.phases.Kept) (hw : m.phases.waiting.get? state = some id)
    (later : List PhaseCall) : m.standing later id = some (fateOf state later) ∧
      (fateOf state later = .pending → (m.after later).phases.waiting.get? state = some id) := by
  induction later generalizing m with
  | nil => exact ⟨h.pending state id hw, fun _ => hw⟩
  | cons c later ih =>
    have hturns := (obeys_call h c).turns
    rw [fateOf_cons]
    cases he : c.ends state with
    | true =>
      rw [if_pos rfl]
      refine ⟨?_, fun hp => absurd hp c.ending_ne_pending⟩
      exact (persists_after hturns.kept later).steady id c.ending
        (hturns.ended state id hw he) c.ending_ne_pending
    | false => exact ih hturns.kept (hturns.spared state id hw he)

/-- A new wait is known by nobody, and it is over at once or ends with the first call to end it. -/
theorem standing_of_waitFor (h : m.phases.Kept) (hm : state ∈ m.phases.states) : ∃ id,
    (m.call (.waitFor state)).2 = .ok (some id) ∧ m.phases.book.status? id = none ∧
      ∀ later, m.standing (.waitFor state :: later) id =
          some (if m.phases.current = state then .released else fateOf state later) ∧
        (m.standing (.waitFor state :: later) id = some .pending →
          (m.after (.waitFor state :: later)).phases.waiting.get? state = some id) := by
  obtain ⟨id, hanswer, hnew, -, -, hturns, hopen⟩ := call_waitFor h hm
  refine ⟨id, hanswer, hnew, fun later => ?_⟩
  split at hopen
  next hc =>
    have hover : m.standing (.waitFor state :: later) id = some .released :=
      (persists_after hturns.kept later).steady id .released hopen released_ne_pending
    rw [hover, if_pos hc]
    exact ⟨rfl, fun hp => absurd (Option.some.inj hp) released_ne_pending⟩
  next hc =>
    obtain ⟨hfate, hwaiting⟩ := standing_of_waiting hturns.kept hopen later
    have hstanding : m.standing (.waitFor state :: later) id = some (fateOf state later) := hfate
    rw [hstanding, if_neg hc]
    exact ⟨rfl, fun hp => hwaiting (Option.some.inj hp)⟩

theorem standing_append (m : NamedPhases) (before later : List PhaseCall) (id : WaitId) :
    m.standing (before ++ later) id = (m.after before).standing later id := by
  rw [standing, after_append]
  rfl

/-- A wait that was handed out and is pending is the one in the table. -/
theorem Waits.waiting {calls : List PhaseCall} (hwaits : m.Waits calls state id)
    (h : m.phases.Kept) (hp : m.standing calls id = some .pending) :
    (m.after calls).phases.waiting.get? state = some id := by
  obtain ⟨before, later, rfl, hanswer⟩ := hwaits
  have hbefore := persists_after h before
  have hm : state ∈ (m.after before).phases.states := by
    refine Decidable.of_not_not fun hn => ?_
    rw [call_of_not_mem hn (.inr rfl)] at hanswer
    cases hanswer
  obtain ⟨id', hanswer', -, hwait⟩ := standing_of_waitFor hbefore.kept hm
  cases hanswer.symm.trans hanswer'
  rw [standing_append] at hp
  rw [after_append]
  exact (hwait later).2 hp

theorem start_spec {name : Text} {states : List Text} {initial : Text}
    (h : start name states initial = .ok m) : m.name = name ∧ m.phases.states = states ∧
      m.phases.current = initial ∧ m.phases.Kept := by
  unfold start at h
  split at h
  next hphases =>
    cases h
    exact ⟨rfl, Phases.start?_spec hphases⟩
  next => cases h

/-- **Every wait for a state ends once, and at its own call.** A wait for the present state is
released at once; any other is pending until the first call that ends it, which is a move to its
state, another wait for it or the end of all waits, and is from then on what that call made of it.
So no more than one wait for a state is ever pending and none for the present state, which is the
last known one that was moved to. A call for an unknown state fails and changes nothing. -/
theorem waits_end_once {name : Text} {states : List Text} {initial : Text}
    (hstart : start name states initial = .ok m) :
    (∀ before state, state ∈ states → ∃ id,
      ((m.after before).call (.waitFor state)).2 = .ok (some id) ∧ m.standing before id = none ∧
      ∀ later, m.standing (before ++ .waitFor state :: later) id = some
        (if (m.after before).phases.current = state then .released else fateOf state later)) ∧
    (∀ calls state id, m.Waits calls state id → m.standing calls id = some .pending →
      (m.after calls).phases.current ≠ state ∧
      ∀ other, m.Waits calls state other → m.standing calls other = some .pending → other = id) ∧
    (∀ calls, (m.after calls).phases.current = lastTarget states initial calls) ∧
    ∀ calls state c, state ∉ states → c = .set state ∨ c = .waitFor state →
      (m.after calls).call c = (m.after calls, .error (unknown "unknown state" name state)) := by
  obtain ⟨rfl, hstates, hcurrent, hkept⟩ := start_spec hstart
  have hrun := persists_after hkept
  have hknown : ∀ calls, (m.after calls).phases.states = states :=
    fun calls => (hrun calls).states.trans hstates
  refine ⟨fun before state hm => ?_, fun calls state id hwaits hp => ?_, fun calls => ?_,
    fun calls state c hm hc => ?_⟩
  · obtain ⟨id, hanswer, hnew, hwait⟩ :=
      standing_of_waitFor (hrun before).kept ((hknown before).symm ▸ hm)
    refine ⟨id, hanswer, hnew, fun later => ?_⟩
    rw [standing_append]
    exact (hwait later).1
  · have hwaiting := hwaits.waiting hkept hp
    refine ⟨?_, fun other hother hpother => ?_⟩
    · rintro rfl
      cases (hrun calls).kept.idle.symm.trans hwaiting
    · exact Option.some.inj ((hother.waiting hkept hpother).symm.trans hwaiting)
  · rw [(hrun calls).current, hstates, hcurrent]
  · rw [call_of_not_mem ((hknown calls).symm ▸ hm) hc, (hrun calls).name]

/-! Of two waits for a state the first is cancelled by the second, which is released by the move to
the state after one to a state that there is not. -/

def twoStates : NamedPhases := ⟨"server", ["idle", "busy"], "idle", [], .empty⟩

theorem waits_end_once_busy : NamedPhases.start "server" ["idle", "busy"] "idle" = .ok twoStates ∧
    (∃ id, twoStates.standing [.waitFor "busy", .set "gone", .waitFor "busy", .set "busy"] id =
      some .cancelled) ∧
    (∃ id, twoStates.standing [.waitFor "busy", .set "gone", .waitFor "busy", .set "busy"] id =
      some .released) := by
  have hstart : NamedPhases.start "server" ["idle", "busy"] "idle" = .ok twoStates := by rfl
  obtain ⟨first, -, -, hfirst⟩ := (waits_end_once hstart).1 [] "busy" (by decide)
  obtain ⟨second, -, -, hsecond⟩ :=
    (waits_end_once hstart).1 [.waitFor "busy", .set "gone"] "busy" (by decide)
  exact ⟨hstart, ⟨first, hfirst [.set "gone", .waitFor "busy", .set "busy"]⟩,
    ⟨second, hsecond [.set "busy"]⟩⟩

end NamedPhases

end VerifierHost
