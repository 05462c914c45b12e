import VerifierHost.Proofs.Server.Supervision
import VerifierHost.Proofs.Waiting.Updates

/-! # Waiting for the server to be ready or to crash

One who waits for the server waits for both at once (`Phases.Watches`): either wait is pending and
known under its state, or was released by a move to that state. Every move of the server keeps that.
Only another wait for the same state could take the place of one of them. -/

namespace VerifierHost

namespace WaitBook

variable {b : WaitBook} {id w : WaitId} {status : WaitStatus}

theorem isSome_status?_finish :
    ((b.finish id status).status? w).isSome = (b.status? w).isSome := by
  rw [status?_finish]
  split
  next h =>
    obtain ⟨hp, rfl⟩ := h
    rw [of_decide_eq_true hp]
    rfl
  next => rfl

theorem isSome_status?_finishAll (ids : List WaitId) (hs : status ≠ .pending) :
    ((b.finishAll ids status).1.status? w).isSome = (b.status? w).isSome := by
  rcases b.finishAll_spec ids hs w with ⟨⟨hp, -⟩, he, -⟩ | ⟨-, he, -⟩
  · rw [hp, he]
    rfl
  · rw [he]

end WaitBook

namespace Phases

section States

variable {σ : Type} [DecidableEq σ] {p p' : Phases σ} {state awaited : σ} {ended : List WaitId}
  {id : WaitId}

/-- A move releases the wait for its state, and every other wait is as it was. -/
theorem set?_spec (h : p.set? state = some (p', ended)) :
    p'.current = state ∧ p'.waiting.get? state = none ∧
      (∀ other, state ≠ other → p'.waiting.get? other = p.waiting.get? other) ∧
      ∀ w, (p.book.status? w = some .pending ∧ p.waiting.get? state = some w) ∧
          p'.book.status? w = some .released ∧ w ∈ ended ∨
        ¬ (p.book.status? w = some .pending ∧ p.waiting.get? state = some w) ∧
          p'.book.status? w = p.book.status? w ∧ w ∉ ended := by
  unfold set? at h
  split at h
  next =>
    split at h
    next hnone =>
      cases h
      refine ⟨rfl, hnone, fun _ _ => rfl, fun w => .inr ⟨?_, rfl, List.not_mem_nil⟩⟩
      rintro ⟨-, hw⟩
      cases hnone.symm.trans hw
    next id hid =>
      cases h
      refine ⟨rfl, Table.get?_erase_self .., fun _ ho => Table.get?_erase_of_ne _ ho, fun w => ?_⟩
      have hspec := p.book.finishAll_spec [id] released_ne_pending w
      have hmem : w ∈ [id] ↔ p.waiting.get? state = some w := by
        rw [List.mem_singleton, hid, Option.some.injEq, eq_comm]
      rw [hmem] at hspec
      exact hspec
  next => cases h

/-- A new wait for another state than the present one is pending and known under its state. -/
theorem waitFor?_spec (h : state ∈ p.states) (hne : p.current ≠ state) : ∃ p' id ended,
    p.waitFor? state = some (p', id, ended) ∧ p'.states = p.states ∧ p'.current = p.current ∧
      p'.waiting = p.waiting.put state id ∧ p.book.status? id = none ∧
      p'.book.status? id = some .pending ∧
      ∀ w, (p.book.status? w).isSome → (p'.book.status? w).isSome ∧
        (p.waiting.get? state ≠ some w → p'.book.status? w = p.book.status? w) ∧
        (p.waiting.get? state = some w → p.book.status? w = some .pending → w ∈ ended) := by
  unfold waitFor?
  rw [if_pos h, if_neg hne]
  have hspec := p.book.finishAll_spec (p.waiting.get? state).toList cancelled_ne_pending
  have hknown : ∀ w, ((p.book.finishAll (p.waiting.get? state).toList .cancelled).1.status?
      w).isSome = (p.book.status? w).isSome :=
    fun w => WaitBook.isSome_status?_finishAll _ cancelled_ne_pending
  generalize p.book.finishAll (p.waiting.get? state).toList .cancelled = finished at hspec hknown
  refine ⟨_, _, _, rfl, rfl, rfl, rfl, ?_, List.getElem?_concat_length, fun w hw => ?_⟩
  · have hnone : (finished.1.status? finished.1.statuses.length).isSome = false := by
      rw [WaitBook.status?, List.getElem?_eq_none (Nat.le_refl _)]
      rfl
    rw [hknown] at hnone
    exact Option.isNone_iff_eq_none.mp (Option.isSome_eq_false_iff.mp hnone)
  · rw [← hknown] at hw
    obtain ⟨status, hstatus⟩ := Option.isSome_iff_exists.mp hw
    have hold : (finished.1.statuses ++ [WaitStatus.pending])[w]? = finished.1.status? w :=
      List.getElem?_append_left (List.getElem?_eq_some_iff.mp hstatus).1
    refine ⟨(congrArg Option.isSome hold).trans hw, fun hother => hold.trans ?_,
      fun hself hpending => ?_⟩
    · rcases hspec w with ⟨⟨-, hm⟩, -⟩ | ⟨-, he, -⟩
      · exact absurd (Option.mem_toList.mp hm) hother
      · exact he
    · rcases hspec w with ⟨-, -, hm⟩ | ⟨hno, -⟩
      · exact hm
      · exact absurd ⟨hpending, Option.mem_toList.mpr hself⟩ hno

/-- A wait for a state that is pending and known under the state, or was released. -/
def Open (p : Phases σ) (state : σ) (id : WaitId) : Prop :=
  p.book.status? id = some .pending ∧ p.waiting.get? state = some id ∨
    p.book.status? id = some .released ∧ p.waiting.get? state = none

/-- A wait is released by a move to its own state only. -/
theorem Open.set (h : p.Open awaited id) (hset : p.set? state = some (p', ended))
    (hown : state ≠ awaited → p.waiting.get? state ≠ some id) : p'.Open awaited id ∧
      (p'.book.status? id = some .released → p.book.status? id = some .released ∨
        state = awaited) := by
  obtain ⟨-, hself, hothers, hbook⟩ := set?_spec hset
  by_cases hs : state = awaited
  · subst hs
    refine ⟨.inr ⟨?_, hself⟩, fun _ => .inr rfl⟩
    rcases hbook id with ⟨-, he, -⟩ | ⟨hno, he, -⟩
    · exact he
    · rcases h with hp | ⟨hr, -⟩
      · exact absurd hp hno
      · exact he.trans hr
  · rcases hbook id with ⟨⟨-, hw⟩, -⟩ | ⟨-, he, -⟩
    · exact absurd hw (hown hs)
    · rw [Open, he, hothers awaited hs]
      exact ⟨h, .inl⟩

end States

variable {p p' p'' : Phases ServerState} {state : ServerState} {ended ended' : List WaitId}
  {crash crash' : Prop}

/-- Nobody waits for the server to be started or stopped, and no wait is unknown to the book. -/
structure Calm (p : Phases ServerState) : Prop where
  running : p.waiting.get? .running = none
  stopped : p.waiting.get? .stopped = none
  known : ∀ state w, p.waiting.get? state = some w → (p.book.status? w).isSome

/-- The two waits of one who is told when the server is ready or has crashed. -/
structure Watches (p : Phases ServerState) (ready crashed : WaitId) : Prop where
  distinct : ready ≠ crashed
  ready : p.Open .ready ready
  crashed : p.Open .crashed crashed

theorem Open.get?_ne {id w : WaitId} (h : p.Open state w) (hne : id ≠ w) :
    p.waiting.get? state ≠ some id := by
  intro hw
  rcases h with ⟨-, he⟩ | ⟨-, he⟩
  · cases he.symm.trans hw
    exact hne rfl
  · cases he.symm.trans hw

/-- From one state to another waits were released and nothing else happened to them; the wait for a
crash only if there was one. -/
structure Moves (crash : Prop) (p p' : Phases ServerState) (ended : List WaitId) : Prop where
  calm : p.Calm → p'.Calm
  watches : p.Calm → ∀ ready crashed, p.Watches ready crashed → p'.Watches ready crashed
  released : ∀ w, p.book.status? w = some .released → p'.book.status? w = some .released
  ended : ∀ w ∈ ended, p'.book.status? w = some .released
  spared : p.Calm → ∀ ready crashed, p.Watches ready crashed →
    p'.book.status? crashed = some .released → p.book.status? crashed = some .released ∨ crash

namespace Moves

theorem refl (p : Phases ServerState) : Moves crash p p [] :=
  ⟨id, fun _ _ _ h => h, fun _ h => h, fun _ h => absurd h List.not_mem_nil,
    fun _ _ _ _ h => .inl h⟩

theorem trans (h : Moves crash p p' ended) (h' : Moves crash p' p'' ended') :
    Moves crash p p'' (ended ++ ended') where
  calm hc := h'.calm (h.calm hc)
  watches hc ready crashed hw :=
    h'.watches (h.calm hc) ready crashed (h.watches hc ready crashed hw)
  released w hw := h'.released w (h.released w hw)
  ended w hw := (List.mem_append.mp hw).elim (fun hm => h'.released w (h.ended w hm)) (h'.ended w)
  spared hc ready crashed hw hr := by
    rcases h'.spared (h.calm hc) ready crashed (h.watches hc ready crashed hw) hr with hr | hx
    · exact h.spared hc ready crashed hw hr
    · exact .inr hx

theorem mono (h : Moves crash p p' ended) (hc : crash → crash') : Moves crash' p p' ended :=
  { h with
    spared := fun hcalm ready crashed hw hr =>
      (h.spared hcalm ready crashed hw hr).imp_right hc }

theorem set (h : p.set? state = some (p', ended)) : Moves (state = .crashed) p p' ended := by
  obtain ⟨-, hself, hothers, hbook⟩ := set?_spec h
  have hready : p.Calm → ∀ ready crashed, p.Watches ready crashed → state ≠ .ready →
      p.waiting.get? state ≠ some ready := by
    intro hc ready crashed hw hne
    cases state with
    | running => simp [hc.running]
    | stopped => simp [hc.stopped]
    | ready => exact absurd rfl hne
    | crashed => exact hw.crashed.get?_ne hw.distinct
  have hcrashed : p.Calm → ∀ ready crashed, p.Watches ready crashed → state ≠ .crashed →
      p.waiting.get? state ≠ some crashed := by
    intro hc ready crashed hw hne
    cases state with
    | running => simp [hc.running]
    | stopped => simp [hc.stopped]
    | ready => exact hw.ready.get?_ne hw.distinct.symm
    | crashed => exact absurd rfl hne
  have hwaiting : ∀ other, p.waiting.get? other = none → p'.waiting.get? other = none := by
    intro other hn
    by_cases hs : state = other
    · exact hs ▸ hself
    · exact (hothers other hs).trans hn
  refine ⟨fun hc => ⟨hwaiting _ hc.running, hwaiting _ hc.stopped, ?_⟩, ?_, ?_, ?_, ?_⟩
  · intro other w hw
    have hold : p.waiting.get? other = some w := by
      by_cases hs : state = other
      · cases (hs ▸ hself).symm.trans hw
      · exact (hothers other hs).symm.trans hw
    rcases hbook w with ⟨-, he, -⟩ | ⟨-, he, -⟩
    · rw [he]
      rfl
    · rw [he]
      exact hc.known other w hold
  · intro hc ready crashed hw
    exact ⟨hw.distinct, (hw.ready.set h (hready hc ready crashed hw)).1,
      (hw.crashed.set h (hcrashed hc ready crashed hw)).1⟩
  · intro w hr
    rcases hbook w with ⟨⟨hp, -⟩, -⟩ | ⟨-, he, -⟩
    · cases hp.symm.trans hr
    · exact he.trans hr
  · intro w hw
    rcases hbook w with ⟨-, he, -⟩ | ⟨-, -, hout⟩
    · exact he
    · exact absurd hw hout
  · intro hc ready crashed hw hr
    exact (hw.crashed.set h (hcrashed hc ready crashed hw)).2 hr

end Moves

theorem Calm.cancel (h : p.Calm) (id : WaitId) : (p.cancel id).Calm :=
  ⟨h.running, h.stopped, fun state w hw =>
    WaitBook.isSome_status?_finish.trans (h.known state w hw)⟩

end Phases

namespace Supervisor

variable {s t : Supervisor} {state : ServerState} {ended : List WaitId} {pid : Pid}

theorem mark_moves (h : s.mark state = .ok (t, ended)) :
    Phases.Moves (state = .crashed) s.phases t.phases ended := by
  unfold mark at h
  split at h
  next => cases h
  next =>
    split at h
    next => cases h
    next =>
      split at h
      next hset => cases h; exact .set hset
      next => cases h; exact .refl _

theorem setReady_moves (h : s.setReady = .ok (t, ended)) :
    Phases.Moves False s.phases t.phases ended := by
  unfold setReady at h
  split at h
  next => exact (mark_moves h).mono nofun
  next => cases h; exact .refl _

theorem processEnded_moves (h : s.processEnded pid = .ok (t, ended)) :
    Phases.Moves True s.phases t.phases ended := by
  unfold processEnded at h
  split at h
  next => exact (mark_moves h).mono fun _ => trivial
  next => cases h; exact .refl _

/-- One who begins to wait before the server is ready or has crashed watches it. -/
theorem watches_waitFor (hstates : s.phases.states = ServerState.all) (hcalm : s.phases.Calm)
    (hready : s.phases.current ≠ .ready) (hcrashed : s.phases.current ≠ .crashed) :
    let (t, ready, _) := s.waitFor .ready
    let (u, crashed, _) := t.waitFor .crashed
    u.phases.Calm ∧ u.phases.Watches ready crashed ∧
      u.phases.book.status? crashed = some .pending ∧
      u.phases.book.status? ready = some .pending := by
  obtain ⟨p, ready, ended, hp, hpstates, hpcurrent, hpwaiting, hnew, hpready, hpbook⟩ :=
    Phases.waitFor?_spec (hstates ▸ ServerState.mem_all .ready) hready
  rw [← hpcurrent] at hcrashed
  obtain ⟨q, crashed, ended', hq, -, -, hqwaiting, hnew', hqcrashed, hqbook⟩ :=
    Phases.waitFor?_spec (p := p) (hpstates ▸ hstates ▸ ServerState.mem_all .crashed) hcrashed
  have hother : p.waiting.get? .crashed = s.phases.waiting.get? .crashed := by
    rw [hpwaiting]
    exact Table.get?_put_of_ne _ _ (by decide)
  have hstill : q.book.status? ready = some .pending := by
    refine ((hqbook ready (by rw [hpready]; rfl)).2.1 fun hw => ?_).trans hpready
    have hknown := hcalm.known .crashed ready (hother.symm.trans hw)
    rw [hnew] at hknown
    cases hknown
  have hqready : q.waiting.get? .ready = some ready := by
    rw [hqwaiting, hpwaiting, Table.get?_put_of_ne _ _ (by decide)]
    exact Table.get?_put_self ..
  have hidle : ∀ state, state ≠ .ready → state ≠ .crashed →
      q.waiting.get? state = s.phases.waiting.get? state := by
    intro state hr hc
    rw [hqwaiting, hpwaiting, Table.get?_put_of_ne _ _ hc.symm, Table.get?_put_of_ne _ _ hr.symm]
  have hqself : q.waiting.get? .crashed = some crashed := by
    rw [hqwaiting]
    exact Table.get?_put_self ..
  unfold waitFor
  rw [hp]
  dsimp only
  rw [hq]
  refine ⟨⟨?_, ?_, ?_⟩, ⟨?_, .inl ⟨hstill, hqready⟩, .inl ⟨hqcrashed, hqself⟩⟩, hqcrashed, hstill⟩
  · exact (hidle _ (by decide) (by decide)).trans hcalm.running
  · exact (hidle _ (by decide) (by decide)).trans hcalm.stopped
  · intro state w hw
    by_cases hr : state = .ready
    · subst hr
      cases hqready.symm.trans hw
      rw [hstill]
      rfl
    · by_cases hc : state = .crashed
      · subst hc
        cases hqself.symm.trans hw
        rw [hqcrashed]
        rfl
      · have hknown := hcalm.known state w ((hidle state hr hc).symm.trans hw)
        exact (hqbook w (hpbook w hknown).1).1
  · rintro rfl
    cases hnew'.symm.trans hpready

end Supervisor

namespace SharedServer

/-- Lines that are taken in can make the server ready and nothing else. -/
theorem takeLines_moves (s : SharedServer) (lineUse : LineUse) (lines : List Text) :
    Phases.Moves False s.supervisor.phases (s.takeLines lineUse lines).1.supervisor.phases
      (s.takeLines lineUse lines).2 := by
  induction lines generalizing s with
  | nil => exact .refl _
  | cons line rest ih =>
    unfold takeLines
    split
    next => exact .refl _
    next s' ended h =>
      have hline : Phases.Moves False s.supervisor.phases s'.supervisor.phases ended := by
        unfold takeLine at h
        split at h
        · split at h
          next => cases h
          next hready => cases h; exact Supervisor.setReady_moves hready
        · cases h
          exact .refl _
      exact hline.trans (ih s')

end SharedServer

end VerifierHost
