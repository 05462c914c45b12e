import Mathlib.Data.Set.Card
import VerifierHost.Proofs.Waiting.Updates

/-! # Every wait for news ends once, and with the first news

A wait for a file is ended by the first call after it that concerns it: by news about the file or
about all files, which release it, or by the end of all waits or its own owner, who cancel it. All
calls but new waits end waits in one way and leave the others alone (`Updates.Settles`); what carries
this through a run is that each pending wait is known under its file and no other
(`Updates.Kept`). -/

namespace VerifierHost

/-- What can happen to waits for news; the owner of a wait may give it up. -/
inductive NewsCall where
  | waitFor (file : Text)
  | notify (file : Text)
  | notifyAll
  | cancelAll
  | cancel (id : WaitId)
  deriving DecidableEq, Repr

/-- What a call makes of a pending wait for a file, if it ends it. -/
def NewsCall.ending? (file : Text) (id : WaitId) : NewsCall → Option WaitStatus
  | .waitFor _ => none
  | .notify f => if f = file then some .released else none
  | .notifyAll => some .released
  | .cancelAll => some .cancelled
  | .cancel w => if w = id then some .cancelled else none

/-- What has become of a wait for a file after some calls: the first that ends it decides. -/
def newsFate (file : Text) (id : WaitId) (later : List NewsCall) : WaitStatus :=
  (later.findSome? (·.ending? file id)).getD .pending

theorem NewsCall.ne_pending_of_ending? {file : Text} {id : WaitId} {c : NewsCall}
    {status : WaitStatus} (h : c.ending? file id = some status) : status ≠ .pending := by
  rintro rfl
  cases c <;> simp [ending?] at h

theorem newsFate_cons (file : Text) (id : WaitId) (c : NewsCall) (later : List NewsCall) :
    newsFate file id (c :: later) = (c.ending? file id).getD (newsFate file id later) := by
  unfold newsFate
  cases h : c.ending? file id <;> simp [h]

/-- A call that does not concern a wait changes nothing for it. -/
theorem newsFate_concat {file : Text} {id : WaitId} {c : NewsCall} (h : c.ending? file id = none)
    (later : List NewsCall) : newsFate file id (later ++ [c]) = newsFate file id later := by
  simp [newsFate, List.findSome?_append, h]

/-- There are as many as have ended. -/
theorem WaitBook.Ends.length_eq {b b' : WaitBook} {status : WaitStatus} {ended : List WaitId}
    (h : Ends status b b' ended) (hs : status ≠ .pending) : ended.length =
      {id | b.status? id = some .pending ∧ b'.status? id = some status}.ncard := by
  have hset : {id | b.status? id = some .pending ∧ b'.status? id = some status} =
      (ended.toFinset : Set WaitId) := by
    ext id
    rw [List.coe_toFinset]
    refine ⟨fun ⟨hp, he⟩ => by_contra fun hout => ?_, h.each id⟩
    exact hs (Option.some.inj (he.symm.trans ((h.others id hout).trans hp)))
  rw [hset, Set.ncard_coe_finset, List.toFinset_card_of_nodup h.nodup]

/-! ## One call -/

namespace Updates

variable {u u' : Updates} {file : Text} {id : WaitId} {status : WaitStatus}
  {ended : List WaitId}

/-- Each pending wait is known under one file, and no wait is known that was not handed out. -/
structure Kept (u : Updates) : Prop where
  listed : ∀ id, u.book.status? id = some .pending → u.Expects id
  single : ∀ file other id, u.ExpectsAt file id → u.ExpectsAt other id → file = other
  known : ∀ file, ∀ id ∈ (u.pending.get? file).getD [], (u.book.status? id).isSome

theorem Kept.empty : Kept empty := ⟨nofun, nofun, nofun⟩

theorem Settles.kept (h : Settles status u u' ended) (hs : status ≠ .pending) (hu : u.Kept) :
    u'.Kept := by
  have hback : ∀ f id, u'.ExpectsAt f id → u.ExpectsAt f id := fun f id hw =>
    ⟨(h.book.of_pending hs hw.1).1, h.rows f id hw.2⟩
  refine ⟨fun id hp => ?_, fun f other id hf ho => ?_, fun f id hm => ?_⟩
  · obtain ⟨hp, hout⟩ := h.book.of_pending hs hp
    obtain ⟨f, hw⟩ := hu.listed id hp
    exact ⟨f, h.spared f id hw hout⟩
  · exact hu.single f other id (hback f id hf) (hback other id ho)
  · exact h.book.isSome (hu.known f id (h.rows f id hm))

/-- A new wait is known under its file, and the others as they were. -/
theorem Kept.waitFor (h : u.Kept) (file : Text) : (u.waitFor file).1.Kept := by
  have hrow : ∀ f, (u.waitFor file).2 ∈ ((u.waitFor file).1.pending.get? f).getD [] → f = file := by
    intro f hm
    rcases mem_row_waitFor.mp hm with hm | ⟨hf, -⟩
    · have hnew := h.known f _ hm
      rw [status?_waitFor_new] at hnew
      cases hnew
    · exact hf
  have hold : ∀ f id, id ≠ (u.waitFor file).2 → (u.waitFor file).1.ExpectsAt f id →
      u.ExpectsAt f id := by
    rintro f id hne ⟨hp, hm⟩
    rw [status?_waitFor_eq, if_neg hne] at hp
    exact ⟨hp, (mem_row_waitFor.mp hm).resolve_right fun hnew => hne hnew.2⟩
  refine ⟨fun id hp => ?_, fun f other id hf ho => ?_, fun f id hm => ?_⟩
  · by_cases hne : id = (u.waitFor file).2
    · exact ⟨file, hne ▸ expectsAt_waitFor u file⟩
    · rw [status?_waitFor_eq, if_neg hne] at hp
      obtain ⟨f, hw⟩ := h.listed id hp
      exact ⟨f, hw.waitFor⟩
  · by_cases hne : id = (u.waitFor file).2
    · subst hne
      rw [hrow f hf.2, hrow other ho.2]
    · exact h.single f other id (hold f id hne hf) (hold other id hne ho)
  · rw [status?_waitFor_eq]
    split
    next => rfl
    next hne =>
      exact h.known f id ((mem_row_waitFor.mp hm).resolve_right fun hnew => hne hnew.2)

/-- What a call leaves behind. -/
def call (u : Updates) : NewsCall → Updates
  | .waitFor file => (u.waitFor file).1
  | .notify file => (u.notify file).1
  | .notifyAll => u.notifyAll.1
  | .cancelAll => u.cancelAll.1
  | .cancel id => u.cancel id

/-- What a call does to waits: it ends those that it concerns and no others, and what is over stays
as it is. -/
structure Obeys (c : NewsCall) (u u' : Updates) : Prop where
  kept : u'.Kept
  ended : ∀ file id status, u.ExpectsAt file id → c.ending? file id = some status →
    u'.book.status? id = some status
  spared : ∀ file id, u.ExpectsAt file id → c.ending? file id = none → u'.ExpectsAt file id
  steady : ∀ id status, u.book.status? id = some status → status ≠ .pending →
    u'.book.status? id = some status

theorem Settles.obeys {c : NewsCall} (h : Settles status u u' ended) (hu : u.Kept)
    (hs : status ≠ .pending) (hc : ∀ file id, u.ExpectsAt file id →
      c.ending? file id = if id ∈ ended then some status else none) : Obeys c u u' := by
  refine ⟨h.kept hs hu, fun f id st hw he => ?_, fun f id hw he => ?_, fun id st => h.book.steady⟩
  · rw [hc f id hw] at he
    split at he
    next hm => cases he; exact (h.book.each id hm).2
    next => cases he
  · rw [hc f id hw] at he
    split at he
    next => cases he
    next hout => exact h.spared f id hw hout

theorem obeys_call (h : u.Kept) (c : NewsCall) : Obeys c u (u.call c) := by
  cases c with
  | waitFor file =>
    exact ⟨h.waitFor file, nofun, fun _ _ hw _ => hw.waitFor, fun _ _ hid _ => status?_waitFor hid⟩
  | notify file =>
    refine (u.notify_settles file).obeys h released_ne_pending fun f id hw => ?_
    -- a wait that is known under one file is not among those for another
    have hm : id ∈ (u.notify file).2 ↔ file = f :=
      mem_notify.trans ⟨fun hfile => h.single file f id hfile hw, fun hf => hf ▸ hw⟩
    simp only [NewsCall.ending?, hm]
  | notifyAll =>
    refine (u.notifyFiles_settles u.pending.keys).obeys h released_ne_pending fun f id hw => ?_
    -- the files are those of the table before any wait was taken out of it
    have hm : id ∈ u.notifyAll.2 := by
      by_contra hout
      have hkept := ((u.notifyFiles_settles u.pending.keys).book.others id hout).trans hw.1
      cases hkept.symm.trans (released_notifyAll ⟨f, hw⟩)
    exact (if_pos hm).symm
  | cancelAll =>
    refine u.cancelAll_settles.obeys h cancelled_ne_pending fun f id hw => ?_
    exact (if_pos (Expects.cancelled ⟨f, hw⟩)).symm
  | cancel w =>
    refine (u.cancel_settles w).obeys h cancelled_ne_pending fun f id hw => ?_
    have hm : id ∈ (u.book.finishAll [w] .cancelled).2 ↔ w = id := by
      rw [WaitBook.mem_finishAll _ _ cancelled_ne_pending, List.mem_singleton]
      exact (and_iff_right hw.1).trans eq_comm
    simp only [NewsCall.ending?, hm]

/-! ## A run -/

/-- What a run leaves behind. -/
def after (u : Updates) (calls : List NewsCall) : Updates := calls.foldl call u

/-- How a wait stands after some calls. -/
def standing (calls : List NewsCall) (id : WaitId) : Option WaitStatus :=
  (empty.after calls).book.status? id

/-- A wait for a file that was handed out by one of some calls. -/
def Waits (calls : List NewsCall) (file : Text) (id : WaitId) : Prop :=
  ∃ before later, calls = before ++ .waitFor file :: later ∧
    ((empty.after before).waitFor file).2 = id

theorem after_append (u : Updates) (calls more : List NewsCall) :
    u.after (calls ++ more) = (u.after calls).after more := List.foldl_append

theorem Kept.after (h : u.Kept) (calls : List NewsCall) : (u.after calls).Kept := by
  induction calls generalizing u with
  | nil => exact h
  | cons c later ih => exact ih (obeys_call h c).kept

/-- What is over stays as it is, whatever is called. -/
theorem Kept.steady (h : u.Kept) (calls : List NewsCall) (hid : u.book.status? id = some status)
    (hne : status ≠ .pending) : (u.after calls).book.status? id = some status := by
  induction calls generalizing u with
  | nil => exact hid
  | cons c later ih => exact ih (obeys_call h c).kept ((obeys_call h c).steady id status hid hne)

/-- A pending wait comes to its end with the first call that ends it. -/
theorem ExpectsAt.after (hw : u.ExpectsAt file id) (h : u.Kept) (later : List NewsCall) :
    (u.after later).book.status? id = some (newsFate file id later) := by
  induction later generalizing u with
  | nil => exact hw.1
  | cons c later ih =>
    have hcall := obeys_call h c
    rw [newsFate_cons]
    cases he : c.ending? file id with
    | none => exact ih (hcall.spared file id hw he) hcall.kept
    | some status =>
      exact hcall.kept.steady later (hcall.ended file id status hw he)
        (NewsCall.ne_pending_of_ending? he)

theorem standing_waitFor (before later : List NewsCall) (file : Text) :
    standing (before ++ .waitFor file :: later) ((empty.after before).waitFor file).2 =
      some (newsFate file ((empty.after before).waitFor file).2 later) := by
  have hkept : (empty.after before).Kept := Kept.empty.after before
  rw [standing, after_append]
  exact (expectsAt_waitFor _ file).after (hkept.waitFor file) later

theorem pending_notifyFiles (u : Updates) (files : List Text) :
    (u.notifyFiles files).1.pending = u.pending.filter fun row => row.1 ∉ files := by
  induction files generalizing u with
  | nil => simp [notifyFiles]
  | cons first rest ih =>
    have hfirst : (u.notify first).1.pending = u.pending.erase first := rfl
    rw [notifyFiles_cons, ih, hfirst, Table.erase, List.filter_filter]
    simp [Bool.and_comm]

theorem pending_notifyAll (u : Updates) : u.notifyAll.1.pending = [] := by
  rw [notifyAll, pending_notifyFiles]
  refine List.filter_eq_nil_iff.mpr fun row hrow => ?_
  have hkey : row.1 ∈ u.pending.keys := List.mem_map_of_mem hrow
  simpa using hkey

/-- Where nothing is known nobody waits. -/
theorem Kept.none_pending (h : u.Kept) (hnone : u.pending = []) (id : WaitId) :
    u.book.status? id ≠ some .pending := by
  intro hp
  obtain ⟨file, -, hm⟩ := h.listed id hp
  rw [hnone] at hm
  cases hm

/-- **Every wait for news ends once, and with the first news.** A new wait is pending until the first
call after it that concerns it: news about its file or about all files release it, and the end of
all waits or its own owner cancel it; from then on it stays as it is. The number that news return
is that of the waits they have released. After news about all files or the end of all waits nobody
is waiting, and news about a file leave alone who waits for any other. -/
theorem news_ends_waits_once :
    (∀ before file, standing before ((empty.after before).waitFor file).2 = none ∧
      ∀ later, standing (before ++ .waitFor file :: later) ((empty.after before).waitFor file).2 =
        some (newsFate file ((empty.after before).waitFor file).2 later)) ∧
    (∀ calls file, ((empty.after calls).notify file).2.length =
      {id | standing calls id = some .pending ∧
        standing (calls ++ [.notify file]) id = some .released}.ncard) ∧
    (∀ calls, (empty.after calls).notifyAll.2.length =
      {id | standing calls id = some .pending ∧
        standing (calls ++ [.notifyAll]) id = some .released}.ncard) ∧
    (∀ calls c, c = .notifyAll ∨ c = .cancelAll →
      (empty.after (calls ++ [c])).pending = [] ∧
      ∀ id, standing (calls ++ [c]) id ≠ some .pending) ∧
    ∀ calls file other, other ≠ file →
      (empty.after (calls ++ [.notify file])).pending.get? other =
        (empty.after calls).pending.get? other ∧
      ∀ id, Waits calls other id →
        standing (calls ++ [.notify file]) id = standing calls id := by
  have hkept : ∀ calls, (empty.after calls).Kept := Kept.empty.after
  refine ⟨fun before file => ⟨status?_waitFor_new _ file, fun later => ?_⟩, fun calls file => ?_,
    fun calls => ?_, fun calls c hc => ?_, fun calls file other hne => ⟨?_, ?_⟩⟩
  · exact standing_waitFor before later file
  · simp only [standing, after_append]
    exact ((empty.after calls).notify_settles file).book.length_eq released_ne_pending
  · simp only [standing, after_append]
    exact ((empty.after calls).notifyFiles_settles _).book.length_eq released_ne_pending
  · have hnone : (empty.after (calls ++ [c])).pending = [] := by
      rw [after_append]
      rcases hc with rfl | rfl
      · exact pending_notifyAll _
      · rfl
    exact ⟨hnone, (hkept _).none_pending hnone⟩
  · rw [after_append]
    exact Table.get?_erase_of_ne _ hne.symm
  · rintro id ⟨before, later, rfl, rfl⟩
    have hspared : NewsCall.ending? other ((empty.after before).waitFor other).2 (.notify file) =
        none := if_neg hne.symm
    rw [List.append_assoc, List.cons_append, standing_waitFor, standing_waitFor,
      newsFate_concat hspared]

/-- Of two waits for a file the first is given up by its owner, so news about the file release one
only; the wait for another file is pending until there is news about all. -/
theorem news_ends_waits_once_abandoned :
    let calls : List NewsCall := [.waitFor "a.rs", .waitFor "a.rs", .waitFor "b.rs", .cancel 0]
    ("b.rs" : Text) ≠ "a.rs" ∧ Waits calls "b.rs" 2 ∧
      standing (calls ++ [.notify "a.rs"]) 2 = some .pending ∧
      {id | standing calls id = some .pending ∧
        standing (calls ++ [.notify "a.rs"]) id = some .released}.ncard = 1 ∧
      standing (calls ++ [.notify "a.rs"]) 0 = some .cancelled ∧
      standing (calls ++ [.notifyAll]) 2 ≠ some .pending := by
  have hne : ("b.rs" : Text) ≠ "a.rs" := by decide
  have hwaits : Waits [.waitFor "a.rs", .waitFor "a.rs", .waitFor "b.rs", .cancel 0] "b.rs" 2 :=
    ⟨[.waitFor "a.rs", .waitFor "a.rs"], [.cancel 0], rfl, rfl⟩
  obtain ⟨hfate, hcount, -, hall, hothers⟩ := news_ends_waits_once
  refine ⟨hne, hwaits, ((hothers _ "a.rs" "b.rs" hne).2 2 hwaits).trans rfl,
    (hcount _ "a.rs").symm, ?_, (hall _ .notifyAll (.inl rfl)).2 2⟩
  exact (hfate [] "a.rs").2 [.waitFor "a.rs", .waitFor "b.rs", .cancel 0, .notify "a.rs"]

end Updates

end VerifierHost
