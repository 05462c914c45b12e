import VerifierHost.Proofs.Table
import VerifierHost.Waiting.Updates

/-! # News reaches all who wait for it

Waits end in one way at a time, and those that do not end stay known (`Updates.Settles`). So a wait
that the table of waits still knows of either stays known or is released and handed out to be told
(`Updates.Notifies`); after all waits were notified nobody is left. -/

namespace VerifierHost

theorem released_ne_pending : WaitStatus.released ≠ .pending := by decide

theorem cancelled_ne_pending : WaitStatus.cancelled ≠ .pending := by decide

namespace WaitBook

variable {b b' b'' : WaitBook} {id w : WaitId} {status other : WaitStatus}
  {ended ended' : List WaitId}

theorem status?_issue (b : WaitBook) (status : WaitStatus) (w : WaitId) :
    (b.issue status).1.status? w = if w = (b.issue status).2 then some status else b.status? w := by
  show (b.statuses ++ [status])[w]? = if w = b.statuses.length then some status else b.statuses[w]?
  split
  next h => rw [h, List.getElem?_concat_length]
  next h =>
    rcases Nat.lt_or_gt_of_ne h with hlt | hgt
    · exact List.getElem?_append_left hlt
    · rw [List.getElem?_eq_none (Nat.le_of_lt hgt), List.getElem?_eq_none (by simp; omega)]

theorem status?_issued (b : WaitBook) (status : WaitStatus) :
    b.status? (b.issue status).2 = none :=
  List.getElem?_eq_none (Nat.le_refl _)

theorem status?_finish :
    (b.finish id status).status? w =
      if b.isPending id ∧ id = w then some status else b.status? w := by
  unfold finish
  by_cases hp : b.isPending id = true
  · by_cases hw : id = w
    · subst hw
      have hlt : id < b.statuses.length :=
        (List.getElem?_eq_some_iff.mp (of_decide_eq_true hp)).1
      simp [hp, status?, hlt]
    · simp [hp, hw, status?]
  · simp [hp]

theorem foldl_finish (ids : List WaitId) (status : WaitStatus) (b : WaitBook)
    (ended : List WaitId) :
    ids.foldl (fun (b, ended) id =>
      if b.isPending id then (b.finish id status, ended ++ [id]) else (b, ended)) (b, ended) =
      ((b.finishAll ids status).1, ended ++ (b.finishAll ids status).2) := by
  induction ids generalizing b ended with
  | nil => simp [finishAll]
  | cons first rest ih =>
    unfold finishAll
    rw [List.foldl_cons, List.foldl_cons]
    by_cases hp : b.isPending first = true
    · simp only [hp, if_true, ih, List.nil_append, List.append_assoc]
    · simp only [hp, if_false, ih, List.nil_append, Bool.false_eq_true]

theorem finishAll_cons (b : WaitBook) (id : WaitId) (ids : List WaitId) (status : WaitStatus) :
    b.finishAll (id :: ids) status =
      if b.isPending id then
        (((b.finish id status).finishAll ids status).1,
          id :: ((b.finish id status).finishAll ids status).2)
      else b.finishAll ids status := by
  by_cases hp : b.isPending id = true
  · rw [if_pos hp]
    unfold finishAll
    rw [List.foldl_cons]
    simp only [hp, if_true]
    exact foldl_finish ids ..
  · rw [if_neg hp]
    unfold finishAll
    rw [List.foldl_cons]
    simp only [hp, if_false, Bool.false_eq_true]

/-- Of the waits that are pending those in the list come to their end, and no others. -/
theorem finishAll_spec (b : WaitBook) (ids : List WaitId) {status : WaitStatus}
    (hs : status ≠ .pending) (w : WaitId) :
    ((b.status? w = some .pending ∧ w ∈ ids) ∧
        (b.finishAll ids status).1.status? w = some status ∧ w ∈ (b.finishAll ids status).2) ∨
      (¬ (b.status? w = some .pending ∧ w ∈ ids) ∧
        (b.finishAll ids status).1.status? w = b.status? w ∧ w ∉ (b.finishAll ids status).2) := by
  induction ids generalizing b with
  | nil => exact .inr ⟨fun h => List.not_mem_nil h.2, rfl, List.not_mem_nil⟩
  | cons id rest ih =>
    rw [finishAll_cons]
    by_cases hp : b.isPending id = true
    · rw [if_pos hp]
      dsimp only
      have hpending : b.status? id = some .pending := of_decide_eq_true hp
      by_cases hw : id = w
      · subst hw
        have hfin : (b.finish id status).status? id = some status := by
          rw [status?_finish, if_pos ⟨hp, rfl⟩]
        rcases ih (b.finish id status) with ⟨⟨hpend, -⟩, -⟩ | ⟨-, hkept, -⟩
        · exact absurd (Option.some.inj (hfin.symm.trans hpend)) hs
        · exact .inl ⟨⟨hpending, List.mem_cons_self⟩, hkept.trans hfin, List.mem_cons_self⟩
      · have hfin : (b.finish id status).status? w = b.status? w := by
          rw [status?_finish, if_neg fun h => hw h.2]
        rcases ih (b.finish id status) with ⟨⟨hpend, hm⟩, hend, hin⟩ | ⟨hno, hkept, hout⟩
        · exact .inl ⟨⟨hfin.symm.trans hpend, List.mem_cons_of_mem _ hm⟩, hend,
            List.mem_cons_of_mem _ hin⟩
        · refine .inr ⟨fun h => hno ⟨hfin.trans h.1, ?_⟩, hkept.trans hfin, fun h => ?_⟩
          · exact (List.mem_cons.mp h.2).resolve_left (Ne.symm hw)
          · exact (List.mem_cons.mp h).elim (Ne.symm hw) hout
    · rw [if_neg hp]
      have hid : b.status? w = some .pending → w ≠ id := by
        rintro hpend rfl
        exact hp (decide_eq_true hpend)
      rcases ih b with ⟨⟨hpend, hm⟩, hend⟩ | ⟨hno, hkept⟩
      · exact .inl ⟨⟨hpend, List.mem_cons_of_mem _ hm⟩, hend⟩
      · refine .inr ⟨fun h => hno ⟨h.1, ?_⟩, hkept⟩
        exact (List.mem_cons.mp h.2).resolve_left (hid h.1)

/-- From one book to another these waits have ended in one way, each of them once, and no other wait
has changed. -/
structure Ends (status : WaitStatus) (b b' : WaitBook) (ended : List WaitId) : Prop where
  nodup : ended.Nodup
  each : ∀ id ∈ ended, b.status? id = some .pending ∧ b'.status? id = some status
  others : ∀ id, id ∉ ended → b'.status? id = b.status? id

namespace Ends

theorem refl (status : WaitStatus) (b : WaitBook) : Ends status b b [] :=
  ⟨List.nodup_nil, nofun, fun _ _ => rfl⟩

/-- A wait that is pending in the end has been pending all the time. -/
theorem of_pending (h : Ends status b b' ended) (hs : status ≠ .pending)
    (hp : b'.status? id = some .pending) : b.status? id = some .pending ∧ id ∉ ended := by
  have hout : id ∉ ended := fun hm =>
    hs (Option.some.inj ((h.each id hm).2.symm.trans hp))
  exact ⟨(h.others id hout).symm.trans hp, hout⟩

/-- A wait that was over stays as it was. -/
theorem steady (h : Ends status b b' ended) (hid : b.status? id = some other)
    (hne : other ≠ .pending) : b'.status? id = some other := by
  have hout : id ∉ ended := fun hm => hne (Option.some.inj (hid.symm.trans (h.each id hm).1))
  exact (h.others id hout).trans hid

theorem trans (h : Ends status b b' ended) (h' : Ends status b' b'' ended')
    (hs : status ≠ .pending) : Ends status b b'' (ended ++ ended') := by
  refine ⟨List.nodup_append.mpr ⟨h.nodup, h'.nodup, ?_⟩, fun id hm => ?_, fun id hm => ?_⟩
  · rintro id hm _ hm' rfl
    exact (h.of_pending hs (h'.each id hm').1).2 hm
  · rcases List.mem_append.mp hm with hm | hm
    · exact ⟨(h.each id hm).1, h'.steady (h.each id hm).2 hs⟩
    · exact ⟨(h.of_pending hs (h'.each id hm).1).1, (h'.each id hm).2⟩
  · rw [List.mem_append, not_or] at hm
    exact (h'.others id hm.2).trans (h.others id hm.1)

theorem isSome (h : Ends status b b' ended) (hid : (b.status? id).isSome) :
    (b'.status? id).isSome := by
  by_cases hm : id ∈ ended
  · rw [(h.each id hm).2]
    rfl
  · rw [h.others id hm]
    exact hid

end Ends

theorem mem_finishAll (b : WaitBook) (ids : List WaitId) (hs : status ≠ .pending) :
    id ∈ (b.finishAll ids status).2 ↔ b.status? id = some .pending ∧ id ∈ ids := by
  rcases b.finishAll_spec ids hs id with ⟨hin, -, hm⟩ | ⟨hno, -, hm⟩
  · exact iff_of_true hm hin
  · exact iff_of_false hm hno

theorem nodup_finishAll (b : WaitBook) (ids : List WaitId) (hs : status ≠ .pending) :
    (b.finishAll ids status).2.Nodup := by
  induction ids generalizing b with
  | nil => exact List.nodup_nil
  | cons first rest ih =>
    rw [finishAll_cons]
    split
    next hp =>
      refine List.nodup_cons.mpr ⟨fun hm => ?_, ih _⟩
      have hstill := ((b.finish first status).mem_finishAll rest hs).mp hm
      rw [status?_finish, if_pos ⟨hp, rfl⟩] at hstill
      exact hs (Option.some.inj hstill.1)
    next => exact ih b

theorem finishAll_ends (b : WaitBook) (ids : List WaitId) (hs : status ≠ .pending) :
    Ends status b (b.finishAll ids status).1 (b.finishAll ids status).2 := by
  refine ⟨b.nodup_finishAll ids hs, fun id hm => ?_, fun id hm => ?_⟩
  · rcases b.finishAll_spec ids hs id with ⟨hin, he, -⟩ | ⟨-, -, hout⟩
    · exact ⟨hin.1, he⟩
    · exact absurd hm hout
  · rcases b.finishAll_spec ids hs id with ⟨-, -, hin⟩ | ⟨-, he, -⟩
    · exact absurd hin hm
    · exact he

/-- A single wait ends as the only one of a list does. -/
theorem finish_eq (b : WaitBook) (id : WaitId) (status : WaitStatus) :
    b.finish id status = (b.finishAll [id] status).1 := by
  rw [finishAll_cons]
  by_cases hp : b.isPending id = true
  · rw [if_pos hp]
    rfl
  · rw [if_neg hp, finish, if_neg hp]
    rfl

end WaitBook

namespace Updates

variable {u u' u'' : Updates} {file : Text} {w : WaitId} {status : WaitStatus}
  {ended ended' : List WaitId}

/-- A wait for a file that has not come to its end and is known. -/
def ExpectsAt (u : Updates) (file : Text) (w : WaitId) : Prop :=
  u.book.status? w = some .pending ∧ w ∈ (u.pending.get? file).getD []

/-- A wait that has not come to its end and is known. -/
def Expects (u : Updates) (w : WaitId) : Prop := ∃ file, u.ExpectsAt file w

/-- Known waits stay known or are released, and those released are handed out. -/
structure Notifies (u u' : Updates) (ended : List WaitId) : Prop where
  expected : ∀ file w, u.ExpectsAt file w →
    u'.ExpectsAt file w ∨ u'.book.status? w = some .released ∧ w ∈ ended
  released : ∀ w, u.book.status? w = some .released → u'.book.status? w = some .released
  ended : ∀ w ∈ ended, u'.book.status? w = some .released

theorem Notifies.refl (u : Updates) : Notifies u u [] :=
  ⟨fun _ _ h => .inl h, fun _ h => h, fun _ h => absurd h List.not_mem_nil⟩

theorem Notifies.trans (h : Notifies u u' ended) (h' : Notifies u' u'' ended') :
    Notifies u u'' (ended ++ ended') where
  expected file w hw := by
    rcases h.expected file w hw with hw | ⟨hr, hm⟩
    · exact (h'.expected file w hw).imp_right fun hw => ⟨hw.1, List.mem_append_right _ hw.2⟩
    · exact .inr ⟨h'.released w hr, List.mem_append_left _ hm⟩
  released w hw := h'.released w (h.released w hw)
  ended w hw := (List.mem_append.mp hw).elim (fun hm => h'.released w (h.ended w hm)) (h'.ended w)

/-- Waits have ended in one way; those that have not are still known, and no others. -/
structure Settles (status : WaitStatus) (u u' : Updates) (ended : List WaitId) : Prop where
  book : u.book.Ends status u'.book ended
  rows : ∀ file, ∀ id ∈ (u'.pending.get? file).getD [], id ∈ (u.pending.get? file).getD []
  spared : ∀ file id, u.ExpectsAt file id → id ∉ ended → u'.ExpectsAt file id

namespace Settles

theorem refl (status : WaitStatus) (u : Updates) : Settles status u u [] :=
  ⟨.refl status u.book, fun _ _ h => h, fun _ _ h _ => h⟩

theorem trans (h : Settles status u u' ended) (h' : Settles status u' u'' ended')
    (hs : status ≠ .pending) : Settles status u u'' (ended ++ ended') := by
  refine ⟨h.book.trans h'.book hs, fun f id hm => h.rows f id (h'.rows f id hm), ?_⟩
  intro f id hw hm
  rw [List.mem_append, not_or] at hm
  exact h'.spared f id (h.spared f id hw hm.1) hm.2

theorem notifies (h : Settles .released u u' ended) : Notifies u u' ended where
  expected file w hw := by
    by_cases hm : w ∈ ended
    · exact .inr ⟨(h.book.each w hm).2, hm⟩
    · exact .inl (h.spared file w hw hm)
  released w hw := h.book.steady hw released_ne_pending
  ended w hm := (h.book.each w hm).2

end Settles

theorem mem_notify : w ∈ (u.notify file).2 ↔ u.ExpectsAt file w :=
  u.book.mem_finishAll _ released_ne_pending

theorem notify_settles (u : Updates) (file : Text) :
    Settles .released u (u.notify file).1 (u.notify file).2 := by
  have hbook : u.book.Ends .released (u.notify file).1.book (u.notify file).2 :=
    u.book.finishAll_ends _ released_ne_pending
  have hother : ∀ f, file ≠ f → (u.notify file).1.pending.get? f = u.pending.get? f :=
    fun f hf => u.pending.get?_erase_of_ne hf
  refine ⟨hbook, fun f id hm => ?_, fun f id hw hout => ?_⟩
  · by_cases hf : file = f
    · subst hf
      have hnone : (u.notify file).1.pending.get? file = none := u.pending.get?_erase_self file
      rw [hnone] at hm
      cases hm
    · rwa [hother f hf] at hm
  · have hf : file ≠ f := by
      rintro rfl
      exact hout (mem_notify.mpr hw)
    refine ⟨(hbook.others id hout).trans hw.1, ?_⟩
    rw [hother f hf]
    exact hw.2

theorem foldl_notify (files : List Text) (u : Updates) (ended : List WaitId) :
    files.foldl (fun (u, ended) file => ((u.notify file).1, ended ++ (u.notify file).2))
      (u, ended) = ((u.notifyFiles files).1, ended ++ (u.notifyFiles files).2) := by
  induction files generalizing u ended with
  | nil => simp [notifyFiles]
  | cons first rest ih =>
    have hfirst : u.notifyFiles (first :: rest) =
        (((u.notify first).1.notifyFiles rest).1,
          [] ++ (u.notify first).2 ++ ((u.notify first).1.notifyFiles rest).2) := ih ..
    rw [List.foldl_cons, ih, hfirst, List.nil_append, List.append_assoc]

theorem notifyFiles_cons (u : Updates) (file : Text) (files : List Text) :
    u.notifyFiles (file :: files) =
      (((u.notify file).1.notifyFiles files).1,
        (u.notify file).2 ++ ((u.notify file).1.notifyFiles files).2) :=
  foldl_notify files ..

theorem notifyFiles_settles (u : Updates) (files : List Text) :
    Settles .released u (u.notifyFiles files).1 (u.notifyFiles files).2 := by
  induction files generalizing u with
  | nil => exact .refl _ u
  | cons first rest ih =>
    rw [notifyFiles_cons]
    exact (u.notify_settles first).trans (ih _) released_ne_pending

theorem notifyFiles_notifies (u : Updates) (files : List Text) :
    Notifies u (u.notifyFiles files).1 (u.notifyFiles files).2 :=
  (u.notifyFiles_settles files).notifies

/-- News about some files releases all waits for each of them. -/
theorem released_notifyFiles {files : List Text} (h : u.ExpectsAt file w) (hf : file ∈ files) :
    (u.notifyFiles files).1.book.status? w = some .released := by
  induction files generalizing u with
  | nil => exact absurd hf List.not_mem_nil
  | cons first rest ih =>
    rw [notifyFiles_cons]
    have hfirst := u.notify_settles first
    by_cases hm : w ∈ (u.notify first).2
    · have hrest := (u.notify first).1.notifyFiles_settles rest
      exact hrest.book.steady (hfirst.book.each w hm).2 released_ne_pending
    · have hne : file ≠ first := by
        rintro rfl
        exact hm (mem_notify.mpr h)
      exact ih (hfirst.spared file w h hm) ((List.mem_cons.mp hf).resolve_left hne)

theorem notifyAll_notifies (u : Updates) : Notifies u u.notifyAll.1 u.notifyAll.2 :=
  notifyFiles_notifies u u.pending.keys

/-- After the end of a run nobody is left waiting. -/
theorem released_notifyAll (h : u.Expects w) : u.notifyAll.1.book.status? w = some .released := by
  obtain ⟨file, hw⟩ := h
  refine released_notifyFiles hw ?_
  have hsome : (u.pending.get? file).isSome := by
    cases hg : u.pending.get? file with
    | none => simp [ExpectsAt, hg] at hw
    | some waits => rfl
  exact Table.mem_keys_of_get? hsome

/-- When all waits for news are cancelled nobody can hope for any. -/
theorem Expects.cancelled (h : u.Expects w) : w ∈ u.cancelAll.2 := by
  obtain ⟨file, hpending, hfile⟩ := h
  have hmem : w ∈ u.pending.flatMap Prod.snd := by
    cases hget : u.pending.get? file with
    | none =>
      rw [hget] at hfile
      exact absurd hfile List.not_mem_nil
    | some waits =>
      rw [hget] at hfile
      exact List.mem_flatMap.mpr ⟨_, Table.mem_of_get? hget, hfile⟩
  exact (u.book.mem_finishAll _ cancelled_ne_pending).mpr ⟨hpending, hmem⟩

theorem cancelAll_settles (u : Updates) : Settles .cancelled u u.cancelAll.1 u.cancelAll.2 :=
  ⟨u.book.finishAll_ends _ cancelled_ne_pending, nofun,
    fun f _ hw hout => absurd (Expects.cancelled ⟨f, hw⟩) hout⟩

theorem cancel_settles (u : Updates) (id : WaitId) :
    Settles .cancelled u (u.cancel id) (u.book.finishAll [id] .cancelled).2 := by
  have hbook : u.book.Ends .cancelled (u.cancel id).book (u.book.finishAll [id] .cancelled).2 := by
    rw [cancel, WaitBook.finish_eq]
    exact u.book.finishAll_ends [id] cancelled_ne_pending
  exact ⟨hbook, fun _ _ hm => hm, fun _ w hw hout => ⟨(hbook.others w hout).trans hw.1, hw.2⟩⟩

/-! ## A new wait -/

theorem status?_waitFor_eq (u : Updates) (file : Text) (w : WaitId) :
    (u.waitFor file).1.book.status? w =
      if w = (u.waitFor file).2 then some .pending else u.book.status? w :=
  u.book.status?_issue .pending w

theorem status?_waitFor_new (u : Updates) (file : Text) :
    u.book.status? (u.waitFor file).2 = none := u.book.status?_issued .pending

/-- A new wait comes to the others for its file. -/
theorem mem_row_waitFor {f : Text} : w ∈ ((u.waitFor file).1.pending.get? f).getD [] ↔
    w ∈ (u.pending.get? f).getD [] ∨ f = file ∧ w = (u.waitFor file).2 := by
  by_cases hf : file = f
  · subst hf
    have hget : (u.waitFor file).1.pending.get? file =
        some ((u.pending.get? file).getD [] ++ [(u.waitFor file).2]) := Table.get?_put_self ..
    simp [hget]
  · have hget : (u.waitFor file).1.pending.get? f = u.pending.get? f :=
      Table.get?_put_of_ne _ _ hf
    simp [hget, Ne.symm hf]

theorem expectsAt_waitFor (u : Updates) (file : Text) :
    (u.waitFor file).1.ExpectsAt file (u.waitFor file).2 :=
  ⟨(status?_waitFor_eq ..).trans (if_pos rfl), mem_row_waitFor.mpr (.inr ⟨rfl, rfl⟩)⟩

theorem status?_waitFor (h : u.book.status? w = some status) :
    (u.waitFor file).1.book.status? w = some status := by
  have hne : w ≠ (u.waitFor file).2 := by
    rintro rfl
    cases (status?_waitFor_new u file).symm.trans h
  rw [status?_waitFor_eq, if_neg hne]
  exact h

theorem ExpectsAt.waitFor {f : Text} (h : u.ExpectsAt f w) : (u.waitFor file).1.ExpectsAt f w :=
  ⟨status?_waitFor h.1, mem_row_waitFor.mpr (.inl h.2)⟩

end Updates

end VerifierHost
