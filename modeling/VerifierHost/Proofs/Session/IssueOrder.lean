import Mathlib.Data.List.Sort
import VerifierHost.Proofs.Server.Awaiting
import VerifierHost.Proofs.Session.StatusLine

/-! # The order of runs

All who are on the way to the shared server stand in one line: those who are about to go on, those
who are about to hear of the end of their startup, those who wait for the startup under way, and
those who have yet to begin. Whatever happens, the line is ordered by when they asked
(`Session.Lined`): one goes over from the front of a part to the back of the part before, so nobody
changes places, or one leaves. Only who leaves from the last part passes others by. -/

namespace VerifierHost

def Notice.begins? : Notice → Option TaskId
  | .begin id => some id
  | _ => none

def Notice.tells? : Notice → Option TaskId
  | .startupEnded id => some id
  | _ => none

def Standing.hasCome : Standing → Bool
  | .startupCame _ => true
  | _ => false

theorem Standing.eq_of_hasCome {standing : Standing} (h : standing.hasCome = true) :
    ∃ answer, standing = .startupCame answer := by
  cases standing with
  | startupCame answer => exact ⟨answer, rfl⟩
  | _ => cases h

namespace Session

variable {s t : Session} {n m : Notice} {ns ns' more : List Notice} {id i j : TaskId} {k : Task}
  {standing : Standing} {waiting : List TaskId} {kills : Pid → Prop} {calls : Call → Prop}

/-- The task that a notice lets go on with what its startup has come to. -/
def recalls? (s : Session) : Notice → Option TaskId
  | .resume id => if (s.task? id).any (·.standing.hasCome) then some id else none
  | _ => none

/-- A task waits for a startup that is not over. -/
def Waiting (s : Session) (id : TaskId) : Prop :=
  ∃ k i, s.task? id = some k ∧ k.standing = .awaitingStartup i ∧
    (s.task? i).any Task.hasEnded = false

def line (s : Session) (ns : List Notice) (waiting : List TaskId) : List TaskId :=
  ns.filterMap s.recalls? ++
    (ns.filterMap Notice.tells? ++ (waiting ++ ns.filterMap Notice.begins?))

/-- Those on the way to the server stand in line as they asked. -/
structure Lined (ns : List Notice) (s : Session) : Prop where
  recalled : ∀ id k, .resume id ∈ ns → s.task? id = some k →
    k.standing ≠ .queued ∧ ∀ i, k.standing ≠ .awaitingStartup i
  ordered : ∃ waiting, (∀ id, id ∈ waiting ↔ s.Waiting id) ∧
    (s.line ns waiting).Pairwise (· < ·) ∧ ∀ id ∈ s.line ns waiting, id < s.tasks.length

/-! ## The parts of the line -/

theorem recalls?_eq_none (h : ∀ k answer, s.task? id = some k → k.standing ≠ .startupCame answer) :
    s.recalls? (.resume id) = none := by
  refine if_neg fun hany => ?_
  cases hk : s.task? id with
  | none => rw [hk] at hany; cases hany
  | some k =>
    rw [hk] at hany
    obtain ⟨answer, ha⟩ := Standing.eq_of_hasCome hany
    exact h k answer hk ha

theorem recalls?_came {answer : Answer} (hk : s.task? id = some k)
    (hs : k.standing = .startupCame answer) : s.recalls? (.resume id) = some id := by
  refine if_pos ?_
  rw [hk, Option.any_some, hs]
  rfl

theorem recalls?_congr (h : ∀ id, (t.task? id).any (·.standing.hasCome) =
    (s.task? id).any (·.standing.hasCome)) : t.recalls? = s.recalls? := by
  funext m
  cases m with
  | resume id => rw [recalls?, recalls?, h]
  | _ => rfl

theorem Plain.recalls? (h : m.Plain s) : s.recalls? m = none := by
  cases m with
  | resume id => exact recalls?_eq_none fun k answer hk hs => h k hk (by rw [hs]; trivial)
  | _ => rfl

theorem Plain.begins? (h : m.Plain s) : m.begins? = none := by
  cases m with
  | begin => exact h.elim
  | _ => rfl

theorem Plain.tells? (h : m.Plain s) : m.tells? = none := by
  cases m with
  | startupEnded => exact h.elim
  | _ => rfl

theorem filterMap_append_none {α β : Type} {f : α → Option β} {xs ys : List α}
    (h : ∀ y ∈ ys, f y = none) : (xs ++ ys).filterMap f = xs.filterMap f := by
  rw [List.filterMap_append, List.filterMap_eq_nil_iff.mpr h, List.append_nil]

theorem filterMap_sublist_of_le {α β : Type} {f g : α → Option β}
    (h : ∀ x, g x = none ∨ g x = f x) (xs : List α) : (xs.filterMap g).Sublist (xs.filterMap f) := by
  induction xs with
  | nil => exact .refl _
  | cons x rest ih =>
    rcases h x with hx | hx
    · rw [List.filterMap_cons_none hx]
      exact ih.trans ((List.sublist_cons_self x rest).filterMap f)
    · rw [List.filterMap_cons, List.filterMap_cons, hx]
      cases f x with
      | none => exact ih
      | some => exact ih.cons_cons _

/-! ## Nobody changes places -/

namespace Lined

theorem of_sublist (h : Lined ns s)
    (hrecalled : ∀ id k, .resume id ∈ ns' → t.task? id = some k →
      k.standing ≠ .queued ∧ ∀ i, k.standing ≠ .awaitingStartup i)
    (hlength : s.tasks.length ≤ t.tasks.length)
    (hline : ∀ waiting, (∀ id, id ∈ waiting ↔ s.Waiting id) → (s.line ns waiting).Pairwise (· < ·) →
      ∃ waiting', (∀ id, id ∈ waiting' ↔ t.Waiting id) ∧
        (t.line ns' waiting').Sublist (s.line ns waiting)) : Lined ns' t := by
  obtain ⟨waiting, hw, hordered, hbound⟩ := h.ordered
  obtain ⟨waiting', hw', hsub⟩ := hline waiting hw hordered
  exact ⟨hrecalled, waiting', hw', hordered.sublist hsub,
    fun id hid => Nat.lt_of_lt_of_le (hbound id (hsub.subset hid)) hlength⟩

/-- Nobody moves, and the notices that are added are plain. -/
theorem stays (h : Lined ns s) (hrest : ns'.Sublist ns) (htasks : t.tasks = s.tasks)
    (hm : ∀ m ∈ more, m.Plain s) : Lined (ns' ++ more) t := by
  have htask := task?_congr htasks
  refine h.of_sublist (fun id k hid hk => ?_) (Nat.le_of_eq (by rw [htasks])) fun waiting hw _ =>
    ⟨waiting, fun id => (hw id).trans ?_, ?_⟩
  · have hk := (htask id).symm.trans hk
    rcases List.mem_append.mp hid with hid | hid
    · exact h.recalled id k (hrest.subset hid) hk
    · have hoff := hm _ hid k hk
      exact ⟨fun hs => hoff (by rw [hs]; trivial), fun i hs => hoff (by rw [hs]; trivial)⟩
  · unfold Waiting
    simp only [htask]
  · unfold line
    have hrecalls : t.recalls? = s.recalls? := recalls?_congr fun id => by rw [htask]
    rw [hrecalls, filterMap_append_none (f := s.recalls?) fun m hmem => Plain.recalls? (hm m hmem),
      filterMap_append_none fun m hmem => Plain.tells? (hm m hmem),
      filterMap_append_none fun m hmem => Plain.begins? (hm m hmem)]
    exact (hrest.filterMap _).append ((hrest.filterMap _).append
      ((List.Sublist.refl _).append (hrest.filterMap _)))

theorem congr (h : Lined ns s) (htasks : t.tasks = s.tasks) : Lined ns t := by
  rw [← List.append_nil ns]
  exact h.stays (.refl _) htasks nofun

/-- When a task leaves that does not wait itself, those who waited still do, unless it has ended and
they waited for it. -/
theorem waiting_iff_of_parts (hp : Parts kills calls id standing s t) (hk : s.task? id = some k)
    (hopen : k.hasEnded = false) (hidle : ∀ i, k.standing ≠ .awaitingStartup i)
    (haway : ¬ standing.OnTheWay) (j : TaskId) :
    t.Waiting j ↔ s.Waiting j ∧ ¬ (standing.IsEnded ∧ ∃ kj, s.task? j = some kj ∧
      kj.standing = .awaitingStartup id) := by
  have hself := task?_setStanding_self hk hp.tasks
  have hothers := task?_setStanding_of_ne hp.tasks
  constructor
  · rintro ⟨kj, i, hkj, hj, hpending⟩
    rcases task?_setStanding_cases hp.tasks hkj with ⟨_, -, -, rfl⟩ | ⟨-, hkj⟩
    · exact absurd (by rw [show standing = .awaitingStartup i from hj]; trivial) haway
    · by_cases hid : i = id
      · subst hid
        rw [hself] at hpending
        refine ⟨⟨kj, i, hkj, hj, by rw [hk]; exact hopen⟩, fun hended => ?_⟩
        rw [Option.any_some, (Task.hasEnded_iff (k := { k with standing })).mpr hended.1] at hpending
        cases hpending
      · refine ⟨⟨kj, i, hkj, hj, (hothers i hid) ▸ hpending⟩, ?_⟩
        rintro ⟨-, kj', hkj', hj'⟩
        cases hkj.symm.trans hkj'
        cases hj.symm.trans hj'
        exact hid rfl
  · rintro ⟨⟨kj, i, hkj, hj, hpending⟩, hnot⟩
    have hne : j ≠ id := by
      rintro rfl
      cases hk.symm.trans hkj
      exact hidle i hj
    refine ⟨kj, i, (hothers j hne).trans hkj, hj, ?_⟩
    by_cases hid : i = id
    · subst hid
      rw [hself, Option.any_some]
      exact Bool.eq_false_iff.mpr fun he => hnot ⟨Task.hasEnded_iff.mp he, kj, hkj, hj⟩
    · rw [hothers i hid]
      exact hpending

/-- All who wait wait for the same startup. -/
theorem waiting_iff_of_linked (h : Linked ns s) (hopen : (s.task? id).any Task.hasEnded = false)
    (hj : ∃ k, s.task? j = some k ∧ k.standing = .awaitingStartup id) (i : TaskId) :
    s.Waiting i ↔ ∃ k, s.task? i = some k ∧ k.standing = .awaitingStartup id := by
  constructor
  · rintro ⟨ki, startup, hki, hi, hpending⟩
    obtain ⟨kj, hkj, hj⟩ := hj
    have hone : s.startup = some id := (h.waits j kj id hkj hj).2.open hopen
    cases ((h.waits i ki startup hki hi).2.open hpending).symm.trans hone
    exact ⟨ki, hki, hi⟩
  · rintro ⟨ki, hki, hi⟩
    exact ⟨ki, id, hki, hi, hopen⟩

/-- What becomes of those who wait when a task leaves that does not wait itself: if they wait for it
and it has ended they are about to hear of that. -/
theorem waiting_of_parts (h : Linked (n :: ns) s) (hp : Parts kills calls id standing s t)
    (hk : s.task? id = some k) (hopen : k.hasEnded = false)
    (hidle : ∀ i, k.standing ≠ .awaitingStartup i) (haway : ¬ standing.OnTheWay)
    (hw : ∀ j, j ∈ waiting ↔ s.Waiting j) (hordered : waiting.Pairwise (· < ·)) :
    ∃ waiting', (∀ j, j ∈ waiting' ↔ t.Waiting j) ∧
      (s.farewell id standing).filterMap Notice.tells? ++ waiting' = waiting := by
  have hiff := waiting_iff_of_parts hp hk hopen hidle haway
  have hpending : (s.task? id).any Task.hasEnded = false := by rw [hk]; exact hopen
  by_cases hfarewell : standing.IsEnded ∧ ∃ j kj, s.task? j = some kj ∧
      kj.standing = .awaitingStartup id
  · obtain ⟨hended, j, hj⟩ := hfarewell
    have hall := waiting_iff_of_linked h hpending hj
    refine ⟨[], fun i => ⟨fun hi => absurd hi List.not_mem_nil, fun hi => ?_⟩, ?_⟩
    · obtain ⟨hi, hnot⟩ := (hiff i).mp hi
      exact absurd ⟨hended, (hall i).mp hi⟩ hnot
    · have htells : ∀ ids : List TaskId, (ids.map .startupEnded).filterMap Notice.tells? = ids :=
        fun ids => by rw [List.filterMap_map]; exact List.filterMap_some
      rw [farewell, if_pos hended, htells, List.append_nil]
      -- both are in order, and there is only one way to put tasks in order
      exact (List.pairwise_lt_range.sublist List.filter_sublist).eq_of_mem_iff hordered fun i =>
        mem_awaitsStartup.trans ((hall i).symm.trans (hw i).symm)
  · refine ⟨waiting, fun j => ?_, ?_⟩
    · rw [hw, hiff, and_iff_left]
      exact fun hheard => hfarewell ⟨hheard.1, j, hheard.2⟩
    · unfold farewell
      split
      next hended =>
        have hnone : s.tasksWhere (awaitsStartup id) = [] :=
          List.eq_nil_iff_forall_not_mem.mpr fun j hj =>
            hfarewell ⟨hended, j, mem_awaitsStartup.mp hj⟩
        rw [hnone]
        rfl
      next => rfl

/-- One leaves who did not wait. -/
theorem leaves (h : Lined (n :: s.queue) s) (hl : Linked (n :: s.queue) s)
    (hp : Parts kills calls id standing s t) (hk : s.task? id = some k)
    (hopen : k.hasEnded = false) (hidle : ∀ i, k.standing ≠ .awaitingStartup i)
    (haway : ¬ standing.OnTheWay) : Lined t.queue t := by
  have hself := task?_setStanding_self hk hp.tasks
  have hothers := task?_setStanding_of_ne hp.tasks
  obtain ⟨more, hm, hq⟩ := hp.queue
  have hplain : ∀ m ∈ more, m.Plain t := fun m hmem =>
    Plain.setStanding (hm m hmem) haway hp.tasks
  have hfarewell : ∀ m ∈ s.farewell id standing, t.recalls? m = none ∧ m.begins? = none := by
    intro m hmem
    unfold farewell at hmem
    split at hmem
    · obtain ⟨j, -, rfl⟩ := List.mem_map.mp hmem
      exact ⟨rfl, rfl⟩
    · cases hmem
  rw [hq]
  refine h.of_sublist (fun j kj hmem hkj => ?_) ?_ fun waiting hw hordered => ?_
  · by_cases hid : j = id
    · subst hid
      cases hself.symm.trans hkj
      exact ⟨fun hs => haway (by rw [show standing = _ from hs]; trivial),
        fun i hs => haway (by rw [show standing = _ from hs]; trivial)⟩
    · have hkj := (hothers j hid).symm.trans hkj
      rcases List.mem_append.mp hmem with hmem | hmem
      · rcases List.mem_append.mp hmem with hmem | hmem
        · exact h.recalled j kj (List.mem_cons_of_mem _ hmem) hkj
        · have hoff := hm _ hmem kj hkj
          exact ⟨fun hs => hoff (by rw [hs]; trivial), fun i hs => hoff (by rw [hs]; trivial)⟩
      · unfold farewell at hmem
        split at hmem
        · obtain ⟨_, -, he⟩ := List.mem_map.mp hmem
          cases he
        · cases hmem
  · rw [hp.tasks]
    exact Nat.le_of_eq (List.length_modify ..).symm
  · have hwaiting : waiting.Pairwise (· < ·) :=
      (List.pairwise_append.mp (List.pairwise_append.mp (List.pairwise_append.mp hordered).2.1).2.1).1
    obtain ⟨waiting', hw', rfl⟩ := waiting_of_parts hl hp hk hopen hidle haway hw hwaiting
    refine ⟨waiting', hw', ?_⟩
    have hrest := List.sublist_cons_self n s.queue
    have hrecalls : ∀ m, t.recalls? m = none ∨ t.recalls? m = s.recalls? m := by
      intro m
      cases m with
      | resume j =>
        by_cases hid : j = id
        · subst hid
          refine .inl (recalls?_eq_none fun kj answer hkj hs => ?_)
          cases hself.symm.trans hkj
          exact haway (by rw [show standing = _ from hs]; trivial)
        · exact .inr (by rw [recalls?, recalls?, hothers j hid])
      | _ => exact .inl rfl
    unfold line
    rw [filterMap_append_none fun m hmem => (hfarewell m hmem).1,
      filterMap_append_none fun m hmem => Plain.recalls? (hplain m hmem),
      filterMap_append_none fun m hmem => (hfarewell m hmem).2,
      filterMap_append_none fun m hmem => Plain.begins? (hplain m hmem), List.filterMap_append,
      filterMap_append_none fun m hmem => Plain.tells? (hplain m hmem), List.append_assoc,
      List.append_assoc]
    exact ((filterMap_sublist_of_le hrecalls _).trans (hrest.filterMap _)).append
      ((hrest.filterMap _).append ((List.Sublist.refl _).append
        ((List.Sublist.refl _).append (hrest.filterMap _))))

/-- A task is added; it is the last. -/
theorem add (h : Lined ns s) (hns : ∀ id, .resume id ∈ ns → ∃ k, s.task? id = some k)
    {request : Request} (htasks : t.tasks = s.tasks ++ [⟨request, .queued⟩]) :
    Lined (ns ++ [.begin s.tasks.length]) t := by
  have htask := task?_added htasks
  have hany : ∀ p : Task → Bool, p ⟨request, .queued⟩ = false →
      ∀ i, (t.task? i).any p = (s.task? i).any p := by
    intro p hp i
    rcases htask i with he | ⟨hnone, hnew⟩
    · rw [he]
    · rw [hnone, hnew, Option.any_some, hp]
      rfl
  obtain ⟨waiting, hw, hordered, hbound⟩ := h.ordered
  have hline : t.line (ns ++ [.begin s.tasks.length]) waiting =
      s.line ns waiting ++ [s.tasks.length] := by
    have hrecalls : t.recalls? = s.recalls? := recalls?_congr (hany _ rfl)
    unfold line
    rw [hrecalls, List.filterMap_append, List.filterMap_append, List.filterMap_append]
    simp [List.filterMap_cons, recalls?, Notice.tells?, Notice.begins?]
  refine ⟨fun id k hmem hk => ?_, waiting, fun id => ?_, ?_, fun id hid => ?_⟩
  · rcases List.mem_append.mp hmem with hmem | hmem
    · obtain ⟨k', hk'⟩ := hns id hmem
      rcases htask id with he | ⟨hnone, -⟩
      · exact h.recalled id k hmem (he.symm.trans hk)
      · cases hnone.symm.trans hk'
    · cases List.mem_singleton.mp hmem
  · rw [hw]
    refine exists_congr fun k => exists_congr fun i => ?_
    rw [hany _ rfl]
    refine and_congr_left fun hrest => ?_
    rcases htask id with he | ⟨hnone, hnew⟩
    · rw [he]
    · rw [hnone, hnew]
      refine ⟨nofun, fun hk => ?_⟩
      cases hk
      cases hrest.1
  · rw [hline, List.pairwise_append]
    refine ⟨hordered, List.pairwise_singleton .., fun a ha b hb => ?_⟩
    rw [List.mem_singleton.mp hb]
    exact hbound a ha
  · rw [htasks, List.length_append]
    rw [hline] at hid
    rcases List.mem_append.mp hid with hid | hid
    · exact Nat.lt_of_lt_of_le (hbound id hid) (Nat.le_add_right ..)
    · rw [List.mem_singleton.mp hid]
      exact Nat.lt_succ_self _

/-- Who begins waits for the startup under way: from the front of the last part to the back of the
part before. -/
theorem joins (h : Lined (.begin id :: ns) s) (hk : s.task? id = some k)
    (hq : k.standing = .queued) (hpending : (s.task? i).any Task.hasEnded = false) :
    Lined ns (s.setStanding id (.awaitingStartup i)) := by
  have hself : (s.setStanding id (.awaitingStartup i)).task? id = _ := task?_setStanding_self hk rfl
  have hothers : ∀ j, j ≠ id → (s.setStanding id (.awaitingStartup i)).task? j = s.task? j :=
    task?_setStanding_of_ne rfl
  have hany : ∀ p : Task → Bool, p { k with standing := .awaitingStartup i } = p k → ∀ j,
      ((s.setStanding id (.awaitingStartup i)).task? j).any p = (s.task? j).any p := by
    intro p hp j
    by_cases hj : j = id
    · subst hj
      rw [hself, hk, Option.any_some, Option.any_some, hp]
    · rw [hothers j hj]
  obtain ⟨request, standing⟩ := k
  cases hq
  obtain ⟨waiting, hw, hordered, hbound⟩ := h.ordered
  have hline : (s.setStanding id (.awaitingStartup i)).line ns (waiting ++ [id]) =
      s.line (.begin id :: ns) waiting := by
    have hrecalls : (s.setStanding id (.awaitingStartup i)).recalls? = s.recalls? :=
      recalls?_congr (hany _ rfl)
    unfold line
    rw [hrecalls]
    simp [List.filterMap_cons, recalls?, Notice.tells?, Notice.begins?]
  refine ⟨fun j kj hmem hkj => ?_, waiting ++ [id], fun j => ?_, hline ▸ hordered, fun j hj => ?_⟩
  · by_cases hj : j = id
    · subst hj
      exact absurd rfl (h.recalled j _ (List.mem_cons_of_mem _ hmem) hk).1
    · exact h.recalled j kj (List.mem_cons_of_mem _ hmem) ((hothers j hj).symm.trans hkj)
  · rw [List.mem_append, List.mem_singleton, hw]
    by_cases hj : j = id
    · subst hj
      refine iff_of_true (.inr rfl) ⟨_, i, hself, rfl, ?_⟩
      rw [hany _ rfl]
      exact hpending
    · rw [or_iff_left hj]
      refine exists_congr fun kj => exists_congr fun i' => ?_
      rw [hothers j hj, hany _ rfl]
  · show j < (s.tasks.modify id _).length
    rw [List.length_modify]
    exact hbound j (hline ▸ hj)

/-- Who hears of the end of the startup is about to go on. -/
theorem hears (h : Lined (.startupEnded id :: ns) s) {answer : Answer}
    (hk : s.task? id = some k) (hs : k.standing = .awaitingStartup i)
    (hended : (s.task? i).any Task.hasEnded = true) :
    Lined (ns ++ [.resume id]) (s.setStanding id (.startupCame answer)) := by
  have hself : (s.setStanding id (.startupCame answer)).task? id = _ := task?_setStanding_self hk rfl
  have hothers : ∀ j, j ≠ id → (s.setStanding id (.startupCame answer)).task? j = s.task? j :=
    task?_setStanding_of_ne rfl
  obtain ⟨waiting, hw, hordered, hbound⟩ := h.ordered
  have hrecalls : ns.filterMap (s.setStanding id (.startupCame answer)).recalls? =
      ns.filterMap s.recalls? := by
    refine List.filterMap_congr fun m hmem => ?_
    cases m with
    | resume j =>
      have hj : j ≠ id := by
        rintro rfl
        exact (h.recalled j k (List.mem_cons_of_mem _ hmem) hk).2 i hs
      rw [recalls?, recalls?, hothers j hj]
    | _ => rfl
  have hline : (s.setStanding id (.startupCame answer)).line (ns ++ [.resume id]) waiting =
      s.line (.startupEnded id :: ns) waiting := by
    have hlast : [Notice.resume id].filterMap (s.setStanding id (.startupCame answer)).recalls? =
        [id] := by
      rw [List.filterMap_cons, recalls?_came hself rfl]
      rfl
    unfold line
    rw [List.filterMap_append, hrecalls, hlast]
    simp [List.filterMap_cons, recalls?, Notice.tells?, Notice.begins?]
  refine ⟨fun j kj hmem hkj => ?_, waiting, fun j => ?_, hline ▸ hordered, fun j hj => ?_⟩
  · by_cases hj : j = id
    · subst hj
      cases hself.symm.trans hkj
      exact ⟨nofun, nofun⟩
    · refine h.recalled j kj (List.mem_cons_of_mem _ ?_) ((hothers j hj).symm.trans hkj)
      refine (List.mem_append.mp hmem).resolve_right fun hmem => ?_
      cases List.mem_singleton.mp hmem
      exact hj rfl
  · rw [hw]
    by_cases hj : j = id
    · subst hj
      refine iff_of_false ?_ ?_
      · rintro ⟨kj, i', hkj, hs', hpending⟩
        cases hk.symm.trans hkj
        cases hs.symm.trans hs'
        rw [hended] at hpending
        cases hpending
      · rintro ⟨kj, i', hkj, hs', -⟩
        cases hself.symm.trans hkj
        cases hs'
    · refine exists_congr fun kj => exists_congr fun i' => ?_
      rw [hothers j hj]
      by_cases hi : i' = id
      · subst hi
        rw [hself, hk, Option.any_some, Option.any_some, Task.hasEnded_eq_false hs not_false]
        rfl
      · rw [hothers i' hi]
  · show j < (s.tasks.modify id _).length
    rw [List.length_modify]
    exact hbound j (hline ▸ hj)

end Lined

/-- **Whatever a notice leads to, the line stays in order.** -/
theorem Errand.lined (he : Errand n s t) (hs : Sound (n :: s.queue) s)
    (hl : Linked (n :: s.queue) s) (h : Lined (n :: s.queue) s) : Lined t.queue t := by
  cases he with
  | rests idles =>
    obtain ⟨more, hq, hm⟩ := idles.queue
    rw [hq]
    exact h.stays (List.sublist_cons_self ..) idles.tasks hm
  | leaves task opened turn cue waits away parts =>
    refine h.leaves hl parts task opened (fun i hi => ?_) away
    rcases turn (by rw [hi]; trivial) with ⟨-, hq⟩ | ⟨-, answer, ha⟩
    · cases hi.symm.trans hq
    · cases hi.symm.trans ha
  | joins notice task queued calls unknown startup pending result =>
    subst result notice
    exact h.joins task queued pending
  | @opens id k notice task queued calls unknown spent result =>
    have hadded : Lined (n :: s.queue ++ [.begin s.tasks.length])
        { (s.addTask .startup).1 with startup := some s.tasks.length } :=
      h.add (fun i hi => (hs.waiters.resumes i hi).imp fun _ hk => hk.1) rfl
    subst result notice
    refine hadded.joins (task?_addTask task .startup) queued ?_
    show Option.any Task.hasEnded (s.tasks ++ [_])[s.tasks.length]? = false
    rw [List.getElem?_concat_length]
    rfl
  | @hears id i k answer notice task waits ended result =>
    subst result notice
    refine Lined.congr (h.hears task waits ?_) rfl
    obtain ⟨ki, hki, ha⟩ := Option.bind_eq_some_iff.mp ended
    rw [hki, Option.any_some, Task.hasEnded, ha]
    rfl

theorem Lined.act (h : Lined s.queue s) (hs : Sound s.queue s) (hl : Linked s.queue s)
    (a : Action) : Lined (s.act a).queue (s.act a) := by
  cases a with
  | ask request => exact h.add (fun i hi => (hs.waiters.resumes i hi).imp fun _ hk => hk.1) rfl
  | feed | exit =>
    refine h.stays (.refl _) rfl fun m hm => ?_
    obtain ⟨wake, -, rfl⟩ := List.mem_map.mp hm
    trivial
  | step =>
    cases hq : s.queue with
    | nil =>
      rw [Session.act, step_nil hq]
      exact h
    | cons n rest =>
      rw [hq] at h hs hl
      exact (step_errand hq).lined (hs.congr rfl rfl rfl rfl) (hl.same rfl rfl fun m hm _ => hm)
        (h.congr rfl)

/-- All who stand in line where they should. -/
theorem Lined.first (h : Lined (n :: ns) s) (hs : Sound (n :: ns) s) (hl : Linked (n :: ns) s)
    (hturn : s.RunTurn n i) (hlt : j < i) (hk : s.task? j = some k) (hway : k.standing.OnTheWay) :
    n = .begin i ∧ k.standing ≠ .queued := by
  obtain ⟨waiting, hw, hordered, -⟩ := h.ordered
  obtain ⟨ki, hki, hn⟩ := hturn
  unfold line at hordered
  rcases hn with ⟨rfl, -⟩ | ⟨rfl, answer, hcame⟩
  · -- those who have yet to begin come last, and the first of them begins
    refine ⟨rfl, fun hq => ?_⟩
    have hbegins : (i :: ns.filterMap Notice.begins?).Pairwise (· < ·) := (List.pairwise_append.mp
      (List.pairwise_append.mp (List.pairwise_append.mp hordered).2.1).2.1).2.1
    have hmem := (List.mem_cons.mp (hs.waiters.queued j k hk hq)).resolve_left
      (by rintro ⟨⟩; exact Nat.lt_irrefl _ hlt)
    have hmem : j ∈ ns.filterMap Notice.begins? := List.mem_filterMap.mpr ⟨_, hmem, rfl⟩
    exact Nat.lt_asymm hlt (List.rel_of_pairwise_cons hbegins hmem)
  · -- whoever is about to go on comes before all others
    rw [List.filterMap_cons_some (recalls?_came hki hcame), List.cons_append] at hordered
    have hafter : ∀ {m}, m ∈ Notice.resume i :: ns → m ≠ .resume i → m ∈ ns := fun hm hne =>
      (List.mem_cons.mp hm).resolve_left hne
    have hmem : j ∈ s.line ns waiting := by
      unfold line
      cases hst : k.standing with
      | queued =>
        have hm := hafter (hs.waiters.queued j k hk hst) nofun
        simp only [List.mem_append]
        exact .inr (.inr (.inr (List.mem_filterMap.mpr ⟨_, hm, rfl⟩)))
      | awaitingStartup a =>
        simp only [List.mem_append]
        cases hended : (s.task? a).any Task.hasEnded with
        | true =>
          have hm := hafter ((hl.waits j k a hk hst).2.told hended) nofun
          exact .inr (.inl (List.mem_filterMap.mpr ⟨_, hm, rfl⟩))
        | false => exact .inr (.inr (.inl ((hw j).mpr ⟨k, a, hk, hst, hended⟩)))
      | startupCame answer' =>
        have hm := hafter (hl.came j k answer' hk hst).2.2
          (by rintro ⟨⟩; exact Nat.lt_irrefl _ hlt)
        exact List.mem_append_left _ (List.mem_filterMap.mpr ⟨_, hm, recalls?_came hk hst⟩)
      | _ => rw [hst] at hway; exact hway.elim
    exact absurd (List.rel_of_pairwise_cons hordered hmem) (Nat.lt_asymm hlt)

/-! ## Histories -/

/-- All who are on the way to the server will be moved on, in order. -/
structure Marshalled (s : Session) : Prop where
  sound : Sound s.queue s
  linked : Linked s.queue s
  lined : Lined s.queue s

theorem Marshalled.act (h : s.Marshalled) (a : Action) : (s.act a).Marshalled :=
  ⟨h.sound.act a, h.linked.act h.sound a, h.lined.act h.sound h.linked a⟩

theorem Fresh.marshalled (h : s.Fresh) : s.Marshalled := by
  have hqueue : s.queue = [] := by
    obtain ⟨_, _, _, _, _, _, _, _, _, rfl⟩ := h
    rfl
  have hlined : Lined [] s := by
    refine ⟨fun _ _ hmem => absurd hmem List.not_mem_nil, [], fun id => ?_, .nil,
      fun _ hmem => absurd hmem List.not_mem_nil⟩
    refine iff_of_false List.not_mem_nil ?_
    rintro ⟨k, i, hk, -⟩
    exact h.task?_ne_some hk
  exact ⟨h.sound, h.linked, hqueue ▸ hlined⟩

theorem Marshalled.after (h : s.Marshalled) (actions : List Action) : (s.after actions).Marshalled :=
  after_induction h (fun _ a hu => hu.act a) actions

/-- One task passes another by: it begins its run at once, while the other waits for the startup of
the shared server or is about to go on after it. -/
def Passes (s : Session) (later earlier : TaskId) : Prop :=
  (∃ k, s.task? later = some k ∧ k.standing = .queued) ∧ ∃ k, s.task? earlier = some k ∧
    ((∃ i, k.standing = .awaitingStartup i) ∨ ∃ answer, k.standing = .startupCame answer)

/-- Whoever begins a run before one that asked earlier passes it by. -/
theorem Marshalled.passes (h : s.Marshalled) {a : Action} (hstarter : s.starter a = some i)
    (hlt : j < i) (hk : s.task? j = some k) (hway : k.standing.OnTheWay) : s.Passes i j := by
  obtain ⟨-, n, rest, hq, hturn⟩ := starter_turn h.sound hstarter
  have hsound := h.sound
  have hlinked := h.linked
  have hlined := h.lined
  rw [hq] at hsound hlinked hlined
  obtain ⟨rfl, hbegun⟩ := hlined.first hsound hlinked hturn hlt hk hway
  obtain ⟨ki, hki, hqueued | ⟨hn, -⟩⟩ := hturn
  · refine ⟨⟨ki, hki, hqueued.2⟩, k, hk, ?_⟩
    cases hs : k.standing with
    | queued => exact absurd hs hbegun
    | awaitingStartup i => exact .inl ⟨i, rfl⟩
    | startupCame answer => exact .inr ⟨answer, rfl⟩
    | _ => rw [hs] at hway; exact hway.elim
  · cases hn

/-- Whoever has left the way does not come back. -/
theorem act_off (hk : s.task? j = some k) (hoff : ¬ k.standing.OnTheWay) (a : Action) :
    ∃ k', (s.act a).task? j = some k' ∧ ¬ k'.standing.OnTheWay := by
  cases a with
  | ask request => exact ⟨k, task?_addTask hk request, hoff⟩
  | feed | exit => exact ⟨k, hk, hoff⟩
  | step =>
    rw [act]
    cases hq : s.queue with
    | nil => exact ⟨k, by rw [step_nil hq]; exact hk, hoff⟩
    | cons n rest =>
      have hsame : ∀ {id standing}, (s.step).tasks = (s.setStanding id standing).tasks → j ≠ id →
          ∃ k', s.step.task? j = some k' ∧ ¬ k'.standing.OnTheWay := fun htasks hne =>
        ⟨k, (task?_setStanding_of_ne htasks j hne).trans hk, hoff⟩
      have hne : ∀ {id k'}, s.task? id = some k' → k'.standing.OnTheWay → j ≠ id := by
        rintro id k' hk' hway rfl
        cases hk.symm.trans hk'
        exact hoff hway
      cases step_errand hq with
      | rests idles => exact ⟨k, (task?_congr idles.tasks j).trans hk, hoff⟩
      | @leaves id k' standing task opened turn cue waits away parts =>
        by_cases hid : j = id
        · subst hid
          exact ⟨_, task?_setStanding_self (s := s) task parts.tasks, away⟩
        · exact hsame parts.tasks hid
      | joins notice task queued calls unknown startup pending result =>
        exact hsame (by rw [result]; rfl) (hne task (queued ▸ trivial))
      | @opens id k' notice task queued calls unknown spent result =>
        rw [result]
        exact ⟨k, (task?_setStanding_of_ne rfl j (hne task (queued ▸ trivial))).trans
          (task?_addTask hk .startup), hoff⟩
      | hears notice task waits ended result =>
        exact hsame (by rw [result]; rfl) (hne task (waits ▸ trivial))

/-- Whoever is to begin a run is on the way. -/
theorem Marshalled.onTheWay_of_starters (h : s.Marshalled) {actions : List Action}
    (hj : j ∈ s.starters actions) (hk : s.task? j = some k) : k.standing.OnTheWay := by
  induction actions generalizing s k with
  | nil => cases hj
  | cons a rest ih =>
    rcases List.mem_append.mp hj with hj | hj
    · obtain ⟨-, n, ns, -, kj, hkj, hturn⟩ := starter_turn h.sound (Option.mem_toList.mp hj)
      cases hk.symm.trans hkj
      rcases hturn with ⟨-, hs⟩ | ⟨-, answer, hs⟩ <;> rw [hs] <;> trivial
    · by_contra hoff
      obtain ⟨k', hk', hoff'⟩ := act_off hk hoff a
      exact hoff' (ih (h.act a) hj hk')

theorem starters_split {actions : List Action} (h : [i, j].Sublist (s.starters actions)) :
    ∃ before a later, actions = before ++ a :: later ∧ (s.after before).starter a = some i ∧
      j ∈ ((s.after before).act a).starters later := by
  induction actions generalizing s with
  | nil => cases h
  | cons a rest ih =>
    have hrest : [i, j].Sublist ((s.act a).starters rest) → ∃ before a' later,
        a :: rest = before ++ a' :: later ∧ (s.after before).starter a' = some i ∧
          j ∈ ((s.after before).act a').starters later := by
      intro h
      obtain ⟨before, a', later, rfl, hi, hj⟩ := ih h
      exact ⟨a :: before, a', later, rfl, hi, hj⟩
    rw [starters] at h
    cases hstarter : s.starter a with
    | none =>
      rw [hstarter] at h
      exact hrest h
    | some id =>
      rw [hstarter] at h
      rcases List.sublist_cons_iff.mp h with h | ⟨tail, he, htail⟩
      · exact hrest h
      · cases he
        exact ⟨[], a, rest, rfl, hstarter, List.singleton_sublist.mp htail⟩

/-- In a history one task has passed another by. -/
def PassedBy (s : Session) (actions : List Action) (later earlier : TaskId) : Prop :=
  ∃ before rest, actions = before ++ .step :: rest ∧
    (s.after before).starter .step = some later ∧ (s.after before).Passes later earlier

theorem starters_nodup (h : s.Fresh) (actions : List Action) : (s.starters actions).Nodup := by
  obtain ⟨stories, hsame, hrecounts⟩ := recounts_after h actions
  exact hsame ▸ hrecounts.nodup

/-- **Runs begin in the order of asking**, but for those that pass others by. -/
theorem starters_in_order (h : s.Fresh) {actions : List Action}
    (hsub : [i, j].Sublist (s.starters actions)) : i < j ∨ s.PassedBy actions i j := by
  have hne : i ≠ j := by
    rintro rfl
    exact absurd ((starters_nodup h actions).sublist hsub) (by simp)
  rcases Nat.lt_or_gt_of_ne hne with hlt | hlt
  · exact .inl hlt
  · obtain ⟨before, a, later, rfl, hi, hj⟩ := starters_split hsub
    have hu := h.marshalled.after before
    obtain ⟨rfl, n, rest, -, ki, hki, -⟩ := starter_turn hu.sound hi
    obtain ⟨k, hk⟩ : ∃ k, (s.after before).task? j = some k := by
      have hlen := Nat.lt_trans hlt (List.getElem?_eq_some_iff.mp hki).1
      exact ⟨_, List.getElem?_eq_getElem hlen⟩
    refine .inr ⟨before, later, rfl, hi, hu.passes hi hlt hk ?_⟩
    by_contra hoff
    obtain ⟨k', hk', hoff'⟩ := act_off hk hoff .step
    exact hoff' ((hu.act .step).onTheWay_of_starters hj hk')

/-! ## Who is superseded, and by whom -/

/-- A task that runs a verifier has begun a run. -/
theorem mem_starters_of_runs (h : s.Fresh) {actions : List Action} {pid : Pid}
    (hk : (s.after actions).task? i = some k) (hrun : k.standing.runs? = some pid) :
    i ∈ s.starters actions := by
  obtain ⟨stories, hsame, hrecounts⟩ := recounts_after h actions
  have hrunners := (h.sound_after actions).runners
  obtain ⟨r, hr, rfl⟩ := List.mem_map.mp (hrunners.tasks i k pid hk hrun).2
  obtain ⟨place, id, kid, -, hid, hkid, hserves⟩ := hrecounts.runs _ (List.mem_map_of_mem hr)
  obtain rfl := hrunners.sole id i kid k r.pid hkid hk hserves hrun
  rw [← hsame]
  exact List.mem_of_getElem? hid

/-- A launch is the beginning of a run. -/
theorem starter_of_launch {rest : List Notice} {path : Text} {target : VerificationTarget}
    {address : Text} (hs : Sound s.queue s)
    (hlaunch : s.step = { s with queue := rest }.launch id path target address) :
    ∃ j, s.starter .step = some j := by
  refine Option.ne_none_iff_exists'.mp fun hnone => ?_
  have hsame := (act_deed hs .step).runCount.mpr hnone
  have hcount := (launch_spec { s with queue := rest } id path target address).runCount
  rw [act, hlaunch, hcount] at hsame
  exact Nat.succ_ne_self _ hsame

/-- Whoever is answered that its run was superseded was told so before, begins a run that is so at
once, or has run until now. -/
theorem Marshalled.superseded_act (h : s.Marshalled) {a : Action} (hk : (s.act a).task? i = some k)
    (hver : k.request.Verifies) (hs : k.standing = .ended k.request.supersededAnswer) :
    s.task? i = some k ∨ s.starter a = some i ∨
      ∃ k₀ pid, s.task? i = some k₀ ∧ k₀.standing.runs? = some pid := by
  cases a with
  | ask request =>
    rcases task?_added_cases rfl hk with hk | ⟨-, rfl⟩
    · exact .inl hk
    · cases hs
  | feed | exit => exact .inl hk
  | step =>
    rw [Session.act] at hk
    cases hq : s.queue with
    | nil =>
      rw [step_nil hq] at hk
      exact .inl hk
    | cons n rest =>
      have hmoved : ∀ {id} standing, s.step.tasks = (s.setStanding id standing).tasks →
          ¬ standing.IsEnded → s.task? i = some k := by
        intro id standing htasks hopen
        rcases task?_setStanding_cases htasks hk with ⟨_, -, -, rfl⟩ | ⟨-, hk⟩
        · rw [show standing = _ from hs] at hopen
          exact absurd trivial hopen
        · exact hk
      have hlinked := h.linked
      have hsound := h.sound
      rw [hq] at hlinked hsound
      cases step_errand hq with
      | rests idles => exact .inl ((task?_congr idles.tasks i).symm.trans hk)
      | @leaves id k₀ standing task opened turn cue waits away parts seen departs =>
        by_cases hid : i = id
        · subst hid
          cases (task?_setStanding_self (s := s) task parts.tasks).symm.trans hk
          by_cases helse : k₀.standing.Elsewhere
          · refine .inr (.inr ?_)
            cases hst : k₀.standing with
            | awaitingNews w =>
              exact absurd (hsound.waiters.waiting i k₀ w task hst).1 hver.not_asksNews
            | awaitingOutput pid | awaitingExit pid => exact ⟨k₀, pid, task, by rw [hst]; rfl⟩
            | _ => rw [hst] at helse; exact helse.elim
          · rcases departs.quits hver helse with ⟨path, target, address, he⟩ | ⟨answer, hcame, hnot⟩ |
              hne
            · obtain ⟨j, hj⟩ := starter_of_launch h.sound he
              refine .inr (.inl (hj.trans (congrArg some ?_)))
              by_contra hji
              have hd := act_deed h.sound .step
              rw [hj] at hd
              cases hd with
              | begins _ _ _ _ _ _ others =>
                have he : k₀.standing = standing := congrArg Task.standing
                  (Option.some.inj (task.symm.trans ((others i (Ne.symm hji)).symm.trans hk)))
                rw [Task.hasEnded_iff.mpr (by rw [he, show standing = _ from hs]; trivial)] at opened
                cases opened
            · exact absurd (hlinked.came i k₀ answer task hcame).2.1 hnot
            · exact absurd hs hne
        · exact .inl ((task?_setStanding_of_ne (s := s) parts.tasks i hid).symm.trans hk)
      | @joins id i' k' notice task queued calls unknown startup pending result =>
        exact .inl (hmoved (.awaitingStartup i') (by rw [result]; rfl) not_false)
      | @opens id k' notice task queued calls unknown spent result =>
        rw [result] at hk
        rcases task?_setStanding_cases rfl hk with ⟨_, -, -, rfl⟩ | ⟨-, hk⟩
        · cases hs
        · rcases task?_added_cases (s := s) rfl hk with hk | ⟨-, rfl⟩
          · exact .inl hk
          · cases hs
      | @hears id i' k' answer notice task waits ended result =>
        exact .inl (hmoved (.startupCame answer) (by rw [result]; rfl) not_false)

theorem mem_starters_of_superseded (h : s.Fresh) {actions : List Action}
    (hk : (s.after actions).task? i = some k) (hver : k.request.Verifies)
    (hs : k.standing = .ended k.request.supersededAnswer) : i ∈ s.starters actions := by
  induction actions using List.reverseRecOn with
  | nil => exact absurd hk h.task?_ne_some
  | append_singleton before a ih =>
    rw [after_concat] at hk
    rw [starters_append, List.mem_append]
    rcases (h.marshalled.after before).superseded_act hk hver hs with hk | hstarter |
      ⟨k₀, pid, hk₀, hrun⟩
    · exact .inl (ih hk)
    · refine .inr (List.mem_append_left _ ?_)
      rw [hstarter]
      exact List.mem_singleton.mpr rfl
    · exact .inl (mem_starters_of_runs h hk₀ hrun)

/-- A run that was superseded is followed by another. -/
theorem starter_after_superseded (h : s.Fresh) {actions : List Action}
    (hk : (s.after actions).task? i = some k) (hver : k.request.Verifies)
    (hs : k.standing = .ended k.request.supersededAnswer) :
    ∃ j, [i, j].Sublist (s.starters actions) := by
  obtain ⟨stories, hsame, hrecounts⟩ := recounts_after h actions
  have hmem := mem_starters_of_superseded h hk hver hs
  rw [← hsame] at hmem ⊢
  obtain ⟨story, hstory, rfl⟩ := List.mem_map.mp hmem
  obtain ⟨before, after, rfl⟩ := List.append_of_mem hstory
  obtain ⟨k', hk', -, hmeets⟩ := hrecounts.tasks story hstory
  cases hk.symm.trans hk'
  have hfate : story.fate = .closed .superseded := by
    cases hf : story.fate with
    | runs =>
      rw [hf] at hmeets
      rw [Task.Meets, hs] at hmeets
      cases hmeets
    | aborted =>
      rw [hf] at hmeets
      obtain ⟨fault, hfault⟩ := hmeets
      have he := Standing.ended.inj (hs.symm.trans hfault)
      cases hr : k.request <;> rw [hr] at he hver <;> first | exact hver.elim | cases he
    | closed ending =>
      rw [hf] at hmeets
      by_contra hne
      refine answerTo_ne_superseded (fun he => hne (congrArg RunFate.closed he))
        (?_ : k.request.answerTo _ = _)
      exact Standing.ended.inj (Eq.trans (Eq.symm hmeets) hs)
  cases after with
  | nil => exact absurd hfate (hrecounts.latest story List.getLast?_concat)
  | cons next rest =>
    refine ⟨next.task, ?_⟩
    rw [List.map_append]
    exact ((List.nil_sublist _).cons_cons _ |>.cons_cons _).trans (List.sublist_append_right ..)

/-- Only the beginning of another run kills a verifier. -/
theorem Marshalled.killer (h : s.Marshalled) {a : Action} {added : List Event} {pid : Pid}
    (hevents : (s.act a).events = s.events ++ added) (hkilled : .killed pid ∈ added)
    (hk : s.task? i = some k) (hrun : k.standing.runs? = some pid) :
    ∃ j, s.starter a = some j ∧ j ≠ i := by
  have hquiet : ∀ kills calls, Sees kills calls s (s.act a) → kills pid := by
    rintro kills calls ⟨more, he, hm⟩
    cases List.append_cancel_left (hevents.symm.trans he)
    exact hm _ hkilled
  have hsame : (s.act a).events ≠ s.events := by
    intro he
    exact hquiet (fun _ => False) (fun _ => False) (.of_events he)
  cases a with
  | ask | feed | exit => exact absurd rfl hsame
  | step =>
    cases hq : s.queue with
    | nil =>
      rw [Session.act, step_nil hq] at hsame
      exact absurd rfl hsame
    | cons n rest =>
      cases step_errand hq with
      | rests idles => exact (hquiet (fun _ => False) _ idles.seen).elim
      | @leaves id k₀ standing task opened turn cue waits away parts seen departs =>
        rcases seen with hseen | ⟨-, hseen⟩ | ⟨-, path, target, address, he⟩
        · exact (hquiet (fun _ => False) _ hseen).elim
        · -- the server's process runs no verifier
          obtain ⟨r, hr, rfl⟩ := List.mem_map.mp (h.sound.runners.tasks i k pid hk hrun).2
          exact absurd (.inl (hquiet (s.server.supervisor.held = some ·) _ hseen))
            (h.sound.runners.apart r hr)
        · obtain ⟨j, hj⟩ := starter_of_launch h.sound he
          refine ⟨j, hj, ?_⟩
          rintro rfl
          obtain ⟨-, n', rest', -, kj, hkj, hturn⟩ := starter_turn h.sound hj
          cases hk.symm.trans hkj
          rcases hturn with ⟨-, hs⟩ | ⟨-, answer, hs⟩ <;> rw [hs] at hrun <;> cases hrun
      | joins notice task queued calls unknown startup pending result =>
        exact absurd (by rw [Session.act, result]; rfl) hsame
      | opens notice task queued calls unknown spent result =>
        exact absurd (by rw [Session.act, result]; rfl) hsame
      | hears notice task waits ended result =>
        exact absurd (by rw [Session.act, result]; rfl) hsame

/-- **Who is superseded, and by whom.** After every history: runs begin in the order in which they
were asked for, unless one passes another by that waits for the startup of the shared server. So a
request is told that its run was superseded only if another run has begun since that was asked for
later, or that it has passed by; and a verifier is killed only by the beginning of such a run. -/
theorem superseded_by_newer_or_waiting (h : s.Fresh) (actions : List Action) :
    (∀ i j, [i, j].Sublist (s.starters actions) → i < j ∨ s.PassedBy actions i j) ∧
    (∀ i k, (s.after actions).task? i = some k → k.request.Verifies →
      k.standing = .ended k.request.supersededAnswer →
      ∃ j, [i, j].Sublist (s.starters actions) ∧ (i < j ∨ s.PassedBy actions i j)) ∧
    ∀ before a later added, actions = before ++ a :: later →
      ((s.after before).act a).events = (s.after before).events ++ added →
      ∀ i k pid, (s.after before).task? i = some k → k.standing.runs? = some pid →
        .killed pid ∈ added →
        ∃ j, (s.after before).starter a = some j ∧ (i < j ∨ s.PassedBy actions i j) := by
  refine ⟨fun i j => starters_in_order h, fun i k hk hver hs => ?_, ?_⟩
  · obtain ⟨j, hsub⟩ := starter_after_superseded h hk hver hs
    exact ⟨j, hsub, starters_in_order h hsub⟩
  · rintro before a later added rfl hevents i k pid hk hrun hkilled
    obtain ⟨j, hj, -⟩ := (h.marshalled.after before).killer hevents hkilled hk hrun
    refine ⟨j, hj, starters_in_order h ?_⟩
    rw [starters_append, starters, hj]
    exact (List.singleton_sublist.mpr (mem_starters_of_runs h hk hrun)).append
      ((List.nil_sublist _).cons_cons j)

/-! A request waits for the startup of the server while a newer one, which brings its own address,
begins its run. Then the server is ready. -/

def crowded : Session :=
  start .empty [.started quietScript, .started { quietScript with diesWhenKilled := true },
    .started quietScript] (.idle (.ofText "/w") .default true) true "server"
    ⟨"cargo", "rustc", "server"⟩ []

theorem fresh_crowded : crowded.Fresh := ⟨_, _, _, _, _, _, _, _, _, rfl⟩

def waitsThenRuns : List Action :=
  [.ask (.verify "/w/a.rs" .file none), .step, .step,
    .ask (.verify "/w/b.rs" .file (some "there")), .step, .step, .step, .step,
    .feed 1 .stdout (Text.utf8 "port: 4000\n".toList)] ++ List.replicate 14 .step

def isSuperseded (k : Task) : Bool :=
  match k.request, k.standing with
  | .verify .., .ended (.verified .superseded) => true
  | _, _ => false

theorem waitsThenRuns_superseded : ∃ k, (crowded.after waitsThenRuns).task? 2 = some k ∧
    k.request.Verifies ∧ k.standing = .ended k.request.supersededAnswer := by
  have hany : ((crowded.after waitsThenRuns).task? 2).any isSuperseded = true := by
    decide +kernel
  obtain ⟨⟨request, standing⟩, hk, hsuperseded⟩ := Option.any_eq_true .. |>.mp hany
  unfold isSuperseded at hsuperseded
  dsimp only at hsuperseded
  split at hsuperseded
  next => exact ⟨_, hk, trivial, rfl⟩
  next => cases hsuperseded

/-- The newer request is superseded, and its verifier killed, by the one that asked before it. -/
theorem superseded_by_older :
    (∃ k, (crowded.after waitsThenRuns).task? 2 = some k ∧ k.request.Verifies ∧
      k.standing = .ended k.request.supersededAnswer) ∧
    (∀ j ∈ crowded.starters waitsThenRuns, ¬ 2 < j) ∧
    ∃ before later, waitsThenRuns = before ++ .step :: later ∧
      ((crowded.after before).task? 2).bind (·.standing.runs?) = some 2 ∧
      (crowded.after before).starter .step = some 0 ∧
      (crowded.after before).events.any (· matches .killed 2) = false ∧
      ((crowded.after before).act .step).events.any (· matches .killed 2) = true := by
  have hstarters : crowded.starters waitsThenRuns = [2, 0] := by decide +kernel
  refine ⟨waitsThenRuns_superseded, by rw [hstarters]; decide, waitsThenRuns.take 15,
    List.replicate 7 .step, rfl, ?_⟩
  decide +kernel

theorem superseded_by_passed : crowded.PassedBy waitsThenRuns 2 0 := by
  obtain ⟨k, hk, hver, hs⟩ := waitsThenRuns_superseded
  obtain ⟨j, hsub, hpassed⟩ :=
    (superseded_by_newer_or_waiting fresh_crowded waitsThenRuns).2.1 2 k hk hver hs
  have hstarters : crowded.starters waitsThenRuns = [2, 0] := by decide +kernel
  rw [hstarters] at hsub
  obtain rfl : j = 0 := by simpa using hsub
  exact hpassed.resolve_left (by decide)

end Session

end VerifierHost
