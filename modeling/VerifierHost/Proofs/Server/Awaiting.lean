import VerifierHost.Proofs.Server.Errands

/-! # Nobody on the way is forgotten

A task waits only for a startup that is under way or whose end it is about to hear of, and one that
has heard of it is about to go on (`Session.Linked`). What a startup comes to is an address or a
failure. -/

namespace VerifierHost.Session

variable {s t : Session} {n : Notice} {ns ns' : List Notice} {id i : TaskId} {k : Task}
  {standing : Standing} {answer : Answer}

/-- What a task has to do with the startup that it waits for. -/
def AwaitsDuly (ns : List Notice) (s : Session) (id i : TaskId) : Prop :=
  ∃ k, s.task? i = some k ∧ k.request = .startup ∧
    (k.hasEnded = true → .startupEnded id ∈ ns) ∧ (k.hasEnded = false → s.startup = some i)

/-- Tasks on the way to the server, and what will move them on. -/
structure Linked (ns : List Notice) (s : Session) : Prop where
  startup : s.KnowsStartup
  waits : ∀ id k i, s.task? id = some k → k.standing = .awaitingStartup i →
    k.request.CallsServer ∧ AwaitsDuly ns s id i
  came : ∀ id k answer, s.task? id = some k → k.standing = .startupCame answer →
    k.request.CallsServer ∧ answer.OfServer ∧ .resume id ∈ ns
  tells : ∀ i k answer, s.task? i = some k → k.request = .startup → k.standing = .ended answer →
    answer.OfServer

theorem AwaitsDuly.open (h : AwaitsDuly ns s id i) (hopen : (s.task? i).any Task.hasEnded = false) :
    s.startup = some i := by
  obtain ⟨k, hk, -, -, hunder⟩ := h
  rw [hk] at hopen
  exact hunder hopen

theorem AwaitsDuly.told (h : AwaitsDuly ns s id i) (hover : (s.task? i).any Task.hasEnded = true) :
    .startupEnded id ∈ ns := by
  obtain ⟨k, hk, -, hended, -⟩ := h
  rw [hk] at hover
  exact hended hover

theorem not_vain_of_awaits {ki : Task} (hk : s.task? id = some k)
    (hs : k.standing = .awaitingStartup i) (hi : s.task? i = some ki)
    (hended : ki.hasEnded = true) : ¬ (Notice.startupEnded id).Vain s := by
  intro hvain
  have hnone := hvain k i hk hs
  rw [hi, Option.bind_some] at hnone
  rw [Task.hasEnded, hnone] at hended
  cases hended

theorem not_vain_of_came (hk : s.task? id = some k) (hs : k.standing = .startupCame answer) :
    ¬ (Notice.resume id).Vain s := fun hvain => hvain k answer hk hs

namespace Linked

/-- Notices that are not in vain stay, and no task moves. -/
theorem same (h : Linked ns s) (htasks : t.tasks = s.tasks) (hstartup : t.startup = s.startup)
    (hns : ∀ m ∈ ns, ¬ m.Vain t → m ∈ ns') : Linked ns' t := by
  have htask := task?_congr htasks
  refine ⟨fun i hi => ?_, fun id k i hk hs => ?_, fun id k answer hk hs => ?_, ?_⟩
  · obtain ⟨k, hk, hr⟩ := h.startup i (hstartup ▸ hi)
    exact ⟨k, (htask i).trans hk, hr⟩
  · obtain ⟨hcalls, ki, hki, hr, hover, hunder⟩ := h.waits id k i ((htask id).symm.trans hk) hs
    have hi := (htask i).trans hki
    exact ⟨hcalls, ki, hi, hr, fun he => hns _ (hover he) (not_vain_of_awaits hk hs hi he),
      fun ho => hstartup ▸ hunder ho⟩
  · obtain ⟨hcalls, hserver, hresume⟩ := h.came id k answer ((htask id).symm.trans hk) hs
    exact ⟨hcalls, hserver, hns _ hresume (not_vain_of_came hk hs)⟩
  · intro i k answer hk
    exact h.tells i k answer ((htask i).symm.trans hk)

/-- One task goes on or ends. -/
theorem moves (standing : Standing) (h : Linked ns s) (hk : s.task? id = some k)
    (hopen : k.hasEnded = false) (htasks : t.tasks = (s.setStanding id standing).tasks)
    (hstartup : t.startup = s.startup) (hns : ∀ m ∈ ns, ¬ m.Vain t → m ∈ ns')
    (hwaits : ∀ i, standing = .awaitingStartup i → k.request.CallsServer ∧ AwaitsDuly ns' t id i)
    (hcame : ∀ answer, standing = .startupCame answer →
      k.request.CallsServer ∧ answer.OfServer ∧ .resume id ∈ ns')
    (hends : ∀ answer, standing = .ended answer → (k.request = .startup → answer.OfServer) ∧
      ∀ j kj, s.task? j = some kj → kj.standing = .awaitingStartup id → .startupEnded j ∈ ns') :
    Linked ns' t := by
  have hself := task?_setStanding_self hk htasks
  have hothers := task?_setStanding_of_ne htasks
  refine ⟨fun i hi => ?_, fun j kj i hkj hs => ?_, fun j kj answer hkj hs => ?_,
    fun i ki answer hki hr hs => ?_⟩
  · obtain ⟨ki, hki, hr⟩ := h.startup i (hstartup ▸ hi)
    by_cases hid : i = id
    · subst hid
      cases hk.symm.trans hki
      exact ⟨_, hself, hr⟩
    · exact ⟨ki, (hothers i hid).trans hki, hr⟩
  · by_cases hjd : j = id
    · subst hjd
      cases hself.symm.trans hkj
      exact hwaits i hs
    · have hkj' := (hothers j hjd).symm.trans hkj
      obtain ⟨hcalls, ki, hki, hr, hover, hunder⟩ := h.waits j kj i hkj' hs
      by_cases hid : i = id
      · subst hid
        cases hk.symm.trans hki
        refine ⟨hcalls, _, hself, hr, fun he => ?_, fun _ => hstartup ▸ hunder hopen⟩
        obtain ⟨answer, ha⟩ := Option.isSome_iff_exists.mp he
        exact (hends answer (congrArg Task.standing (eq_ended_of_answer? ha))).2 j kj hkj' hs
      · have hi := (hothers i hid).trans hki
        exact ⟨hcalls, ki, hi, hr, fun he => hns _ (hover he) (not_vain_of_awaits hkj hs hi he),
          fun ho => hstartup ▸ hunder ho⟩
  · by_cases hjd : j = id
    · subst hjd
      cases hself.symm.trans hkj
      exact hcame answer hs
    · obtain ⟨hcalls, hserver, hresume⟩ :=
        h.came j kj answer ((hothers j hjd).symm.trans hkj) hs
      exact ⟨hcalls, hserver, hns _ hresume (not_vain_of_came hkj hs)⟩
  · by_cases hid : i = id
    · subst hid
      cases hself.symm.trans hki
      exact (hends answer hs).1 hr
    · exact h.tells i ki answer ((hothers i hid).symm.trans hki) hr hs

/-- A task is added; it may be a new startup, if the one before is over. -/
theorem add (h : Linked ns s) {request : Request}
    (htasks : t.tasks = s.tasks ++ [⟨request, .queued⟩])
    (hstartup : t.startup = s.startup ∨ t.startup = some s.tasks.length ∧ request = .startup ∧
      ∀ i, s.startup = some i → (s.task? i).any Task.hasEnded = true)
    (hns : ∀ m ∈ ns, m ∈ ns') : Linked ns' t := by
  have hold : ∀ {i k}, s.task? i = some k → t.task? i = some k := task?_added_of htasks
  have hnew := task?_added_last htasks
  have hcases : ∀ {i k}, t.task? i = some k → k.standing ≠ .queued → s.task? i = some k := by
    intro i k hk hq
    rcases task?_added_cases htasks hk with hk | ⟨-, rfl⟩
    · exact hk
    · exact absurd rfl hq
  refine ⟨fun i hi => ?_, fun j kj i hkj hs => ?_, fun j kj answer hkj hs => ?_,
    fun i ki answer hki hr hs => ?_⟩
  · rcases hstartup with he | ⟨he, rfl, -⟩
    · obtain ⟨k, hk, hr⟩ := h.startup i (he ▸ hi)
      exact ⟨k, hold hk, hr⟩
    · cases he.symm.trans hi
      exact ⟨_, hnew, rfl⟩
  · obtain ⟨hcalls, ki, hki, hr, hover, hunder⟩ := h.waits j kj i (hcases hkj (by simp [hs])) hs
    refine ⟨hcalls, ki, hold hki, hr, fun he => hns _ (hover he), fun ho => ?_⟩
    rcases hstartup with he | ⟨-, -, hended⟩
    · exact he ▸ hunder ho
    · have hi := hended i (hunder ho)
      rw [hki, Option.any_some, ho] at hi
      cases hi
  · obtain ⟨hcalls, hserver, hresume⟩ := h.came j kj answer (hcases hkj (by simp [hs])) hs
    exact ⟨hcalls, hserver, hns _ hresume⟩
  · exact h.tells i ki answer (hcases hki (by simp [hs])) hr hs

/-- A task that begins joins the startup under way. -/
theorem joins (h : Linked (.begin id :: ns) s) (hk : s.task? id = some k)
    (hq : k.standing = .queued) (hcalls : k.request.CallsServer) (hstartup : s.startup = some i)
    (hpending : (s.task? i).any Task.hasEnded = false) :
    Linked ns (s.setStanding id (.awaitingStartup i)) := by
  obtain ⟨ki, hki, hr⟩ := h.startup i hstartup
  have hne : i ≠ id := by
    rintro rfl
    cases hk.symm.trans hki
    rw [hr] at hcalls
    exact hcalls
  rw [hki, Option.any_some] at hpending
  refine h.moves _ hk (Task.hasEnded_eq_false hq not_false) rfl rfl (fun m hm hnot => ?_)
    (fun j hj => ?_) nofun nofun
  · refine (List.mem_cons.mp hm).resolve_left ?_
    rintro rfl
    refine hnot fun k' hk' hq' => ?_
    cases (task?_setStanding_self hk rfl).symm.trans hk'
    cases hq'
  · cases hj
    refine ⟨hcalls, ki, (task?_setStanding_of_ne rfl i hne).trans hki, hr, fun he => ?_,
      fun _ => hstartup⟩
    rw [hpending] at he
    cases he

end Linked

/-- A startup has nothing to do with runs and news. -/
theorem Sound.startup_not_elsewhere (h : Sound ns s) (hk : s.task? id = some k)
    (hr : k.request = .startup) : ¬ k.standing.Elsewhere := by
  intro helse
  rcases h.startup_standing hk hr with hs | hs | hs <;> cases hst : k.standing <;>
    rw [hst] at hs helse <;> first | exact hs | exact helse | cases hs

/-- **Every notice keeps those on the way linked.** -/
theorem Errand.linked (he : Errand n s t) (hs : Sound (n :: s.queue) s)
    (h : Linked (n :: s.queue) s) : Linked t.queue t := by
  have hdrop : n.Vain t → ∀ m ∈ n :: s.queue, ¬ m.Vain t → m ∈ s.queue := by
    intro hvain m hm hnot
    rcases List.mem_cons.mp hm with rfl | hm
    · exact absurd hvain hnot
    · exact hm
  cases he with
  | rests idles vain =>
    obtain ⟨more, hq, -⟩ := idles.queue
    refine h.same idles.tasks idles.startup fun m hm hnot => ?_
    rw [hq]
    exact List.mem_append_left _ (hdrop vain m hm hnot)
  | @leaves id k standing task opened turn cue waits away parts seen departs vain =>
    obtain ⟨more, -, hq⟩ := parts.queue
    refine h.moves _ task opened parts.tasks parts.startup (fun m hm hnot => ?_) (fun i hi => ?_)
      (fun answer ha => ?_) fun answer ha => ⟨fun hr => ?_, fun j kj hkj hj => ?_⟩
    · rw [hq]
      exact List.mem_append_left _ (List.mem_append_left _ (hdrop vain m hm hnot))
    · exact absurd (hi ▸ trivial) away
    · exact absurd (ha ▸ trivial) away
    · refine (departs.tells hr (hs.startup_not_elsewhere task hr) answer ha).resolve_right ?_
      intro hcame
      obtain ⟨hcalls, -⟩ := h.came id k answer task hcame
      rw [hr] at hcalls
      exact hcalls
    · rw [hq]
      refine List.mem_append_right _ ?_
      rw [farewell, if_pos (ha ▸ trivial)]
      refine List.mem_map_of_mem (mem_tasksWhere.mpr ⟨kj, hkj, ?_⟩)
      rw [hj]
      exact decide_eq_true rfl
  | joins notice task queued calls unknown startup pending result =>
    rw [notice] at h
    rw [result]
    exact h.joins task queued calls startup pending
  | @opens id k notice task queued calls unknown spent result =>
    rw [notice] at h
    have hadded : Linked (.begin id :: (s.addTask .startup).1.queue)
        { (s.addTask .startup).1 with startup := some s.tasks.length } := by
      refine h.add rfl (.inr ⟨rfl, rfl, spent⟩) fun m hm => ?_
      exact (List.mem_cons.mp hm).elim (· ▸ List.mem_cons_self)
        fun hm => List.mem_cons_of_mem _ (List.mem_append_left _ hm)
    rw [result]
    refine hadded.joins (task?_addTask task .startup) queued calls rfl ?_
    · show Option.any Task.hasEnded (s.tasks ++ [_])[s.tasks.length]? = false
      rw [List.getElem?_concat_length]
      rfl
  | @hears id i k answer notice task waits ended result =>
    obtain ⟨hcalls, ki, hki, hr, -⟩ := h.waits id k i task waits
    rw [hki, Option.bind_some] at ended
    have hserver := h.tells i ki answer hki hr (congrArg Task.standing (eq_ended_of_answer? ended))
    subst result
    refine h.moves (.startupCame answer) task (Task.hasEnded_eq_false waits not_false) rfl rfl
      (fun m hm hnot => ?_) (fun j hj => ?_) (fun a ha => ?_) fun a ha => ?_
    · refine List.mem_append_left _ ((List.mem_cons.mp hm).resolve_left ?_)
      rintro rfl
      refine hnot (notice ▸ fun k' j hk' hj => ?_)
      cases (task?_setStanding_self task rfl).symm.trans hk'
      cases hj
    · cases hj
    · cases ha
      exact ⟨hcalls, hserver, List.mem_append_right _ (List.mem_singleton.mpr rfl)⟩
    · cases ha

/-- Taking the first notice from the queue is no more than the errand it leads to. -/
theorem step_errand {rest : List Notice} (hq : s.queue = n :: rest) :
    Errand n { s with queue := rest } s.step := by
  rw [step_cons hq]
  exact react_errand _ n

theorem Linked.act (h : Linked s.queue s) (hs : Sound s.queue s) (a : Action) :
    Linked (s.act a).queue (s.act a) := by
  cases a with
  | ask request => exact h.add rfl (.inl rfl) fun m hm => List.mem_append_left _ hm
  | feed | exit => exact h.same rfl rfl fun m hm _ => List.mem_append_left _ hm
  | step =>
    cases hq : s.queue with
    | nil =>
      rw [Session.act, step_nil hq]
      exact h
    | cons n rest =>
      rw [hq] at h hs
      exact (step_errand hq).linked (hs.congr rfl rfl rfl rfl)
        (h.same rfl rfl fun m hm _ => hm)

theorem Fresh.linked (h : s.Fresh) : Linked s.queue s := by
  have hnone : ∀ {i k}, s.task? i ≠ some k := h.task?_ne_some
  have hstartup : s.startup = none := by
    obtain ⟨_, _, _, _, _, _, _, _, _, rfl⟩ := h
    rfl
  exact ⟨fun i hi => (nomatch hstartup.symm.trans hi), fun _ _ _ hk => absurd hk hnone,
    fun _ _ _ hk => absurd hk hnone, fun _ _ _ hk => absurd hk hnone⟩

end VerifierHost.Session
