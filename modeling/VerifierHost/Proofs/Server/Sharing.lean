import VerifierHost.Proofs.Server.Custody
import VerifierHost.Proofs.Server.Shared

/-! # All callers share one startup

Callers of the server come and give up, its processes write, end and cannot be started, in any order
(`Incident`). Nobody manages the server by hand, so it is started only by its startup, which makes
one attempt, and never while a server before it is live. Whoever waits for a startup is told what
it comes to, whoever else gives up. -/

namespace VerifierHost

instance : DecidablePred Request.CallsServer
  | .ensureReady | .verify .. => .isTrue trivial
  | .answered _ | .run .. | .hover .. | .hints _ | .waitUntilReady | .startServer | .supervise ..
  | .startup | .news _ => .isFalse not_false

instance : DecidablePred Request.Manages
  | .startServer | .supervise .. | .startup => .isTrue trivial
  | .answered _ | .verify .. | .run .. | .hover .. | .hints _ | .ensureReady | .waitUntilReady
  | .news _ => .isFalse not_false

instance : DecidablePred Request.Meddles := fun request =>
  inferInstanceAs (Decidable (request.Manages ∨ request.WaitsAlone))

theorem Task.hasEnded_of_onTheWay {k : Task} (h : k.standing.OnTheWay) : k.hasEnded = false := by
  refine hasEnded_eq_false rfl fun hended => ?_
  cases hs : k.standing <;> rw [hs] at h hended <;> first | exact h | exact hended

/-- What can happen to a session whose requests may be given up. -/
inductive Incident where
  | act (action : Action)
  /-- A task is cancelled. -/
  | cancel (id : TaskId)

namespace Session

def meet (s : Session) : Incident → Session
  | .act a => s.act a
  | .cancel id => s.cancel id

def meeting (s : Session) (xs : List Incident) : Session := xs.foldl meet s

/-- Nobody uses the server but through its startup, and only those who call for it are cancelled,
unless they run a verifier already. -/
def Permits (s : Session) : Incident → Prop
  | .act (.ask request) => ¬ request.Meddles
  | .act (.feed ..) | .act (.exit ..) | .act .step => True
  | .cancel id => (s.task? id).all fun k => k.request.CallsServer ∧ k.standing.runs? = none

instance (s : Session) : DecidablePred s.Permits
  | .act (.ask request) => inferInstanceAs (Decidable (¬ request.Meddles))
  | .act (.feed ..) | .act (.exit ..) | .act .step => .isTrue trivial
  | .cancel id => inferInstanceAs (Decidable ((s.task? id).all fun k =>
      decide (k.request.CallsServer ∧ k.standing.runs? = none)))

/-- Whatever happens is permitted. -/
def Sharing (s : Session) : List Incident → Prop
  | [] => True
  | x :: rest => s.Permits x ∧ (s.meet x).Sharing rest

instance decidableSharing : (s : Session) → (xs : List Incident) → Decidable (s.Sharing xs)
  | _, [] => .isTrue trivial
  | s, x :: rest =>
    have := decidableSharing (s.meet x) rest
    inferInstanceAs (Decidable (s.Permits x ∧ (s.meet x).Sharing rest))

variable {s t u : Session} {x : Incident} {xs before later : List Incident} {n : Notice}
  {id i j : TaskId} {k : Task} {answer : Answer} {w : World} {wakes : List Wake} {pid : Pid}

@[simp] theorem meeting_concat (s : Session) (xs : List Incident) (x : Incident) :
    s.meeting (xs ++ [x]) = (s.meeting xs).meet x := by
  simp [meeting]

theorem sharing_concat : s.Sharing (xs ++ [x]) ↔ s.Sharing xs ∧ (s.meeting xs).Permits x := by
  induction xs generalizing s with
  | nil => simp [Sharing, meeting]
  | cons y rest ih =>
    rw [List.cons_append, Sharing, Sharing, ih, and_assoc]
    rfl

/-- All that holds between two steps of a session that shares its server. -/
structure Convened (s : Session) : Prop where
  sound : Sound s.queue s
  linked : Linked s.queue s
  shared : Shared s.queue s

/-! ## From outside -/

/-- Something happens that moves no task and leaves the server as it is. -/
theorem Shared.same {ns ns' : List Notice} (h : Shared ns s) (hs : s.world.Sane)
    (hserver : t.server = s.server) (hstartup : t.startup = s.startup) (htasks : t.tasks = s.tasks)
    (ha : Abstains s t) (hexits : ∀ pid, s.server.supervisor.held = some pid →
      (s.world.process? pid).isSome = true → (.wake (.exit pid) ∈ ns ∨ s.world.AwaitsExit pid) →
      (t.world.process? pid).isSome = true ∧ (.wake (.exit pid) ∈ ns' ∨ t.world.AwaitsExit pid))
    (hns : ∀ m ∈ ns, m ∈ ns') (hnew : ∀ i, .phaseEnded i ∈ ns' → .phaseEnded i ∈ ns) :
    Shared ns' t := by
  have htask := task?_congr htasks
  refine ⟨h.upheld.same hs hserver ha hexits, h.roles.same htasks hstartup,
    h.leads.same (by rw [hserver]) hstartup (fun i standing _ hk => ⟨(htask i).trans hk, ?_⟩)
      (fun i hi => (htask i).symm ▸ hi) hnew⟩
  exact fun m _ hm => hns m hm

/-- A process writes or ends. -/
theorem Shared.stir (h : Shared s.queue s) (hs : s.world.Sane)
    (htouch : World.Touches pid s.world w) (hstir : World.Stirs s.world w wakes) :
    Shared (s.queue ++ wakes.map .wake) ({ s with world := w }.enqueue (wakes.map .wake)) := by
  refine h.same hs rfl rfl rfl ⟨htouch.ages, rfl⟩ (fun q _ hknown hexit => ?_)
    (fun m hm => List.mem_append_left _ hm)
    fun i hi => (List.mem_append.mp hi).resolve_right phaseEnded_not_mem_wakes
  refine ⟨(htouch.known q).trans hknown, ?_⟩
  rcases hexit with hm | hwaits
  · exact .inl (List.mem_append_left _ hm)
  · rcases hstir.waiter q hwaits with hwaits | hm
    · exact .inr hwaits
    · exact .inl (List.mem_append_right _ (List.mem_map_of_mem hm))

/-- A request that does not meddle is made. -/
theorem Shared.ask (h : Shared s.queue s) (hs : s.world.Sane) {request : Request}
    (hrequest : ¬ request.Meddles) :
    Shared (s.addTask request).1.queue (s.addTask request).1 := by
  refine ⟨h.upheld.same hs rfl (.of_same rfl rfl) fun pid _ hknown hexit => ⟨hknown, ?_⟩,
    h.roles.add rfl (.inl ⟨rfl, hrequest⟩), h.leads.same rfl rfl (fun i standing _ hk => ?_)
      (fun i hi => ?_) fun i hi => ?_⟩
  · exact hexit.imp_left fun hm => List.mem_append_left _ hm
  · exact ⟨task?_addTask hk request, fun m _ hm => List.mem_append_left _ hm⟩
  · obtain ⟨k, hk⟩ := Option.isSome_iff_exists.mp hi
    rw [task?_addTask hk request]
    rfl
  · exact (List.mem_append.mp hi).resolve_right fun hi => nomatch List.mem_singleton.mp hi

/-! ## Callers give up -/

theorem tasksWhere_awaitsStartup
    (h : ∀ j k, s.task? j = some k → k.standing ≠ .awaitingStartup id) :
    s.tasksWhere (awaitsStartup id) = [] := by
  refine List.eq_nil_iff_forall_not_mem.mpr fun j hj => ?_
  obtain ⟨k, hk, hs⟩ := mem_awaitsStartup.mp hj
  exact h j k hk hs

theorem cancel_of_ended (h : ∀ k, s.task? id = some k → k.hasEnded = true) : s.cancel id = s := by
  unfold cancel
  split
  next => rfl
  next k hk => exact if_pos (h k hk)

/-- Whoever waits for the startup at most has nothing else to give up. -/
theorem cancel_of_onTheWay (hk : s.task? id = some k) (hway : k.standing.OnTheWay) :
    s.cancel id = s.endTask id (.failed .cancelled) := by
  have hgiven : s.giveUp k.standing = s := by
    cases hs : k.standing <;> rw [hs] at hway <;> first | rfl | exact hway.elim
  unfold cancel
  rw [hk]
  dsimp only
  rw [Task.hasEnded_of_onTheWay hway, if_neg Bool.false_ne_true, hgiven]

/-- A caller that does not run a verifier waits for the startup at most. -/
theorem Convened.caller_standing (h : Convened s) (hk : s.task? id = some k)
    (hcalls : k.request.CallsServer) (hidle : k.standing.runs? = none) :
    k.standing.IsEnded ∨ k.standing.OnTheWay := by
  have hnews : ∀ w, k.standing ≠ .awaitingNews w := by
    intro w hw
    have hasks := (h.sound.waiters.waiting id k w hk hw).1
    cases hr : k.request <;> rw [hr] at hcalls hasks <;> first | exact hcalls | exact hasks
  have hwatches : k.standing.watched?.isSome ≠ true := by
    intro hw
    rw [h.shared.roles.watchers id k hk hw] at hcalls
    exact hcalls
  cases hs : k.standing with
  | ended => exact .inl trivial
  | queued | awaitingStartup | startupCame => exact .inr trivial
  | awaitingNews w => exact absurd hs (hnews w)
  | awaitingPhase | phaseCame => rw [hs] at hwatches; exact absurd rfl hwatches
  | awaitingOutput | awaitingExit => rw [hs] at hidle; cases hidle

/-- **A caller that gives up ends**, and nothing else happens. -/
theorem Convened.cancel_eq (h : Convened s) (hx : s.Permits (.cancel id)) :
    (∀ k, s.task? id = some k → k.hasEnded = true) ∧ s.cancel id = s ∨
      ∃ k, s.task? id = some k ∧ k.standing.OnTheWay ∧ k.request.CallsServer ∧
        s.cancel id = s.setStanding id (.ended (.failed .cancelled)) := by
  cases hk : s.task? id with
  | none =>
    refine .inl ⟨fun _ hk' => (nomatch hk'), cancel_of_ended fun k hk' => ?_⟩
    cases hk.symm.trans hk'
  | some k =>
    obtain ⟨hcalls, hidle⟩ : k.request.CallsServer ∧ k.standing.runs? = none := by
      rw [Permits, hk] at hx
      exact of_decide_eq_true hx
    rcases h.caller_standing hk hcalls hidle with hended | hway
    · have hover : ∀ k', some k = some k' → k'.hasEnded = true := by
        rintro _ ⟨⟩
        exact Task.hasEnded_iff.mpr hended
      exact .inl ⟨hover, cancel_of_ended (hk ▸ hover)⟩
    · refine .inr ⟨k, rfl, hway, hcalls, ?_⟩
      rw [cancel_of_onTheWay hk hway, endTask, tasksWhere_awaitsStartup fun j kj hkj hs => ?_]
      · exact enqueue_nil _
      · obtain ⟨-, ki, hki, hr, -⟩ := h.linked.waits j kj id hkj hs
        cases hk.symm.trans hki
        rw [hr] at hcalls
        exact hcalls

theorem Convened.cancel (h : Convened s) (hx : s.Permits (.cancel id)) :
    Convened (s.cancel id) ∧ Rests s (s.cancel id) := by
  have hsound : Sound (s.cancel id).queue (s.cancel id) := by
    refine Sound.aside [] h.sound (cancel_aside fun k hk => ?_)
    rw [Permits, hk] at hx
    obtain ⟨hcalls, hidle⟩ : k.request.CallsServer ∧ k.standing.runs? = none :=
      of_decide_eq_true hx
    rcases h.caller_standing hk hcalls hidle with he | hway
    · exact .inr (.inr he)
    · cases hs : k.standing <;> rw [hs] at hway <;>
        first | exact .inl rfl | exact .inr (.inl trivial) | exact hway.elim
  rcases h.cancel_eq hx with ⟨-, he⟩ | ⟨k, hk, hway, hcalls, he⟩
  · rw [he]
    exact ⟨h, rfl, fun _ hq => hq, fun hdead => hdead⟩
  · rw [he] at hsound ⊢
    have hopen := Task.hasEnded_of_onTheWay hway
    have hother : ∀ {i standing}, s.task? i = some ⟨.startup, standing⟩ →
        (s.setStanding id (.ended (.failed .cancelled))).task? i = some ⟨.startup, standing⟩ := by
      intro i standing hi
      refine (task?_setStanding_of_ne rfl i ?_).trans hi
      rintro rfl
      cases hk.symm.trans hi
      exact hcalls
    refine ⟨⟨hsound, ?_, ?_, ?_, ?_⟩, rfl, fun i hi => hother hi, fun hdead => hdead⟩
    · refine h.linked.moves _ hk hopen rfl rfl (fun m hm _ => hm) nofun nofun fun answer ha =>
        ⟨fun hr => ?_, fun j kj hkj hj => ?_⟩
      · rw [hr] at hcalls
        exact hcalls.elim
      · obtain ⟨-, ki, hki, hr, -⟩ := h.linked.waits j kj id hkj hj
        cases hk.symm.trans hki
        rw [hr] at hcalls
        exact hcalls.elim
    · exact h.shared.upheld.same h.sound.runners.sane rfl (.of_same rfl rfl)
        fun _ _ hknown hexit => ⟨hknown, hexit⟩
    · exact h.shared.roles.moves _ hk hopen rfl rfl nofun
    · exact h.shared.leads.same rfl rfl (fun i standing _ hi => ⟨hother hi, fun _ _ hm => hm⟩)
        (fun i hi => (task?_isSome_setStanding rfl i).trans hi) fun _ hi => hi

/-! ## Every history -/

/-- What held before a step holds while its notice is seen to. -/
theorem Convened.taken (h : Convened s) {rest : List Notice} (hq : s.queue = n :: rest) :
    Sound (n :: rest) { s with queue := rest } ∧ Linked (n :: rest) { s with queue := rest } ∧
      Shared (n :: rest) { s with queue := rest } := by
  have hsane := h.sound.runners.sane
  obtain ⟨hs, hl, hsh⟩ := h
  rw [hq] at hs hl hsh
  exact ⟨hs.congr rfl rfl rfl rfl, hl.same rfl rfl fun _ hm _ => hm,
    hsh.same hsane rfl rfl rfl (.of_same rfl rfl) (fun _ _ hknown hexit => ⟨hknown, hexit⟩)
      (fun _ hm => hm) fun _ hi => hi⟩

/-- **Whatever is permitted** keeps the server shared, and only the latest startup makes an attempt
to start it when it begins. -/
theorem Convened.meet (h : Convened s) (hx : s.Permits x) : Convened (s.meet x) ∧
    (Rests s (s.meet x) ∨ x = .act .step ∧
      ∃ i rest, s.queue = .begin i :: rest ∧ Begins i s (s.meet x)) := by
  have hrests : ∀ {t : Session}, t.attempts = s.attempts → t.tasks = s.tasks →
      t.server = s.server → Rests s t := fun hattempts htasks hserver =>
    ⟨hattempts, fun i hi => (task?_congr htasks i).trans hi, fun hdead => by rwa [hserver]⟩
  have hsane := h.sound.runners.sane
  cases x with
  | cancel id =>
    obtain ⟨hc, hr⟩ := h.cancel hx
    exact ⟨hc, .inl hr⟩
  | act a =>
    have hsound := h.sound.act a
    have hlinked := h.linked.act h.sound a
    cases a with
    | ask request =>
      exact ⟨⟨hsound, hlinked, h.shared.ask hsane hx⟩,
        .inl ⟨rfl, fun i hi => task?_addTask hi request, fun hdead => hdead⟩⟩
    | feed pid stream chunk =>
      have htouch := World.touches_feed s.world pid stream chunk
      exact ⟨⟨hsound, hlinked, h.shared.stir hsane htouch (World.stirs_feed ..)⟩,
        .inl (hrests rfl rfl rfl)⟩
    | exit pid code time =>
      have htouch := World.touches_exit s.world pid code time
      exact ⟨⟨hsound, hlinked, h.shared.stir hsane htouch (World.stirs_exit ..)⟩,
        .inl (hrests rfl rfl rfl)⟩
    | step =>
      show Convened s.step ∧ (Rests s s.step ∨ _)
      have hstep : Sound s.step.queue s.step ∧ Linked s.step.queue s.step := ⟨hsound, hlinked⟩
      cases hq : s.queue with
      | nil =>
        rw [step_nil hq]
        exact ⟨h, .inl (hrests rfl rfl rfl)⟩
      | cons n rest =>
        obtain ⟨hs, hl, hsh⟩ := h.taken hq
        obtain ⟨hshared, hcases⟩ := Shared.react (s := { s with queue := rest }) hsh hs hl
        rw [← step_cons hq] at hshared hcases
        refine ⟨⟨hstep.1, hstep.2, hshared⟩, hcases.imp (fun hr => ⟨hr.1, hr.2, hr.3⟩) ?_⟩
        rintro ⟨i, rfl, hb⟩
        exact ⟨rfl, i, rest, rfl, hb.1, hb.2, hb.3, hb.4, hb.5⟩

theorem Convened.meeting (h : Convened s) (hxs : s.Sharing xs) : Convened (s.meeting xs) := by
  induction xs generalizing s with
  | nil => exact h
  | cons x rest ih => exact ih (h.meet hxs.1).1 hxs.2

/-- From one session to another no task begins again and none that has ended changes; there may be a
new startup. -/
structure Proceeds (s t : Session) : Prop where
  length : s.tasks.length ≤ t.tasks.length
  startup : t.startup = s.startup ∨ t.startup = some s.tasks.length
  begun : ∀ i k, i < s.tasks.length → t.task? i = some k → k.standing = .queued →
    s.task? i = some k
  keeps : KeepsAnswers s t

theorem Proceeds.of_same (htasks : t.tasks = s.tasks) (hstartup : t.startup = s.startup) :
    Proceeds s t :=
  ⟨Nat.le_of_eq (by rw [htasks]), .inl hstartup,
    fun i _ _ hk _ => (task?_congr htasks i).symm.trans hk, .of_tasks htasks⟩

/-- A task that has not ended goes on or ends. -/
theorem Proceeds.turn (standing : Standing) (hk : s.task? id = some k) (hopen : k.hasEnded = false)
    (hbegun : standing ≠ .queued) (htasks : t.tasks = (s.setStanding id standing).tasks)
    (hstartup : t.startup = s.startup) : Proceeds s t := by
  refine ⟨?_, .inl hstartup, fun i ki _ hki hq => ?_, .of_turn hk hopen htasks⟩
  · rw [htasks]
    exact Nat.le_of_eq (List.length_modify ..).symm
  · by_cases hi : i = id
    · subst hi
      cases (task?_setStanding_self hk htasks).symm.trans hki
      exact absurd hq hbegun
    · exact (task?_setStanding_of_ne htasks i hi).symm.trans hki

theorem Proceeds.add {request : Request} (htasks : t.tasks = s.tasks ++ [⟨request, .queued⟩])
    (hstartup : t.startup = s.startup ∨ t.startup = some s.tasks.length) : Proceeds s t := by
  refine ⟨?_, hstartup, fun i k hi hk _ => (task?_added_of_lt htasks hi).symm.trans hk,
    fun i k hk _ => task?_added_of htasks hk⟩
  rw [htasks, List.length_append]
  exact Nat.le_add_right ..

/-- The startup stays from then on. -/
theorem Proceeds.trans (h : Proceeds s t) (h' : Proceeds t u) (hstartup : u.startup = t.startup) :
    Proceeds s u :=
  ⟨Nat.le_trans h.length h'.length, hstartup ▸ h.startup, fun i k hi hk hq =>
    h.begun i k hi (h'.begun i k (Nat.lt_of_lt_of_le hi h.length) hk hq) hq, h.keeps.trans h'.keeps⟩

theorem Errand.proceeds (he : Errand n s t) : Proceeds s t := by
  cases he with
  | rests idles => exact .of_same idles.tasks idles.startup
  | leaves task opened _ _ _ away parts =>
    refine .turn _ task opened ?_ parts.tasks parts.startup
    rintro rfl
    exact away trivial
  | @joins id i k _ task queued _ _ _ _ result =>
    rw [result]
    exact .turn (.awaitingStartup i) task (Task.hasEnded_eq_false queued not_false) nofun rfl rfl
  | @opens id k _ task queued _ _ _ result =>
    have hadded : Proceeds s { (s.addTask .startup).1 with startup := some s.tasks.length } :=
      .add rfl (.inr rfl)
    rw [result]
    exact hadded.trans (.turn (.awaitingStartup s.tasks.length) (task?_addTask task .startup)
      (Task.hasEnded_eq_false queued not_false) nofun rfl rfl) rfl
  | @hears id i k answer _ task waits _ result =>
    rw [result]
    exact .turn (.startupCame answer) task (Task.hasEnded_eq_false waits not_false) nofun rfl rfl

theorem Convened.proceeds (h : Convened s) (hx : s.Permits x) : Proceeds s (s.meet x) := by
  cases x with
  | cancel id =>
    show Proceeds s (s.cancel id)
    rcases h.cancel_eq hx with ⟨-, he⟩ | ⟨k, hk, hway, -, he⟩
    · rw [he]
      exact .of_same rfl rfl
    · rw [he]
      exact .turn (.ended (.failed .cancelled)) hk (Task.hasEnded_of_onTheWay hway) nofun rfl rfl
  | act a =>
    cases a with
    | ask request => exact .add rfl (.inl rfl)
    | feed | exit => exact .of_same rfl rfl
    | step =>
      show Proceeds s s.step
      cases hq : s.queue with
      | nil =>
        rw [step_nil hq]
        exact .of_same rfl rfl
      | cons n rest =>
        have hp := (step_errand hq).proceeds
        exact ⟨hp.1, hp.2, hp.3, hp.4⟩

end Session

end VerifierHost
