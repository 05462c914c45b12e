import VerifierHost.Proofs.Server.Ensuring

/-! # A server that is gone before its startup looks

Whatever happens in time keeps a session concerted, and what a task has ended with it never takes
back (`Session.KeepsAnswers`). So a request for the address ends with an address that the running
server has announced, or because the server crashed, was refused or stopped; unless it has waited
for a startup whose server was ready and is gone again before the startup looks. -/

namespace VerifierHost.Session

variable {s₀ s t u : Session} {hs : List Happening} {x : Happening} {n : Notice} {ns : List Notice}
  {id i : TaskId} {k : Task} {answer : Answer}

/-! ## What happens from outside -/

/-- No startup is under way any more. -/
theorem Concerted.dismiss (h : Concerted s₀ hs s)
    (hover : ∀ i k, s.startup = some i → s.task? i = some k → k.hasEnded = true) :
    Concerted s₀ hs { s with startup := none } where
  plain := h.plain
  sole i k hk hr ho := by cases ho.symm.trans (hover i k (h.sole i k hk hr ho) hk)
  calm := h.calm
  fits i k hk := (h.fits i k hk).transfer (fun _ _ _ _ hw => hw.of_phases rfl) (fun _ hi => hi)
    (.of_tasks rfl)
  roused := h.roused
  devoted := h.devoted

/-- A startup that is given up ends. -/
theorem Concerted.giveUp (h : Concerted s₀ hs s) (hsound : Sound ns s) (hk : s.task? id = some k)
    (hr : k.request = .startup) (hopen : k.hasEnded = false)
    (hfate : s₀.Fate hs id (.failed .cancelled)) :
    Concerted s₀ hs ((s.giveUp k.standing).endTask id (.failed .cancelled)) := by
  rcases s.giveUp_cases (hsound.startup_standing hk hr) with he | ⟨ready, crashed, he⟩
  · rw [he]
    exact h.endTask hk hopen (hr ▸ hfate)
  · rw [he]
    refine h.turn hk hopen rfl rfl (.inr ⟨hr, (h.calm.cancel ready).cancel crashed⟩)
      (fun i hi => ?_) (hr ▸ hfate) (by rintro ⟨⟩) False.elim
    have hi := (Apart.endTask _ id _).mem_queue_of_phaseEnded hi
    exact (List.mem_append.mp hi).resolve_right List.not_mem_nil

/-- A stop cancels the startup under way. -/
theorem Concerted.stop (h : Concerted s₀ hs s) (hnow : s₀.through hs = s) (hsteady : Steady s) :
    Concerted s₀ (hs ++ [.stop]) s.stopServer.1 := by
  obtain ⟨u, hu, -, hclears, -⟩ := stopServer_spec hsteady.sound hsteady.startup
    hsteady.attended.kept
  have hrest : Concerted s₀ (hs ++ [.stop]) s.unannounced :=
    (h.concat hnow .stop).signals (.of_same rfl rfl rfl fun _ hi => hi)
  refine Concerted.signals (s := { u with startup := none }) ?_ hclears.toSignals
  rcases hu with ⟨hnone, rfl⟩ | ⟨id, hid, rfl⟩
  · refine hrest.dismiss fun i k hi _ => ?_
    cases hnone.symm.trans hi
  · obtain ⟨k, hk, hr⟩ := hsteady.startup id hid
    have hk' : s.unannounced.task? id = some k := hk
    unfold Session.cancel
    rw [hk']
    dsimp only
    split
    next hended =>
      refine hrest.dismiss fun i k' hi hi' => ?_
      cases hid.symm.trans hi
      cases hk'.symm.trans hi'
      exact hended
    next hopen =>
      rw [Bool.not_eq_true] at hopen
      have hnow' : (s₀.through hs).task? id = some k := hnow ▸ hk
      have hgiven := hrest.giveUp (Sound.aside [] hsteady.sound s.unannounced_aside) hk' hr hopen
        (Settles.stopped hnow' hr hopen).fate
      obtain ⟨htasks, hstartup⟩ := s.unannounced.giveUp_same k.standing
      refine hgiven.dismiss fun i k' hi hi' => ?_
      cases hid.symm.trans (hstartup.symm.trans hi)
      have hended := (task?_congr (setStanding_tasks_congr htasks id _) id).symm.trans hi'
      rw [setStanding_task?_of hk', if_pos rfl] at hended
      cases hended
      rfl

theorem Concerted.undergo (h : Concerted s₀ hs s) (hnow : s₀.through hs = s)
    (hl : Listens (fun pid => s₀.printed pid hs) s) (hx : x.Shares) :
    Concerted s₀ (hs ++ [x]) (s.undergo x) := by
  have hrest := h.concat hnow x
  cases x with
  | stop => exact h.stop hnow hl.steady
  | act a =>
    cases a with
    | ask request =>
      refine hrest.add rfl ?_ (.inl ⟨rfl, ?_⟩) rfl fun i hi => ?_
      · rintro rfl
        exact hx trivial
      · rintro rfl
        exact hx trivial
      · refine (List.mem_append.mp hi).resolve_right fun hi => ?_
        cases List.mem_singleton.mp hi
    | feed pid stream chunk =>
      refine hrest.signals (.of_same rfl rfl rfl fun i hi => ?_)
      exact (List.mem_append.mp hi).resolve_right phaseEnded_not_mem_wakes
    | exit pid code time =>
      refine hrest.signals (.of_same rfl rfl rfl fun i hi => ?_)
      exact (List.mem_append.mp hi).resolve_right phaseEnded_not_mem_wakes
    | step =>
      show Concerted s₀ (hs ++ [.act .step]) s.step
      cases hq : s.queue with
      | nil =>
        rw [step_nil hq]
        exact hrest
      | cons n rest =>
        rw [step_cons hq]
        have hs' : s = { s with queue := n :: rest } := by rw [← hq]
        exact Takes.react ⟨hnow.trans hs', hnow ▸ h, hnow ▸ hl⟩

/-- **Whatever happens in time** to a session of which nobody asks for more than its startup keeps
all concerted. -/
theorem Fresh.concerted (h : s.Fresh) (ho : s.Orderly hs) (hshares : ∀ x ∈ hs, x.Shares) :
    Concerted s hs (s.through hs) := by
  refine through_induction (P := fun hs t => s.Orderly hs → (∀ x ∈ hs, x.Shares) →
    Concerted s hs t) (fun _ _ => ?_) (fun hs x _ ih ho hshares => ?_) ho ho hshares
  · have hnone : ∀ {i k}, s.task? i ≠ some k := h.task?_ne_some
    obtain ⟨_, _, _, _, _, _, _, _, _, rfl⟩ := h
    refine ⟨fun _ _ hk => absurd hk hnone, fun _ _ hk => absurd hk hnone,
      ⟨rfl, rfl, fun _ _ hw => ?_⟩, fun _ _ hk => absurd hk hnone, fun _ hi => ?_, ?_⟩
    · cases hw
    · exact absurd hi List.not_mem_nil
    · rintro id i ⟨before, x, later, k, he, -⟩
      exact absurd he.symm (by simp)
  · obtain ⟨hbefore, -⟩ := orderly_append.mp ho
    have hc := ih hbefore fun x hx => hshares x (List.mem_append_left _ hx)
    exact hc.undergo rfl (h.listens hbefore) (hshares x (List.mem_append_right _ (by simp)))

/-! ## What a task has ended with -/

theorem Aside.keepsAnswers (h : Aside s t) : KeepsAnswers s t := by
  intro i k hk hended
  obtain ⟨k', hk', rfl | ⟨-, hf, -⟩⟩ := h.old i k hk
  · exact hk'
  · have he := Task.hasEnded_iff.mp hended
    rcases hf with hq | ho
    · rw [hq] at he
      exact he.elim
    · cases hs' : k.standing with
      | ended => rw [hs'] at ho; exact ho.elim
      | _ => rw [hs'] at he; exact he.elim

theorem Course.keepsAnswers (h : Sound (n :: ns) s) (hc : Course n s t) : KeepsAnswers s t := by
  cases hc with
  | aside ha => exact ha.keepsAnswers
  | waits _ hk hq => exact .of_turn hk (Task.hasEnded_eq_false hq not_false) rfl
  | @answers id k hk _ hn =>
    obtain ⟨answer, htasks⟩ := s.answerNews_tasks id
    refine .of_turn hk ?_ htasks
    rcases hn with ⟨-, hq⟩ | ⟨-, w, hw, -⟩
    · exact Task.hasEnded_eq_false hq not_false
    · exact Task.hasEnded_eq_false hw not_false
  | @launches id k path target address hk _ hn =>
    obtain ⟨standing, htasks, -⟩ := launch_answer hk path target address
    refine .of_turn hk ?_ htasks
    rcases hn with ⟨-, hq⟩ | ⟨-, a, ha⟩
    · exact Task.hasEnded_eq_false hq not_false
    · exact Task.hasEnded_eq_false ha not_false
  | reads _ hr hreads =>
    obtain ⟨w, chunks, closed, -, -, htasks, -⟩ := readVerifier_spec h.runners hr hreads
    exact .of_tasks htasks
  | counts _ hk hs => exact .of_turn hk (Task.hasEnded_eq_false hs not_false) (counts_tasks ..)
  | awaits _ _ hk hrun => exact .of_turn hk (runs?_open hrun) rfl
  | @finishes r id k code _ _ hk hrun =>
    obtain ⟨-, -, -, -, answer, htasks⟩ := s.finishRun_same id r code
    exact .of_turn hk (runs?_open hrun) htasks

theorem Steady.keepsAnswers (h : Steady s) (x : Happening) : KeepsAnswers s (s.undergo x) := by
  cases x with
  | stop => exact (stopServer_aside h.sound h.startup).keepsAnswers
  | act a =>
    cases a with
    | ask request => exact (Aside.addTask s request).keepsAnswers
    | feed | exit => exact .of_tasks rfl
    | step =>
      rcases step_course h.sound with he | ⟨n, rest, -, hc, hsound⟩
      · show KeepsAnswers s s.step
        rw [he]
        exact .of_tasks rfl
      · have hkeeps := hc.keepsAnswers hsound
        exact hkeeps

/-- What a task has ended with it never takes back. -/
theorem Steady.keepsAnswers_through (h : Steady s) (ho : s.Orderly hs) :
    KeepsAnswers s (s.through hs) := by
  induction hs generalizing s with
  | nil => exact .of_tasks rfl
  | cons x rest ih => exact (h.keepsAnswers x).trans (ih (h.undergo ho.1) ho.2)

/-! ## A startup that was overtaken -/

/-- A startup was overtaken at some moment of a history. -/
def WasOvertaken (s : Session) (hs : List Happening) (id : TaskId) : Prop :=
  ∃ before later, hs = before ++ .act .step :: later ∧ (s.through before).Overtaken id

/-- A startup that is overtaken misses the address. -/
theorem Overtaken.step_task? (h : s.Overtaken id) :
    s.step.task? id = some ⟨.startup, .ended (.failed (.violation readyWithoutAddress))⟩ := by
  obtain ⟨ready, crashed, rest, hq, hk, hreleased, hstate⟩ := h
  have hnone : s.server.address = none := by
    rw [SharedServer.address, if_neg hstate]
  have hmissed : s.readyAddress = .failed (.violation readyWithoutAddress) := by
    rcases s.readyAddress_cases with ⟨address, ha, -⟩ | ⟨-, he⟩
    · cases hnone.symm.trans ha
    · exact he
  have hk' : ({ s with queue := rest } : Session).task? id =
    some ⟨.startup, .phaseCame ready crashed⟩ := hk
  rw [step_cons hq, ← hmissed]
  show (Session.resume _ id).task? id = _
  unfold Session.resume Session.concludePhase
  rw [hk']
  dsimp only [Option.map_some]
  rw [hreleased]
  exact (setStanding_task?_of hk (.ended s.readyAddress) id).trans (if_pos rfl)

/-- A startup ends without an address if and only if it was overtaken. -/
theorem overtaken_iff (h : s.Fresh) (ho : s.Orderly hs) (hshares : ∀ x ∈ hs, x.Shares) :
    (s.through hs).task? id =
        some ⟨.startup, .ended (.failed (.violation readyWithoutAddress))⟩ ↔
      s.WasOvertaken hs id := by
  constructor
  · intro hk
    obtain ⟨before, x, later, he, hsettles⟩ := (h.concerted ho hshares).fits id _ hk
    cases hsettles with
    | overtaken ho => exact ⟨before, later, he, ho⟩
  · rintro ⟨before, later, rfl, hovertaken⟩
    obtain ⟨hbefore, htimely, hlater⟩ := orderly_append.mp ho
    have hsteady := (h.listens hbefore).steady.undergo htimely
    rw [through_append]
    exact hsteady.keepsAnswers_through hlater _ _ hovertaken.step_task? rfl

/-- The answer of a startup that finds the server ready and without an address. -/
def missed : Answer := .failed (.violation readyWithoutAddress)

namespace Concerted

/-- A task waits for one startup only. -/
theorem joined_unique (h : Concerted s₀ hs s) {j : TaskId} (hi : s₀.Joined hs id i)
    (hj : s₀.Joined hs id j) : i = j := by
  obtain ⟨_, _, _, hone⟩ := h.devoted id j hj
  exact hone i (.inr hi)

theorem told_missed_iff (h : Concerted s₀ hs s) (ht : s₀.Told hs s id answer) :
    answer = missed ↔ ∃ i, s₀.Joined hs id i ∧ s.task? i = some ⟨.startup, .ended missed⟩ := by
  constructor
  · rintro rfl
    cases ht with
    | @shared i _ joined ended => exact ⟨i, joined, ended⟩
  · rintro ⟨i, hi, hended⟩
    cases ht with
    | known alone => exact absurd hi (alone i)
    | shared joined ended =>
      cases h.joined_unique hi joined
      cases hended.symm.trans ended
      rfl

theorem replied_missed_iff (h : Concerted s₀ hs s) (hr : s₀.Replied hs s id answer) :
    answer = missed ↔ ∃ i, s₀.Joined hs id i ∧ s.task? i = some ⟨.startup, .ended missed⟩ := by
  have hreached : s₀.Reached hs s id →
      ¬ ∃ i, s₀.Joined hs id i ∧ s.task? i = some ⟨.startup, .ended missed⟩ := by
    rintro hreached ⟨i, hi, hended⟩
    obtain ⟨address, ha⟩ := hreached i hi
    cases hended.symm.trans ha
  cases hr with
  | ran reached run =>
    refine iff_of_false ?_ (hreached reached)
    rintro rfl
    exact run
  | detached reached =>
    refine iff_of_false (fun he => ?_) (hreached reached)
    injection he with he
    injection he with he
    exact absurd he (by decide)
  | @unreached i why joined ended =>
    constructor
    · intro he
      refine ⟨i, joined, ended.trans ?_⟩
      unfold Failure.reply at he
      split at he
      next => cases he
      next =>
        rw [he]
    · rintro ⟨j, hj, hended⟩
      cases h.joined_unique joined hj
      cases ended.symm.trans hended
      rfl

end Concerted

/-- **A request for the address ends as the startup does that it shares**, whatever happens in time:
with an address that the running server has announced, or because the server has crashed, was
refused or stopped. It misses the address if and only if that startup was overtaken: the server was
ready, and not any more when the startup looked. A request to verify gets the same reason for its
reply. -/
theorem ensureReady_settled (h : s.Fresh) (ho : s.Orderly hs) (hshares : ∀ x ∈ hs, x.Shares) :
    let t := s.through hs
    (∀ id answer, t.task? id = some ⟨.startup, .ended answer⟩ → s.Fate hs id answer) ∧
    (∀ id answer, t.task? id = some ⟨.ensureReady, .ended answer⟩ → s.Told hs t id answer ∧
      (answer = missed ↔ ∃ i, s.Joined hs id i ∧ s.WasOvertaken hs i)) ∧
    ∀ id path target address answer,
      t.task? id = some ⟨.verify path target address, .ended answer⟩ → s.Replied hs t id answer ∧
        (answer = missed ↔ ∃ i, s.Joined hs id i ∧ s.WasOvertaken hs i) := by
  have hconcerted := h.concerted ho hshares
  simp only [← overtaken_iff h ho hshares]
  refine ⟨fun id answer hk => hconcerted.fits id _ hk, fun id answer hk => ?_,
    fun id path target address answer hk => ?_⟩
  · have htold := hconcerted.fits id _ hk
    exact ⟨htold, hconcerted.told_missed_iff htold⟩
  · have hreplied := hconcerted.fits id _ hk
    exact ⟨hreplied, hconcerted.replied_missed_iff hreplied⟩

/-! A server that announces its address and ends before the startup looks. -/

def vanishing : List Happening :=
  [.act (.ask .ensureReady), .act (.ask (.verify "/w/a.rs" .file none)), .act .step, .act .step,
    .act .step, .act .step, .act .step, .act .step,
    .act (.feed 1 .stdout (Text.utf8 "port: 1\n".toList)), .act (.exit 1 (some 1) .zero),
    .act .step, .act .step, .act .step, .act .step, .act .step, .act .step, .act .step, .act .step,
    .act .step, .act .step]

theorem ensureReady_vanishing :
    quiet.Orderly vanishing ∧ (∀ x ∈ vanishing, x.Shares) ∧
      (∃ i, quiet.Joined vanishing 0 i ∧ quiet.WasOvertaken vanishing i) ∧
      ∃ i, quiet.Joined vanishing 1 i ∧ quiet.WasOvertaken vanishing i := by
  have horderly : quiet.Orderly vanishing := by decide +kernel
  have hshares : ∀ x ∈ vanishing, x.Shares := by decide +kernel
  have hensured : (quiet.through vanishing).task? 0 = some ⟨.ensureReady, .ended missed⟩ := rfl
  have hverified : (quiet.through vanishing).task? 1 =
      some ⟨.verify "/w/a.rs" .file none, .ended missed⟩ := rfl
  obtain ⟨-, hensure, hverify⟩ := ensureReady_settled fresh_quiet horderly hshares
  exact ⟨horderly, hshares, (hensure 0 missed hensured).2.mp rfl,
    (hverify 1 _ _ _ missed hverified).2.mp rfl⟩

end VerifierHost.Session
