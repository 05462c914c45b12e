import VerifierHost.Proofs.Server.Address

/-! # What becomes of a startup

All who ask for the address of the server share one startup. `Session.Settles` lists all that can
settle it. Between the steps of a session every task that has to do with the server fits into that
(`Session.Concerted`): the startup watches the server, the others wait for the startup or know what
became of it, and what has ended was answered accordingly. -/

namespace VerifierHost

/-- A request that waits for a state of the server beside the startup that is shared. -/
def Request.WaitsAlone : Request → Prop
  | .waitUntilReady | .startup => True
  | _ => False

instance : DecidablePred Request.WaitsAlone
  | .waitUntilReady | .startup => .isTrue trivial
  | .answered _ | .verify .. | .run .. | .hover .. | .hints _ | .ensureReady | .startServer
  | .supervise .. | .news _ => .isFalse not_false

/-- Nobody waits for the server beside the startup that is shared. -/
def Happening.Shares : Happening → Prop
  | .act (.ask request) => ¬ request.WaitsAlone
  | .act _ | .stop => True

instance : DecidablePred Happening.Shares
  | .act (.ask request) => inferInstanceAs (Decidable (¬ request.WaitsAlone))
  | .act (.feed ..) | .act (.exit ..) | .act .step | .stop => .isTrue trivial

/-- The complaint about a server that was ready and has no address. -/
def readyWithoutAddress : Violation := ⟨"ready server without address", []⟩

/-- What is replied when the server cannot be reached: the server's own failures are told. -/
def Failure.reply (why : Failure) : Answer :=
  match why.serverReason? with
  | some reason => .verified (.unavailable reason)
  | none => .failed why

/-- An answer to a request to verify that its run has come to. -/
def Answer.OfRun : Answer → Prop
  | .verified .superseded | .verified (.finished _) | .failed (.noUri _) | .failed (.badPath _) =>
    True
  | _ => False

/-- The waits of a task that waits for the server, or is about to look which of them has ended. -/
def Standing.watched? : Standing → Option (WaitId × WaitId)
  | .awaitingPhase ready crashed | .phaseCame ready crashed => some (ready, crashed)
  | _ => none

/-- A wait that a task begins with its first step, if at all. -/
def Standing.Initial : Standing → Prop
  | .awaitingPhase .. | .awaitingStartup _ => True
  | _ => False

namespace Session

/-- A startup waits for the server to be ready or to crash. -/
def Underway (s : Session) (id : TaskId) : Prop :=
  ∃ k, s.task? id = some k ∧ k.request = .startup ∧ k.standing.watched?.isSome

/-- The server has crashed while a startup waited for it. -/
def Died (s : Session) (hs : List Happening) (id : TaskId) : Prop :=
  ∃ before later, hs = before ++ later ∧
    (s.through before).server.supervisor.state = .crashed ∧ (s.through before).Underway id

/-- The server was ready while a startup waited for it, and is not any more when that looks. -/
def Overtaken (s : Session) (id : TaskId) : Prop :=
  ∃ ready crashed rest, s.queue = .resume id :: rest ∧
    s.task? id = some ⟨.startup, .phaseCame ready crashed⟩ ∧
    s.server.supervisor.waitStatus ready = .released ∧ s.server.supervisor.state ≠ .ready

/-- What settles a startup, or shows that none is needed: all that can happen next to a session
that has gone through a history, and the answer that comes of it. -/
inductive Settles (s : Session) (before : List Happening) (id : TaskId) : Happening → Answer → Prop
  | ready {pid : Pid} {address : Text}
      (held : (s.through before).server.supervisor.held = some pid)
      (known : (s.through before).server.address = some address)
      (announces : Announces (s.through before) pid (s.printed pid before) address) :
      Settles s before id (.act .step) (.address address)
  | refused {rest : List Notice} {fault : Fault}
      (begins : (s.through before).queue = .begin id :: rest)
      (task : (s.through before).task? id = some ⟨.startup, .queued⟩)
      (refusal : (s.through before).world.spawn.2 = .error fault) :
      Settles s before id (.act .step) (.failed (.spawn (s.through before).toolchain.server fault))
  | died {rest : List Notice} (resumes : (s.through before).queue = .resume id :: rest)
      (died : s.Died before id) : Settles s before id (.act .step)
        (.failed (.server (s.through before).server.supervisor.name .diedBeforeReady))
  | overtaken (overtaken : (s.through before).Overtaken id) :
      Settles s before id (.act .step) (.failed (.violation readyWithoutAddress))
  | stopped {k : Task} (task : (s.through before).task? id = some k)
      (startup : k.request = .startup) (opened : k.hasEnded = false) :
      Settles s before id .stop (.failed .cancelled)

/-- A startup was settled with an answer at some moment of a history. -/
def Fate (s : Session) (hs : List Happening) (id : TaskId) (answer : Answer) : Prop :=
  ∃ before x later, hs = before ++ x :: later ∧ Settles s before id x answer

/-- A task has waited for a startup. -/
def Joined (s : Session) (hs : List Happening) (id i : TaskId) : Prop :=
  ∃ before x later k, hs = before ++ x :: later ∧ (s.through before).task? id = some k ∧
    k.standing = .awaitingStartup i

/-- What a task is told about the server: the address at once if that is known, or else what the
startup has ended with for which it has waited. -/
inductive Told (s : Session) (hs : List Happening) (t : Session) (id : TaskId) : Answer → Prop
  | known {address : Text} (alone : ∀ i, ¬ s.Joined hs id i)
      (fate : s.Fate hs id (.address address)) : Told s hs t id (.address address)
  | shared {i : TaskId} {answer : Answer} (joined : s.Joined hs id i)
      (ended : t.task? i = some ⟨.startup, .ended answer⟩) : Told s hs t id answer

/-- Every startup that a task has waited for has come to an address. -/
def Reached (s : Session) (hs : List Happening) (t : Session) (id : TaskId) : Prop :=
  ∀ i, s.Joined hs id i → ∃ address, t.task? i = some ⟨.startup, .ended (.address address)⟩

/-- All that can be replied to a request to verify. -/
inductive Replied (s : Session) (hs : List Happening) (t : Session) (id : TaskId) : Answer → Prop
  | ran {answer : Answer} (reached : s.Reached hs t id) (run : answer.OfRun) :
      Replied s hs t id answer
  | detached {before later : List Happening} (reached : s.Reached hs t id)
      (split : hs = before ++ later) (detached : (s.through before).attached = false) :
      Replied s hs t id (.failed (.violation detachedViolation))
  | unreached {i : TaskId} {why : Failure} (joined : s.Joined hs id i)
      (ended : t.task? i = some ⟨.startup, .ended (.failed why)⟩) : Replied s hs t id why.reply

/-- The answer that a request gets after a history. -/
def Owed (s : Session) (hs : List Happening) (t : Session) (id : TaskId) : Request → Answer → Prop
  | .startup, answer => s.Fate hs id answer
  | .ensureReady, answer => s.Told hs t id answer
  | .verify .., answer => s.Replied hs t id answer
  | _, _ => True

variable {s₀ s t u : Session} {hs : List Happening} {x : Happening} {id i : TaskId} {k : Task}
  {request : Request} {standing : Standing} {answer : Answer} {ready crashed : WaitId}

/-! ## Histories go on -/

theorem Died.append (h : s₀.Died hs id) (more : List Happening) : s₀.Died (hs ++ more) id := by
  obtain ⟨before, later, rfl, hrest⟩ := h
  exact ⟨before, later ++ more, List.append_assoc .., hrest⟩

theorem Fate.append (h : s₀.Fate hs id answer) (more : List Happening) :
    s₀.Fate (hs ++ more) id answer := by
  obtain ⟨before, x, later, rfl, hrest⟩ := h
  exact ⟨before, x, later ++ more, List.append_assoc .., hrest⟩

theorem Settles.fate (h : Settles s₀ hs id x answer) : s₀.Fate (hs ++ [x]) id answer :=
  ⟨hs, x, [], rfl, h⟩

theorem joined_concat : s₀.Joined (hs ++ [x]) id i ↔ s₀.Joined hs id i ∨
    ∃ k, (s₀.through hs).task? id = some k ∧ k.standing = .awaitingStartup i := by
  constructor
  · rintro ⟨before, y, later, k, he, hk, hs'⟩
    rcases later.eq_nil_or_concat with rfl | ⟨middle, z, rfl⟩
    · obtain ⟨rfl, -⟩ := List.append_inj' he rfl
      exact .inr ⟨k, hk, hs'⟩
    · rw [List.concat_eq_append, ← List.cons_append, ← List.append_assoc] at he
      obtain ⟨rfl, -⟩ := List.append_inj' he rfl
      exact .inl ⟨before, y, middle, k, rfl, hk, hs'⟩
  · rintro (⟨before, y, later, k, rfl, hk, hs'⟩ | ⟨k, hk, hs'⟩)
    · exact ⟨before, y, later ++ [x], k, List.append_assoc .., hk, hs'⟩
    · exact ⟨hs, x, [], k, rfl, hk, hs'⟩

theorem Joined.concat (h : s₀.Joined hs id i) (x : Happening) : s₀.Joined (hs ++ [x]) id i :=
  joined_concat.mpr (.inl h)

section Concat

/- A task that has not joined a startup just now. -/
variable (hold : ∀ i, s₀.Joined (hs ++ [x]) id i → s₀.Joined hs id i)

include hold

theorem Told.concat (h : s₀.Told hs s id answer) : s₀.Told (hs ++ [x]) s id answer := by
  cases h with
  | known alone fate => exact .known (fun i hi => alone i (hold i hi)) (fate.append [x])
  | shared joined ended => exact .shared (joined.concat x) ended

theorem Reached.concat (h : s₀.Reached hs s id) : s₀.Reached (hs ++ [x]) s id :=
  fun i hi => h i (hold i hi)

theorem Replied.concat (h : s₀.Replied hs s id answer) : s₀.Replied (hs ++ [x]) s id answer := by
  cases h with
  | ran reached run => exact .ran (reached.concat hold) run
  | @detached before later reached split detached =>
    exact .detached (reached.concat hold) (by rw [split, List.append_assoc]) detached
  | unreached joined ended => exact .unreached (joined.concat x) ended

theorem Owed.concat (h : s₀.Owed hs s id request answer) :
    s₀.Owed (hs ++ [x]) s id request answer := by
  cases request with
  | startup => exact Fate.append h [x]
  | ensureReady => exact Told.concat hold h
  | verify => exact Replied.concat hold h
  | _ => trivial

end Concat

/-! ## What has ended stays as it is -/

/-- From one session to another no task that has ended changes. -/
def KeepsAnswers (s t : Session) : Prop :=
  ∀ i k, s.task? i = some k → k.hasEnded = true → t.task? i = some k

theorem KeepsAnswers.of_tasks (h : t.tasks = s.tasks) : KeepsAnswers s t :=
  fun i _ hk _ => (task?_congr h i).trans hk

/-- A task that has not ended may change. -/
theorem KeepsAnswers.of_turn (hk : s.task? id = some k) (hopen : k.hasEnded = false)
    (htasks : t.tasks = (s.setStanding id standing).tasks) : KeepsAnswers s t := by
  intro i k' hk' hended
  refine (task?_setStanding_of_ne htasks i ?_).trans hk'
  rintro rfl
  cases hk.symm.trans hk'
  cases hopen.symm.trans hended

theorem KeepsAnswers.trans (h : KeepsAnswers s t) (h' : KeepsAnswers t u) : KeepsAnswers s u :=
  fun i k hk he => h' i k (h i k hk he) he

theorem Told.transfer (h : s₀.Told hs s id answer) (hst : KeepsAnswers s t) :
    s₀.Told hs t id answer := by
  cases h with
  | known alone fate => exact .known alone fate
  | shared joined ended => exact .shared joined (hst _ _ ended rfl)

theorem Reached.transfer (h : s₀.Reached hs s id) (hst : KeepsAnswers s t) :
    s₀.Reached hs t id := by
  intro i hi
  obtain ⟨address, ha⟩ := h i hi
  exact ⟨address, hst _ _ ha rfl⟩

theorem Owed.transfer (h : s₀.Owed hs s id request answer) (hst : KeepsAnswers s t) :
    s₀.Owed hs t id request answer := by
  cases request with
  | startup => exact h
  | ensureReady => exact Told.transfer h hst
  | verify =>
    cases h with
    | ran reached run => exact .ran (reached.transfer hst) run
    | detached reached split detached => exact .detached (reached.transfer hst) split detached
    | unreached joined ended => exact .unreached joined (hst _ _ ended rfl)
  | _ => trivial

/-! ## Tasks that have to do with the server -/

/-- A task is a startup, whether it has ended or not. -/
def IsStartup (s : Session) (id : TaskId) : Prop := ∃ k, s.task? id = some k ∧ k.request = .startup

/-- The server has been ready since a startup waits, or has crashed. -/
def Came (s : Session) (ready crashed : WaitId) : Prop :=
  s.server.supervisor.phases.book.status? ready = some .released ∨
    s.server.supervisor.phases.book.status? crashed = some .released

/-- A startup watches the server, whose crash would have been noticed. -/
structure Watching (s₀ : Session) (hs : List Happening) (s : Session) (id : TaskId)
    (ready crashed : WaitId) : Prop where
  watches : s.server.supervisor.phases.Watches ready crashed
  died : s.server.supervisor.phases.book.status? crashed = some .released → s₀.Died hs id

/-- What is known of a task by its standing. -/
def Fits (s₀ : Session) (hs : List Happening) (s : Session) (id : TaskId) (request : Request) :
    Standing → Prop
  | .queued | .awaitingNews _ => True
  | .awaitingOutput .. | .awaitingExit _ => s₀.Reached hs s id
  | .awaitingPhase ready crashed => request = .startup ∧ Watching s₀ hs s id ready crashed
  | .phaseCame ready crashed =>
    request = .startup ∧ Watching s₀ hs s id ready crashed ∧ s.Came ready crashed
  | .awaitingStartup i => request ≠ .startup ∧ s.IsStartup i
  | .startupCame answer => request ≠ .startup ∧ s₀.Told hs s id answer
  | .ended answer => s₀.Owed hs s id request answer

/-- A task has been told that a wait of its has ended. -/
def Roused (s : Session) (id : TaskId) : Prop :=
  ∃ k, s.task? id = some k ∧ k.standing ≠ .queued ∧
    ∀ ready crashed, k.standing = .awaitingPhase ready crashed → s.Came ready crashed

/-- A task that has waited for a startup waits for no other one. -/
def Devoted (s₀ : Session) (hs : List Happening) (s : Session) (id i : TaskId) : Prop :=
  ∃ k, s.task? id = some k ∧ k.standing ≠ .queued ∧
    ∀ j, k.standing = .awaitingStartup j ∨ s₀.Joined hs id j → j = i

/-- All who have to do with the server share one startup. -/
structure Concerted (s₀ : Session) (hs : List Happening) (s : Session) : Prop where
  plain : ∀ id k, s.task? id = some k → k.request ≠ .waitUntilReady
  sole : ∀ id k, s.task? id = some k → k.request = .startup → k.hasEnded = false →
    s.startup = some id
  calm : s.server.supervisor.phases.Calm
  fits : ∀ id k, s.task? id = some k → Fits s₀ hs s id k.request k.standing
  roused : ∀ id, .phaseEnded id ∈ s.queue → s.Roused id
  devoted : ∀ id i, s₀.Joined hs id i → Devoted s₀ hs s id i

theorem Watching.append (h : Watching s₀ hs s id ready crashed) (more : List Happening) :
    Watching s₀ (hs ++ more) s id ready crashed :=
  ⟨h.watches, fun hr => (h.died hr).append more⟩

theorem Fits.concat (h : Fits s₀ hs s id request standing)
    (hold : ∀ i, s₀.Joined (hs ++ [x]) id i →
      s₀.Joined hs id i ∨ standing = .awaitingStartup i) :
    Fits s₀ (hs ++ [x]) s id request standing := by
  have hbefore : (∀ i, standing ≠ .awaitingStartup i) →
      ∀ i, s₀.Joined (hs ++ [x]) id i → s₀.Joined hs id i :=
    fun hs' i hi => (hold i hi).resolve_right (hs' i)
  cases standing with
  | awaitingPhase => exact ⟨h.1, h.2.append [x]⟩
  | phaseCame => exact ⟨h.1, h.2.1.append [x], h.2.2⟩
  | awaitingStartup => exact h
  | startupCame => exact ⟨h.1, h.2.concat (hbefore nofun)⟩
  | ended => exact Owed.concat (hbefore nofun) h
  | awaitingOutput => exact Reached.concat (hbefore nofun) h
  | awaitingExit => exact Reached.concat (hbefore nofun) h
  | _ => trivial

theorem Fits.reached {pid : Pid} (h : Fits s₀ hs s id request standing)
    (hrun : standing.runs? = some pid) : s₀.Reached hs s id := by
  cases standing with
  | awaitingOutput => exact h
  | awaitingExit => exact h
  | _ => cases hrun

theorem watched?_open (h : k.standing.watched? = some (ready, crashed)) : k.hasEnded = false := by
  cases hs : k.standing with
  | ended => rw [hs] at h; cases h
  | _ => exact Task.hasEnded_eq_false hs not_false

/-- What a task fits into does not depend on more than the waits of a startup, which tasks are
startups and what has ended. -/
theorem Fits.transfer (h : Fits s₀ hs s id request standing)
    (hwatching : ∀ ready crashed, request = .startup → standing.watched? = some (ready, crashed) →
      Watching s₀ hs s id ready crashed → Watching s₀ hs t id ready crashed ∧
        (s.Came ready crashed → t.Came ready crashed))
    (hknown : ∀ i, s.IsStartup i → t.IsStartup i) (hst : KeepsAnswers s t) :
    Fits s₀ hs t id request standing := by
  cases standing with
  | awaitingPhase => exact ⟨h.1, (hwatching _ _ h.1 rfl h.2).1⟩
  | phaseCame =>
    obtain ⟨hw, hc⟩ := hwatching _ _ h.1 rfl h.2.1
    exact ⟨h.1, hw, hc h.2.2⟩
  | awaitingStartup i => exact ⟨h.1, hknown i h.2⟩
  | startupCame => exact ⟨h.1, h.2.transfer hst⟩
  | ended => exact Owed.transfer h hst
  | awaitingOutput => exact Reached.transfer h hst
  | awaitingExit => exact Reached.transfer h hst
  | _ => trivial

theorem Watching.of_phases (h : Watching s₀ hs s id ready crashed)
    (hphases : t.server.supervisor.phases = s.server.supervisor.phases) :
    Watching s₀ hs t id ready crashed ∧ (s.Came ready crashed → t.Came ready crashed) := by
  refine ⟨⟨?_, ?_⟩, fun hc => ?_⟩
  · rw [hphases]
    exact h.watches
  · rw [hphases]
    exact h.died
  · rw [Came, hphases]
    exact hc

theorem IsStartup.turn (h : s.IsStartup i) (hk : s.task? id = some k)
    (htasks : t.tasks = (s.setStanding id standing).tasks) : t.IsStartup i := by
  obtain ⟨k', hk', hr⟩ := h
  by_cases hi : i = id
  · subst hi
    cases hk.symm.trans hk'
    exact ⟨_, task?_setStanding_self hk htasks, hr⟩
  · exact ⟨k', (task?_setStanding_of_ne htasks i hi).trans hk', hr⟩

theorem Apart.mem_queue_of_phaseEnded (h : Apart s t) (hi : .phaseEnded i ∈ t.queue) :
    .phaseEnded i ∈ s.queue := by
  obtain ⟨more, hq, hm⟩ := h.queue
  rw [hq] at hi
  exact (List.mem_append.mp hi).resolve_right fun hi => (hm _ hi).1 i rfl

namespace Concerted

/-- Something is about to happen. -/
theorem concat (h : Concerted s₀ hs s) (hnow : s₀.through hs = s) (x : Happening) :
    Concerted s₀ (hs ++ [x]) s where
  plain := h.plain
  sole := h.sole
  calm := h.calm
  fits id k hk := (h.fits id k hk).concat fun i hi => by
    refine (joined_concat.mp hi).imp_right ?_
    rintro ⟨k', hk', hs'⟩
    rw [hnow] at hk'
    cases hk.symm.trans hk'
    exact hs'
  roused := h.roused
  devoted id i hi := by
    rcases joined_concat.mp hi with hi | ⟨k, hk, hs'⟩
    · obtain ⟨k, hk, hq, hone⟩ := h.devoted id i hi
      refine ⟨k, hk, hq, fun j hj => hone j (hj.elim .inl fun hj => ?_)⟩
      rcases joined_concat.mp hj with hj | ⟨k', hk', hs'⟩
      · exact .inr hj
      · rw [hnow] at hk'
        cases hk.symm.trans hk'
        exact .inl hs'
    · rw [hnow] at hk
      refine ⟨k, hk, by rw [hs']; rintro ⟨⟩, fun j hj => ?_⟩
      rcases hj with hj | hj
      · cases hs'.symm.trans hj
        rfl
      · rcases joined_concat.mp hj with hj | ⟨k', hk', hs''⟩
        · obtain ⟨k', hk', -, hone⟩ := h.devoted id j hj
          cases hk.symm.trans hk'
          exact (hone i (.inl hs')).symm
        · rw [hnow] at hk'
          cases hk.symm.trans hk'
          cases hs'.symm.trans hs''
          rfl

/-- A task that has not begun has waited for no startup. -/
theorem reached_of_queued (h : Concerted s₀ hs s) (hk : s.task? id = some k)
    (hq : k.standing = .queued) : (∀ i, ¬ s₀.Joined hs id i) ∧ s₀.Reached hs s id := by
  have hno : ∀ i, ¬ s₀.Joined hs id i := by
    intro i hi
    obtain ⟨k', hk', hne, -⟩ := h.devoted id i hi
    cases hk.symm.trans hk'
    exact hne hq
  exact ⟨hno, fun i hi => absurd hi (hno i)⟩

/-- A task that awaits a state of the server is the startup under way. -/
theorem startup_of_watched (h : Concerted s₀ hs s) (hk : s.task? id = some k)
    (hw : k.standing.watched? = some (ready, crashed)) :
    k.request = .startup ∧ s.startup = some id := by
  have hfits := h.fits id k hk
  have hopen := watched?_open hw
  have hr : k.request = .startup := by
    cases hs : k.standing with
    | awaitingPhase => rw [hs] at hfits; exact hfits.1
    | phaseCame => rw [hs] at hfits; exact hfits.1
    | _ => rw [hs] at hw; cases hw
  exact ⟨hr, h.sole id k hk hr hopen⟩

/-- One task goes on or ends. If it is the startup its waits may change with it. -/
theorem turn (h : Concerted s₀ hs s) (hk : s.task? id = some k) (hopen : k.hasEnded = false)
    (htasks : t.tasks = (s.setStanding id standing).tasks) (hstartup : t.startup = s.startup)
    (hphases : t.server.supervisor.phases = s.server.supervisor.phases ∨
      k.request = .startup ∧ t.server.supervisor.phases.Calm)
    (hqueue : ∀ i, .phaseEnded i ∈ t.queue → .phaseEnded i ∈ s.queue)
    (hfits : Fits s₀ hs t id k.request standing) (hbegun : standing ≠ .queued)
    (hfirst : standing.Initial → k.standing = .queued) : Concerted s₀ hs t := by
  have hself := task?_setStanding_self hk htasks
  have hother := task?_setStanding_of_ne htasks
  -- whoever else watches the server would be the startup too
  have hwatching : ∀ i k' ready crashed, i ≠ id → s.task? i = some k' →
      k'.standing.watched? = some (ready, crashed) →
      t.server.supervisor.phases = s.server.supervisor.phases := by
    intro i k' ready crashed hi hk' hw
    rcases hphases with he | ⟨hr, -⟩
    · exact he
    · have hid := h.sole id k hk hr hopen
      rw [(h.startup_of_watched hk' hw).2] at hid
      exact absurd (Option.some.inj hid) hi
  refine ⟨fun i k' hk' => ?_, fun i k' hk' hr ho => ?_, ?_, fun i k' hk' => ?_, fun i hi => ?_,
    fun j i hj => ?_⟩
  · rcases task?_setStanding_cases htasks hk' with ⟨k₀, hk₀, rfl, rfl⟩ | ⟨-, hk'⟩
    · exact h.plain i k₀ hk₀
    · exact h.plain i k' hk'
  · rw [hstartup]
    rcases task?_setStanding_cases htasks hk' with ⟨k₀, hk₀, rfl, rfl⟩ | ⟨-, hk'⟩
    · cases hk.symm.trans hk₀
      exact h.sole i k hk hr hopen
    · exact h.sole i k' hk' hr ho
  · rcases hphases with he | ⟨-, hc⟩
    · rw [he]
      exact h.calm
    · exact hc
  · rcases task?_setStanding_cases htasks hk' with ⟨k₀, hk₀, rfl, rfl⟩ | ⟨hi, hk'⟩
    · cases hk.symm.trans hk₀
      exact hfits
    · refine (h.fits i k' hk').transfer (fun ready crashed _ hw hwatch => ?_)
        (fun _ hj => hj.turn hk htasks) (.of_turn hk hopen htasks)
      exact hwatch.of_phases (hwatching i k' ready crashed hi hk' hw)
  · obtain ⟨k', hk', hq, hcame⟩ := h.roused i (hqueue i hi)
    by_cases hne : i = id
    · subst hne
      cases hk.symm.trans hk'
      refine ⟨_, hself, hbegun, fun ready crashed hw => absurd (hfirst ?_) hq⟩
      rw [show standing = _ from hw]
      trivial
    · refine ⟨k', (hother i hne).trans hk', hq, fun ready crashed hw => ?_⟩
      have hcame := hcame ready crashed hw
      rw [Came, hwatching i k' ready crashed hne hk' (by rw [hw]; rfl)]
      exact hcame
  · obtain ⟨k', hk', hq, hone⟩ := h.devoted j i hj
    by_cases hne : j = id
    · subst hne
      cases hk.symm.trans hk'
      refine ⟨_, hself, hbegun, fun j hj' => hj'.elim (fun hs => absurd (hfirst ?_) hq)
        fun hj' => hone j (.inr hj')⟩
      rw [show standing = _ from hs]
      trivial
    · exact ⟨k', (hother j hne).trans hk', hq, hone⟩

/-- The server moves, and whoever waited for that is told. A crash is one that a startup under way
has seen. -/
theorem moves {crash : Prop} (h : Concerted s₀ hs s) (hst : Signals crash s t)
    (hdied : crash → ∀ i, t.Underway i → s₀.Died hs i) : Concerted s₀ hs t := by
  obtain ⟨ended, hmoves, htold⟩ := hst.moves
  have htask := task?_congr hst.tasks
  have hcame : ∀ {ready crashed}, s.Came ready crashed → t.Came ready crashed := fun hc =>
    hc.imp (hmoves.released _) (hmoves.released _)
  refine ⟨fun i k hk => h.plain i k ((htask i).symm.trans hk), fun i k hk hr ho => ?_,
    hmoves.calm h.calm, fun i k hk => ?_, fun i hi => ?_, fun j i hj => ?_⟩
  · rw [hst.startup]
    exact h.sole i k ((htask i).symm.trans hk) hr ho
  · have hk' := (htask i).symm.trans hk
    refine (h.fits i k hk').transfer (fun ready crashed hr hw hwatch => ⟨⟨?_, fun hc => ?_⟩, hcame⟩)
      ?_ (.of_tasks hst.tasks)
    · exact hmoves.watches h.calm _ _ hwatch.watches
    · rcases hmoves.spared h.calm _ _ hwatch.watches hc with hc | hx
      · exact hwatch.died hc
      · exact hdied hx i ⟨k, hk, hr, by rw [hw]; rfl⟩
    · rintro j ⟨k', hk', hr⟩
      exact ⟨k', (htask j).trans hk', hr⟩
  · rcases htold i hi with hold | ⟨k, ready, crashed, hk, hs, hw⟩
    · obtain ⟨k, hk, hq, hc⟩ := h.roused i hold
      exact ⟨k, (htask i).trans hk, hq, fun ready crashed hs => hcame (hc ready crashed hs)⟩
    · refine ⟨k, (htask i).trans hk, by rw [hs]; rintro ⟨⟩, fun ready' crashed' hs' => ?_⟩
      cases hs.symm.trans hs'
      exact hw.imp (hmoves.ended _) (hmoves.ended _)
  · obtain ⟨k, hk, hrest⟩ := h.devoted j i hj
    exact ⟨k, (htask j).trans hk, hrest⟩

theorem signals (h : Concerted s₀ hs s) (hst : Signals False s t) : Concerted s₀ hs t :=
  h.moves hst False.elim

/-- A task is added: some other request, or the startup after all others have ended. -/
theorem add (h : Concerted s₀ hs s) (htasks : t.tasks = s.tasks ++ [⟨request, .queued⟩])
    (hplain : request ≠ .waitUntilReady)
    (hstartup : t.startup = s.startup ∧ request ≠ .startup ∨
      t.startup = some s.tasks.length ∧ ∀ i k, s.task? i = some k → k.request = .startup →
        k.hasEnded = true)
    (hphases : t.server.supervisor.phases = s.server.supervisor.phases)
    (hqueue : ∀ i, .phaseEnded i ∈ t.queue → .phaseEnded i ∈ s.queue) : Concerted s₀ hs t := by
  have hold : ∀ i k, s.task? i = some k → t.task? i = some k := fun _ _ => task?_added_of htasks
  have hcases : ∀ i k, t.task? i = some k →
      s.task? i = some k ∨ i = s.tasks.length ∧ k = ⟨request, .queued⟩ :=
    fun _ _ => task?_added_cases htasks
  refine ⟨fun i k hk => ?_, fun i k hk hr ho => ?_, hphases ▸ h.calm, fun i k hk => ?_,
    fun i hi => ?_, fun j i hj => ?_⟩
  · rcases hcases i k hk with hk | ⟨-, rfl⟩
    · exact h.plain i k hk
    · exact hplain
  · rcases hstartup with ⟨hs, hne⟩ | ⟨hs, hover⟩
    · rcases hcases i k hk with hk | ⟨-, rfl⟩
      · exact hs.trans (h.sole i k hk hr ho)
      · exact absurd hr hne
    · rcases hcases i k hk with hk | ⟨rfl, -⟩
      · cases ho.symm.trans (hover i k hk hr)
      · exact hs
  · rcases hcases i k hk with hk | ⟨-, rfl⟩
    · refine (h.fits i k hk).transfer (fun _ _ _ _ hw => hw.of_phases hphases) ?_
        fun i k hk _ => hold i k hk
      rintro j ⟨k', hk', hr⟩
      exact ⟨k', hold j k' hk', hr⟩
    · trivial
  · obtain ⟨k, hk, hq, hc⟩ := h.roused i (hqueue i hi)
    refine ⟨k, hold i k hk, hq, fun ready crashed hs => ?_⟩
    rw [Came, hphases]
    exact hc ready crashed hs
  · obtain ⟨k, hk, hrest⟩ := h.devoted j i hj
    exact ⟨k, hold j k hk, hrest⟩

/-- One task goes on or ends, and the server stays as it is. -/
theorem advance (h : Concerted s₀ hs s) (ha : Apart s t) (hk : s.task? id = some k)
    (hopen : k.hasEnded = false) (htasks : t.tasks = (s.setStanding id standing).tasks)
    (hfits : Fits s₀ hs s id k.request standing) (hbegun : standing ≠ .queued)
    (hfirst : standing.Initial → k.standing = .queued) : Concerted s₀ hs t := by
  have hphases : t.server.supervisor.phases = s.server.supervisor.phases := by rw [ha.server]
  refine h.turn hk hopen htasks ha.startup (.inl hphases) (fun i => ha.mem_queue_of_phaseEnded) ?_
    hbegun hfirst
  exact hfits.transfer (fun _ _ _ _ hw => hw.of_phases hphases) (fun _ hi => hi.turn hk htasks)
    (.of_turn hk hopen htasks)

theorem endTask (h : Concerted s₀ hs s) (hk : s.task? id = some k) (hopen : k.hasEnded = false)
    (howed : s₀.Owed hs s id k.request answer) : Concerted s₀ hs (s.endTask id answer) :=
  h.advance (.endTask s id answer) hk hopen rfl howed (by rintro ⟨⟩) False.elim

/-- Nothing has happened that has to do with tasks or with the server. -/
theorem apart (h : Concerted s₀ hs s) (ha : Apart s t) (htasks : t.tasks = s.tasks) :
    Concerted s₀ hs t :=
  h.signals (.of_same htasks ha.startup (by rw [ha.server]) fun _ => ha.mem_queue_of_phaseEnded)

end Concerted

end Session

end VerifierHost
