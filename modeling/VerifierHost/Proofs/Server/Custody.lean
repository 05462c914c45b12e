import VerifierHost.Proofs.Server.Orders

/-! # Processes in custody

A supervisor holds a process exactly in its live states, so it never complains about itself. Of all
processes that it ever started each is held, has ended or was killed: what an order replaces is
killed then and there, and only the end of the process that is held is a crash. -/

namespace VerifierHost.Session

variable {s t : Session} {pid : Pid} {o : Order}

/-! ## Every history of orders -/

/-- What holds at the start and survives every order holds after all of them. -/
theorem obeying_induction {P : Session → Prop} (start : P s)
    (obey : ∀ s o, P s → P (s.obey o)) (orders : List Order) : P (s.obeying orders) := by
  induction orders generalizing s with
  | nil => exact start
  | cons o rest ih => exact ih (obey s o start)

theorem Fresh.manned (h : s.Fresh) : s.Manned := by
  obtain ⟨_, plans, _, _, _, _, name, _, _, rfl⟩ := h
  exact ⟨.start plans, rfl, rfl, fun _ hn => absurd hn List.not_mem_nil, .idle name, nofun⟩

theorem Manned.obeying (h : s.Manned) (orders : List Order) : (s.obeying orders).Manned :=
  obeying_induction h (fun _ o hs => (hs.obey o).manned) orders

/-- **A process is held exactly in the live states**, after whatever was ordered and whatever the
processes did; a start is one step, so that nothing comes between the stop before it and the process
that it adopts. So the supervisor never refuses one of its own moves: a start fails only when the
operating system does, and leaves no process then, stopped unless it had crashed before. -/
theorem held_iff_live (h : s.Fresh) (orders : List Order) :
    let t := s.obeying orders
    let m := t.server.supervisor
    (m.state = .running ∨ m.state = .ready ↔ m.held.isSome) ∧
    (m.state = .stopped ∨ m.state = .crashed ↔ m.held = none) ∧
    (t.stopSupervised.2 = .ok () ∧ t.markReady.2 = .ok () ∧ t.disposeSupervisor.2 = .ok ()) ∧
    (∀ pid, ∃ after, m.processEnded pid = .ok after) ∧
    (∀ lineUse lines line, ∃ after,
      (t.server.takeLines lineUse lines).1.takeLine lineUse line = .ok after) ∧
    ∀ call stdout stderr, ∃ u,
      match t.world.spawn.2 with
      | .ok pid =>
        t.superviseCall call stdout stderr = (u, .ok ()) ∧
          u.server.supervisor.state = .running ∧ u.server.supervisor.held = some pid
      | .error fault =>
        t.superviseCall call stdout stderr = (u, .error (.spawn call.command fault)) ∧
          u.server.supervisor.state = (if m.state = .crashed then .crashed else .stopped) ∧
          u.server.supervisor.held = none := by
  have hm := h.manned.obeying orders
  have hguard := hm.guarded.guard
  dsimp only
  refine ⟨?_, ?_, ⟨?_, ?_, ?_⟩, fun pid => ?_, fun lineUse lines line => ?_,
    fun call stdout stderr => ?_⟩
  · rw [hguard]
    cases (s.obeying orders).server.supervisor.state <;> decide
  · rw [← Option.not_isSome_iff_eq_none, hguard]
    cases (s.obeying orders).server.supervisor.state <;> decide
  · obtain ⟨u, he, -⟩ := hm.stopSupervised
    rw [he]
  · obtain ⟨m, ended, he, -⟩ := hm.guarded.setReady
    unfold markReady
    rw [he]
  · obtain ⟨u, he, -⟩ := hm.disposeSupervisor
    rw [he]
  · obtain ⟨m, ended, he, -⟩ := hm.guarded.processEnded pid
    exact ⟨_, he⟩
  · obtain ⟨server, ended, he, -⟩ := SharedServer.takeLine_guarded
      ((SharedServer.takeLines_guarded hm.guarded lineUse lines).guarded hm.guarded) lineUse line
    exact ⟨_, he⟩
  · have hstarted := hm.superviseCall call stdout stderr
    generalize (s.obeying orders).superviseCall call stdout stderr = result at hstarted ⊢
    cases hstarted with
    | refused hrefused _ _ hstate hheld =>
      rw [hrefused]
      exact ⟨_, rfl, hstate, hheld⟩
    | started hsuccess hpid _ _ hstate hheld =>
      rw [hsuccess]
      exact ⟨_, rfl, hstate, hheld⟩

/-! A server that is started and ends; the next start is refused. -/

def failing : Session :=
  start .empty [.started quietScript, .refused .noSuchFile] (.idle (.ofText "/w") .default true)
    true "server" ⟨"cargo", "rustc", "server"⟩ []

theorem fresh_failing : failing.Fresh := ⟨_, _, _, _, _, _, _, _, _, rfl⟩

def startQuietly : Order := .start ⟨"server", [], none, none⟩ .dropped .dropped

def crashing : List Order :=
  [startQuietly, .step, .step, .step, .setReady, .exit 1 (some 3) .zero, .step, .step, .step]

theorem held_iff_live_crashing : failing.Fresh ∧
    (failing.obeying crashing).server.supervisor.state = .crashed ∧
    (failing.obeying crashing).server.supervisor.held = none ∧
    ∃ u, (failing.obeying crashing).superviseCall ⟨"server", [], none, none⟩ .dropped .dropped =
        (u, .error (.spawn "server" .noSuchFile)) ∧
      u.server.supervisor.state = .crashed ∧ u.server.supervisor.held = none := by
  obtain ⟨hcrashed, hspawn⟩ :
      (failing.obeying crashing).server.supervisor.state = .crashed ∧
        (failing.obeying crashing).world.spawn.2 = .error .noSuchFile := by
    decide +kernel
  obtain ⟨-, hdead, -, -, -, hstarts⟩ := held_iff_live fresh_failing crashing
  obtain ⟨u, hu⟩ := hstarts ⟨"server", [], none, none⟩ .dropped .dropped
  rw [hspawn, if_pos hcrashed] at hu
  exact ⟨fresh_failing, hcrashed, hdead.mp (.inr hcrashed), u, hu⟩

/-! ## What becomes of each process -/

/-- The processes that were held when an order replaced them, in that order. -/
def takenDown (s : Session) : List Order → List Pid
  | [] => []
  | o :: rest => s.takenBy o ++ (s.obey o).takenDown rest

/-- The books are kept: what was killed is what was taken down, once each, and every process that
was started is held, has ended or was taken down. -/
structure Accounts (s : Session) (taken : List Pid) : Prop where
  killed : s.killed = taken
  once : taken.Nodup
  numbered : ∀ pid ∈ s.spawned, pid ≤ s.world.processes.length
  own : ∀ pid ∈ taken, pid ∈ s.spawned
  held : ∀ pid, s.server.supervisor.held = some pid → pid ∈ s.spawned ∧ pid ∉ taken
  fate : ∀ pid ∈ s.spawned,
    s.server.supervisor.held = some pid ∨ s.world.HasEnded pid ∨ pid ∈ taken

theorem Fresh.accounts (h : s.Fresh) : s.Accounts [] := by
  obtain ⟨_, _, _, _, _, _, _, _, _, rfl⟩ := h
  exact ⟨rfl, .nil, nofun, nofun, nofun, nofun⟩

theorem takenBy_of_spares (h : o.replaces = false) : s.takenBy o = [] := by
  rw [takenBy, h]
  rfl

theorem takenBy_of_replaces (h : o.replaces = true) :
    s.takenBy o = s.server.supervisor.held.toList := by
  rw [takenBy, h]
  rfl

/-- Only a new process comes to be held. -/
theorem Turn.held {spawned : List Pid} (h : Turn s t o spawned)
    (hheld : t.server.supervisor.held = some pid) :
    s.server.supervisor.held = some pid ∧ s.takenBy o = [] ∨
      pid ∈ spawned ∧ pid = s.world.processes.length + 1 := by
  cases h with
  | stays spares _ he => exact .inl ⟨he.symm.trans hheld, takenBy_of_spares spares⟩
  | readies spares _ _ he => exact .inl ⟨he.symm.trans hheld, takenBy_of_spares spares⟩
  | starts fresh _ he =>
    cases he.symm.trans hheld
    exact .inr ⟨List.mem_singleton.mpr rfl, fresh⟩
  | crashes _ _ _ _ he => cases he.symm.trans hheld
  | stops _ _ he => cases he.symm.trans hheld
  | fails _ he => cases he.symm.trans hheld

/-- A process that was held still is, or has ended, or is taken down. -/
theorem Turn.fate {spawned : List Pid} (h : Turn s t o spawned)
    (hheld : s.server.supervisor.held = some pid) :
    t.server.supervisor.held = some pid ∨ s.world.HasEnded pid ∨ pid ∈ s.takenBy o := by
  have htaken : o.replaces = true → pid ∈ s.takenBy o := fun ho => by
    rw [takenBy_of_replaces ho, hheld]
    exact List.mem_singleton.mpr rfl
  cases h with
  | stays _ _ he => exact .inl (he.trans hheld)
  | readies _ _ _ he => exact .inl (he.trans hheld)
  | crashes _ holds ended _ _ =>
    cases holds.symm.trans hheld
    exact .inr (.inl ended)
  | stops replaces _ _ =>
    refine .inr (.inr (htaken ?_))
    rcases replaces with rfl | rfl <;> rfl
  | starts _ _ _ => exact .inr (.inr (htaken rfl))
  | fails _ _ => exact .inr (.inr (htaken rfl))

/-- Every process that is started is the next one, and it is held at first. -/
theorem Turn.spawned {spawned : List Pid} (h : Turn s t o spawned) (hpid : pid ∈ spawned) :
    pid = s.world.processes.length + 1 ∧ t.server.supervisor.held = some pid := by
  cases h with
  | starts fresh _ held =>
    rw [List.mem_singleton.mp hpid]
    exact ⟨fresh, held⟩
  | _ => exact absurd hpid List.not_mem_nil

theorem mem_takenBy (h : pid ∈ s.takenBy o) : s.server.supervisor.held = some pid := by
  unfold takenBy at h
  split at h
  · exact Option.mem_toList.mp h
  · exact absurd h List.not_mem_nil

/-- An order keeps the books. -/
theorem Accounts.obey {taken : List Pid} (h : s.Accounts taken) (hm : s.Manned) (o : Order) :
    (s.obey o).Accounts (taken ++ s.takenBy o) := by
  obtain ⟨hmanned, spawned, hturn, htends⟩ := hm.obey o
  have hspawned : ∀ {q}, q ∈ (s.obey o).spawned ↔ q ∈ s.spawned ∨ q ∈ spawned := by
    intro q
    rw [htends.spawned, List.mem_append]
  refine ⟨?_, ?_, fun q hq => ?_, fun q hq => ?_, fun q hq => ?_, fun q hq => ?_⟩
  · rw [htends.killed, h.killed]
  · refine List.nodup_append.mpr ⟨h.once, ?_, ?_⟩
    · unfold takenBy
      split
      · cases s.server.supervisor.held <;> simp
      · exact .nil
    · rintro a ha _ hb rfl
      exact (h.held a (mem_takenBy hb)).2 ha
  · rcases hspawned.mp hq with hq | hq
    · exact Nat.le_trans (h.numbered q hq) htends.ages.length
    · exact hmanned.known q (hturn.spawned hq).2
  · rw [hspawned]
    rcases List.mem_append.mp hq with hq | hq
    · exact .inl (h.own q hq)
    · exact .inl (h.held q (mem_takenBy hq)).1
  · rw [hspawned]
    rcases hturn.held hq with ⟨hs, hnone⟩ | ⟨hnew, hnext⟩
    · rw [hnone, List.append_nil]
      exact ⟨.inl (h.held q hs).1, (h.held q hs).2⟩
    · refine ⟨.inr hnew, fun hq => ?_⟩
      have hold : q ∈ s.spawned := (List.mem_append.mp hq).elim (h.own q) fun hq =>
        (h.held q (mem_takenBy hq)).1
      exact absurd (hnext ▸ h.numbered q hold) (Nat.not_succ_le_self _)
  · rw [List.mem_append]
    rcases hspawned.mp hq with hq | hq
    · rcases h.fate q hq with hheld | hended | htaken
      · rcases hturn.fate hheld with hheld | hended | htaken
        · exact .inl hheld
        · exact .inr (.inl (htends.ages.ended hm.world q hended))
        · exact .inr (.inr (.inr htaken))
      · exact .inr (.inl (htends.ages.ended hm.world q hended))
      · exact .inr (.inr (.inl htaken))
    · exact .inl (hturn.spawned hq).2

theorem Accounts.obeying {taken : List Pid} (h : s.Accounts taken) (hm : s.Manned)
    (orders : List Order) : (s.obeying orders).Accounts (taken ++ s.takenDown orders) := by
  induction orders generalizing s taken with
  | nil => simpa [takenDown] using h
  | cons o rest ih =>
    rw [obeying_cons, takenDown, ← List.append_assoc]
    exact ih (h.obey hm o) (hm.obey o).manned

/-! ## Crashes -/

/-- The next step notices the end of the process that is held. -/
def Crashes (s : Session) (o : Order) : Prop :=
  ∃ pid rest, o = .step ∧ s.queue = .wake (.exit pid) :: rest ∧
    s.server.supervisor.held = some pid ∧ s.world.HasEnded pid

/-- A server crashes at the end of the process that it holds, and at nothing else. -/
theorem Manned.crashed_iff (h : s.Manned) (hs : s.server.supervisor.state ≠ .crashed) :
    (s.obey o).server.supervisor.state = .crashed ↔ s.Crashes o := by
  constructor
  · intro hcrashed
    obtain ⟨-, spawned, hturn, -⟩ := h.obey o
    cases hturn with
    | stays _ he _ => exact absurd (he.symm.trans hcrashed) hs
    | readies _ _ he _ => cases he.symm.trans hcrashed
    | crashes queue holds ended _ _ => exact ⟨_, _, rfl, queue, holds, ended⟩
    | stops _ he _ => cases he.symm.trans hcrashed
    | starts _ he _ => cases he.symm.trans hcrashed
    | fails he _ =>
      rw [if_neg hs] at he
      cases he.symm.trans hcrashed
  · rintro ⟨pid, rest, rfl, hq, hheld, hended⟩
    show s.step.server.supervisor.state = .crashed
    rw [step_cons hq]
    obtain ⟨-, ⟨hno, -⟩ | ⟨-, -, hstate, -⟩⟩ := (h.popped hq).awaitExit pid
    · exact absurd ⟨hheld, hended⟩ hno
    · exact hstate

/-- Who waits for the end of another process does nothing. -/
theorem Manned.step_stale {rest : List Notice} (h : s.Manned)
    (hq : s.queue = .wake (.exit pid) :: rest) (hheld : s.server.supervisor.held ≠ some pid) :
    s.step.server.supervisor = s.server.supervisor := by
  rw [step_cons hq]
  obtain ⟨-, ⟨-, hsame⟩ | ⟨⟨hholds, -⟩, -⟩⟩ := (h.popped hq).awaitExit pid
  · exact hsame
  · exact absurd hholds hheld

/-- A process that was let go is never held again. -/
theorem Manned.not_held_obeying (h : s.Manned) (hpid : pid ≤ s.world.processes.length)
    (hheld : s.server.supervisor.held ≠ some pid) (orders : List Order) :
    (s.obeying orders).server.supervisor.held ≠ some pid := by
  induction orders generalizing s with
  | nil => exact hheld
  | cons o rest ih =>
    obtain ⟨hmanned, spawned, hturn, htends⟩ := h.obey o
    refine ih hmanned (Nat.le_trans hpid htends.ages.length) fun hnew => ?_
    rcases hturn.held hnew with ⟨hold, -⟩ | ⟨-, hnext⟩
    · exact hheld hold
    · exact absurd (hnext ▸ hpid) (Nat.not_succ_le_self _)

/-- Without a start the server stays stopped. -/
theorem Manned.stopped_obeying (h : s.Manned) (hstate : s.server.supervisor.state = .stopped)
    {orders : List Order} (hstarts : ∀ o ∈ orders, o.isStart = false) :
    (s.obeying orders).server.supervisor.state = .stopped := by
  induction orders generalizing s with
  | nil => exact hstate
  | cons o rest ih =>
    obtain ⟨hmanned, spawned, hturn, -⟩ := h.obey o
    refine ih hmanned ?_ fun o ho => hstarts o (List.mem_cons_of_mem _ ho)
    have ho := hstarts o List.mem_cons_self
    cases hturn with
    | stays _ he _ => exact he.trans hstate
    | readies _ hlive _ _ =>
      rw [hstate] at hlive
      cases hlive
    | crashes _ holds _ _ _ =>
      have hguard := h.guarded.guard
      rw [holds, hstate] at hguard
      cases hguard
    | stops _ he _ => exact he
    | starts _ _ _ => cases ho
    | fails _ _ => cases ho

theorem Manned.stopped_obey (h : s.Manned) (ho : o = .stop ∨ o = .dispose) :
    (s.obey o).server.supervisor.state = .stopped := by
  rcases ho with rfl | rfl
  · obtain ⟨t, he, -, -, hstate, -⟩ := h.stopSupervised
    show s.stopSupervised.1.server.supervisor.state = .stopped
    rw [he]
    exact hstate
  · obtain ⟨t, he, -, -, hstate, -⟩ := h.disposeSupervisor
    show s.disposeSupervisor.1.server.supervisor.state = .stopped
    rw [he]
    exact hstate

/-- **No process is orphaned and no crash is stale**, after any orders; a start is one step, so that
no two of them overlap. Every process that the supervisor ever started is held, has ended or was
killed, and exactly those were killed, once each, that were held when a stop or a new start replaced
them. The server crashes at the end of the process that it holds and at nothing else: whatever a
process does that was let go changes nothing, and a server that was stopped stays so until it is
started. -/
theorem custody (h : s.Fresh) (orders : List Order) :
    let t := s.obeying orders
    (∀ pid ∈ t.spawned,
      t.server.supervisor.held = some pid ∨ t.world.HasEnded pid ∨ pid ∈ t.killed) ∧
    (t.killed = s.takenDown orders ∧ t.killed.Nodup) ∧
    (∀ o, t.server.supervisor.state ≠ .crashed →
      ((t.obey o).server.supervisor.state = .crashed ↔ t.Crashes o)) ∧
    (∀ pid ∈ t.spawned, t.server.supervisor.held ≠ some pid → ∀ more,
      let u := t.obeying more
      u.server.supervisor.held ≠ some pid ∧
        (∀ code time, (u.exit pid code time).server = u.server) ∧
        ∀ rest, u.queue = .wake (.exit pid) :: rest →
          u.step.server.supervisor = u.server.supervisor) ∧
    ∀ o, o = .stop ∨ o = .dispose → ∀ more : List Order, (∀ o ∈ more, o.isStart = false) →
      ((t.obey o).obeying more).server.supervisor.state = .stopped := by
  have hm := h.manned.obeying orders
  have haccounts := h.accounts.obeying h.manned orders
  rw [List.nil_append] at haccounts
  dsimp only
  refine ⟨fun pid hp => ?_, ⟨haccounts.killed, ?_⟩, fun o hs => hm.crashed_iff hs,
    fun pid hp hheld more => ?_, fun o ho more hmore => ?_⟩
  · rw [haccounts.killed]
    exact haccounts.fate pid hp
  · rw [haccounts.killed]
    exact haccounts.once
  · have hlater := hm.not_held_obeying (haccounts.numbered pid hp) hheld more
    exact ⟨hlater, fun _ _ => rfl, fun rest hq => (hm.obeying more).step_stale hq hlater⟩
  · exact (hm.obey o).manned.stopped_obeying (hm.stopped_obey ho) hmore

/-! A server that is started twice. The first process ends when it has been replaced, and the second
one is stopped. -/

def replacing : List Order :=
  [startQuietly, startQuietly, .exit 1 (some 0) .zero, .step, .step]

theorem custody_replacing : quiet.Fresh ∧
    (1 ∈ (quiet.obeying replacing).spawned ∧
      (quiet.obeying replacing).server.supervisor.held ≠ some 1 ∧
      ∃ rest, (quiet.obeying replacing).queue = .wake (.exit 1) :: rest) ∧
    (quiet.obeying replacing).killed = quiet.takenDown replacing ∧
    quiet.takenDown replacing = [1] ∧
    (quiet.obeying replacing).step.server.supervisor =
      (quiet.obeying replacing).server.supervisor ∧
    (((quiet.obeying replacing).obey .stop).obeying
      [.setReady, .exit 2 none .zero, .step, .step]).server.supervisor.state = .stopped := by
  obtain ⟨hspawned, hheld, hq, htaken⟩ : 1 ∈ (quiet.obeying replacing).spawned ∧
      (quiet.obeying replacing).server.supervisor.held ≠ some 1 ∧
      (quiet.obeying replacing).queue = .wake (.exit 1) :: (quiet.obeying replacing).queue.tail ∧
      quiet.takenDown replacing = [1] := by
    decide +kernel
  obtain ⟨-, ⟨hkilled, -⟩, -, hstale, hstopped⟩ := custody fresh_quiet replacing
  obtain ⟨-, -, hstep⟩ := hstale 1 hspawned hheld []
  exact ⟨fresh_quiet, ⟨hspawned, hheld, _, hq⟩, hkilled, htaken, hstep _ hq,
    hstopped .stop (.inl rfl) [.setReady, .exit 2 none .zero, .step, .step] (by decide)⟩

end VerifierHost.Session
