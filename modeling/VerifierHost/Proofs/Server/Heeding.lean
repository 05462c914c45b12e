import VerifierHost.Proofs.Server.Latecomers

/-! # Whom the server heeds

The readers of the server read the process that is held, and those that crashed before it was
started. What any of them tells counts alike: it sets the address, and it makes the server ready as
long as a process is held (`Session.Heeds`). -/

namespace VerifierHost

/-- Whoever is there after a reader was put back reads something else, or is that reader. -/
theorem Supervisor.mem_putReader_cases {s : Supervisor} {r q : StreamReader} {ended : Bool}
    (h : q ∈ (s.putReader r ended).readers) :
    q ∈ s.readers ∧ ¬ (q.pid = r.pid ∧ q.stream = r.stream) ∨ ended = false ∧ q = r := by
  have hother : ∀ x : StreamReader, (x.pid ≠ r.pid || x.stream ≠ r.stream) = true ↔
      ¬ (x.pid = r.pid ∧ x.stream = r.stream) := by
    intro x
    rw [Bool.or_eq_true, decide_eq_true_eq, decide_eq_true_eq, not_and_or]
  unfold putReader at h
  cases ended with
  | true =>
    obtain ⟨hq, ho⟩ := List.mem_filter.mp h
    exact .inl ⟨hq, (hother q).mp ho⟩
  | false =>
    obtain ⟨x, hx, rfl⟩ := List.mem_map.mp h
    dsimp only
    split
    next ho => exact .inl ⟨hx, (hother x).mp ho⟩
    next => exact .inr ⟨rfl, rfl⟩

namespace Session

variable {heard : List (Pid × Text)} {lost lost' : Pid → Prop} {s t : Session} {x : Eventuality}
  {r q : StreamReader} {pid : Pid}

/-! ## A reader goes on -/

namespace Reads

theorem hears_eq (h : Reads s x r t) : s.hears x =
    if r.stream = .stdout ∧ r.lineUse = .announced then (s.linesOf r).map (r.pid, ·) else [] := by
  rw [h.eventuality, hears, h.next]

/-- What a reader leaves behind. -/
theorem same (h : Reads s x r t) :
    let reading := r.read (s.world.collect r.pid r.stream).2.1 (s.world.collect r.pid r.stream).2.2
    let taken := (s.server.takeLines r.lineUse (s.linesOf r)).1
    t.world = (s.world.collect r.pid r.stream).1 ∧
      t.server = { taken with supervisor := taken.supervisor.putReader reading.1 reading.2.2 } := by
  obtain ⟨rest, rfl⟩ := h.result
  obtain ⟨hworld, hserver, -⟩ := Session.readServer_same { s with queue := rest } r
  exact ⟨hworld, hserver⟩

theorem held (h : Reads s x r t) :
    t.server.supervisor.held = s.server.supervisor.held := by
  obtain ⟨-, hserver⟩ := h.same
  rw [hserver]
  exact (SharedServer.takeLines_supervisor ..).1

/-- A reader stays that reads something else, or is the one that has gone on, unless it has come to
its end. -/
theorem mem_readers (h : Reads s x r t) (hq : q ∈ t.server.supervisor.readers) :
    let reading := r.read (s.world.collect r.pid r.stream).2.1 (s.world.collect r.pid r.stream).2.2
    q ∈ s.server.supervisor.readers ∧ ¬ (q.pid = r.pid ∧ q.stream = r.stream) ∨
      reading.2.2 = false ∧ q = reading.1 := by
  obtain ⟨-, hserver⟩ := h.same
  rw [hserver] at hq
  refine (Supervisor.mem_putReader_cases hq).imp_left fun hq => ?_
  rwa [(SharedServer.takeLines_supervisor ..).2] at hq

/-- A reader stays, or is the one that has gone on. -/
theorem reader_kept (h : Reads s x r t) (hq : q ∈ t.server.supervisor.readers) :
    q ∈ s.server.supervisor.readers ∨
      q.pid = r.pid ∧ q.stream = r.stream ∧ q.lineUse = r.lineUse := by
  rcases h.mem_readers hq with ⟨hq, -⟩ | ⟨-, rfl⟩
  · exact .inl hq
  · exact .inr ⟨rfl, rfl, rfl⟩

/-- Nothing is told, or the last that is told counts. -/
theorem told (h : Reads s x r t) (hg : s.server.supervisor.Guarded)
    (hdeaf : r.stream = .stderr → r.lineUse ≠ .announced) :
    t.server.supervisor.Guarded ∧
      (lastTold? (s.hears x) = none ∧
          t.server.supervisor.state = s.server.supervisor.state ∧
          t.server.announced = s.server.announced ∨
        ∃ digits, lastTold? (s.hears x) = some (r.pid, digits) ∧
          t.server.supervisor.state = (if s.server.supervisor.state.isLive then .ready
            else s.server.supervisor.state) ∧
          t.server.announced = some (localAddress digits)) := by
  obtain ⟨-, hserver⟩ := h.same
  rw [hserver]
  rcases SharedServer.takeLines_cases hg r.lineUse (s.linesOf r) with
    ⟨hsilent, he⟩ | ⟨huse, digits, hlast, hguarded, hstate, hannounced⟩
  · rw [he]
    refine ⟨⟨hg.states, hg.guard⟩, .inl ⟨?_, rfl, rfl⟩⟩
    rw [h.hears_eq]
    split
    next hheard => rw [lastTold?_map, hsilent hheard.2]; rfl
    next => rfl
  · have hstream : r.stream = .stdout := by
      cases hs : r.stream with
      | stdout => rfl
      | stderr => exact absurd huse (hdeaf hs)
    refine ⟨⟨hguarded.states, hguarded.guard⟩, .inr ⟨digits, ?_, hstate, hannounced⟩⟩
    rw [h.hears_eq, if_pos ⟨hstream, huse⟩, lastTold?_map, hlast]
    rfl

/-- Only the process is heard that is read. -/
theorem speaker (h : Reads s x r t) {e : Pid × Text} (he : e ∈ s.hears x) : e.1 = r.pid := by
  rw [h.hears_eq] at he
  split at he
  next =>
    obtain ⟨line, -, rfl⟩ := List.mem_map.mp he
    rfl
  next => exact absurd he List.not_mem_nil

end Reads

/-! ## Who is read and heard -/

/-- After it has heard some lines the server is ready if it holds a process and one of the lines
announces an address; the last one that does has told the address. All that it reads and has heard
are the process that is held and some that are lost. -/
structure Heeds (heard : List (Pid × Text)) (lost : Pid → Prop) (s : Session) : Prop where
  guarded : s.server.supervisor.Guarded
  known : ∀ pid, s.server.supervisor.held = some pid → pid ≤ s.world.processes.length
  deaf : ∀ r ∈ s.server.supervisor.readers, r.stream = .stderr → r.lineUse ≠ .announced
  readers : ∀ r ∈ s.server.supervisor.readers,
    s.server.supervisor.held = some r.pid ∨ lost r.pid
  speakers : ∀ e ∈ heard, s.server.supervisor.held = some e.1 ∨ lost e.1
  ready : s.server.supervisor.state = .ready ↔
    s.server.supervisor.held.isSome = true ∧ (lastTold? heard).isSome = true
  told : ∀ pid digits, s.server.supervisor.state = .ready →
    lastTold? heard = some (pid, digits) → s.server.announced = some (localAddress digits)

namespace Heeds

theorem address (h : Heeds heard lost s) : s.server.address =
    if s.server.supervisor.held.isSome then (lastTold? heard).map (localAddress ·.2) else none := by
  unfold SharedServer.address
  by_cases hready : s.server.supervisor.state = .ready
  · obtain ⟨hheld, htold⟩ := h.ready.mp hready
    obtain ⟨⟨pid, digits⟩, hlast⟩ := Option.isSome_iff_exists.mp htold
    rw [if_pos hready, if_pos hheld, h.told pid digits hready hlast, hlast]
    rfl
  · rw [if_neg hready]
    split
    next hheld =>
      cases htold : lastTold? heard with
      | none => rfl
      | some told => exact absurd (h.ready.mpr ⟨hheld, by rw [htold]; rfl⟩) hready
    next => rfl

theorem of_fresh (h : s.Fresh) : Heeds [] lost s := by
  obtain ⟨_, _, _, _, _, _, _, _, _, rfl⟩ := h
  refine ⟨.idle _, nofun, nofun, nofun, nofun, ?_, nofun⟩
  exact iff_of_false (fun h => nomatch h) fun h => Bool.false_ne_true h.1

/-- Without a process the server is not ready, whatever it has heard. -/
theorem of_idle (guarded : t.server.supervisor.Guarded)
    (hnone : t.server.supervisor.held = none)
    (deaf : ∀ r ∈ t.server.supervisor.readers, r.stream = .stderr → r.lineUse ≠ .announced)
    (readers : ∀ r ∈ t.server.supervisor.readers, lost r.pid) (speakers : ∀ e ∈ heard, lost e.1) :
    Heeds heard lost t := by
  have hunready := guarded.state_ne_ready hnone
  refine ⟨guarded, fun pid hp => ?_, deaf, fun r hr => .inr (readers r hr),
    fun e he => .inr (speakers e he), ?_, fun _ _ hready => absurd hready hunready⟩
  · cases hnone.symm.trans hp
  · rw [hnone]
    exact iff_of_false hunready fun h => Bool.false_ne_true h.1

theorem reads (h : Heeds heard lost s) (hr : Reads s x r t) :
    Heeds (heard ++ s.hears x) lost t := by
  obtain ⟨hworld, -⟩ := hr.same
  have hreader := h.readers r hr.reader
  obtain ⟨hguarded, htold⟩ := hr.told h.guarded (h.deaf r hr.reader)
  refine ⟨hguarded, ?_, fun q hq hstream => ?_, fun q hq => ?_, fun e he => ?_, ?_, ?_⟩
  · rw [hr.held, hworld, (World.touches_collect ..).length]
    exact h.known
  · rcases hr.reader_kept hq with hq | ⟨-, hs, hu⟩
    · exact h.deaf q hq hstream
    · rw [hu]
      exact h.deaf r hr.reader (hs ▸ hstream)
  · rw [hr.held]
    rcases hr.reader_kept hq with hq | ⟨hp, -⟩
    · exact h.readers q hq
    · rwa [hp]
  · rw [hr.held]
    rcases List.mem_append.mp he with he | he
    · exact h.speakers e he
    · rwa [hr.speaker he]
  · rw [hr.held, lastTold?_append]
    rcases htold with ⟨hnone, hstate, -⟩ | ⟨digits, hsome, hstate, -⟩
    · rw [hstate, hnone, Option.none_or]
      exact h.ready
    · rw [hstate, hsome, h.guarded.guard]
      cases hlive : s.server.supervisor.state.isLive with
      | true => simp
      | false =>
        have hunready := h.guarded.state_ne_ready (h.guarded.held_eq_none hlive)
        simpa using hunready
  · intro pid digits hready hlast
    rw [lastTold?_append] at hlast
    rcases htold with ⟨hnone, hstate, hannounced⟩ | ⟨digits', hsome, -, hannounced⟩
    · rw [hnone, Option.none_or] at hlast
      rw [hannounced]
      exact h.told pid digits (hstate.symm.trans hready) hlast
    · rw [hsome, Option.some_or] at hlast
      cases hlast
      exact hannounced

theorem mono (h : Heeds heard lost s) (hlost : ∀ pid, lost pid → lost' pid) :
    Heeds heard lost' s :=
  { h with
    readers := fun r hr => (h.readers r hr).imp_right (hlost _)
    speakers := fun e he => (h.speakers e he).imp_right (hlost _) }

theorem rests (h : Heeds heard lost s)
    (same : Supervisor.Same s.server.supervisor t.server.supervisor)
    (announced : t.server.announced = s.server.announced)
    (hlength : s.world.processes.length ≤ t.world.processes.length) : Heeds heard lost t := by
  refine ⟨h.guarded.same same, ?_, ?_, ?_, ?_, ?_, ?_⟩
  · rw [same.held]
    exact fun pid hp => Nat.le_trans (h.known pid hp) hlength
  · rw [same.readers]
    exact h.deaf
  · rw [same.held, same.readers]
    exact h.readers
  · rw [same.held]
    exact h.speakers
  · rw [same.held, same.state]
    exact h.ready
  · rw [same.state, announced]
    exact h.told

/-- Who is read besides the process that is held is lost. -/
theorem bystander (h : Heeds heard lost s) (hr : r ∈ s.server.supervisor.bystanders) :
    (r.stream = .stderr → r.lineUse ≠ .announced) ∧ lost r.pid := by
  obtain ⟨hr, hne⟩ := Supervisor.mem_bystanders.mp hr
  exact ⟨h.deaf r hr, (h.readers r hr).resolve_left hne⟩

/-- Of a process that has just been started nothing was heard. -/
theorem engages (h : Heeds heard lost s) (hn : Engages pid s t) :
    t.server.supervisor.held ≠ s.server.supervisor.held ∧ Heeds [] lost t := by
  obtain ⟨stdout, stderr, hquiet, hreaders⟩ := hn.readers
  have hread : ∀ r ∈ t.server.supervisor.readers, (r.stream = .stderr → r.lineUse ≠ .announced) ∧
      (t.server.supervisor.held = some r.pid ∨ lost r.pid) := by
    intro r hr
    rw [hreaders] at hr
    rcases List.mem_append.mp hr with hr | hr
    · exact (h.bystander hr).imp_right .inr
    · simp only [List.mem_cons, List.not_mem_nil, or_false] at hr
      rcases hr with rfl | rfl
      · exact ⟨nofun, .inl hn.held⟩
      · exact ⟨fun _ => hquiet, .inl hn.held⟩
  refine ⟨fun he => ?_, hn.guarded, fun q hq => ?_, fun r hr => (hread r hr).1,
    fun r hr => (hread r hr).2, nofun, ?_, nofun⟩
  · exact Nat.not_le_of_lt hn.fresh (h.known pid (he.symm.trans hn.held))
  · cases hn.held.symm.trans hq
    exact hn.known
  · rw [hn.running]
    exact iff_of_false (by decide) fun h => Bool.false_ne_true h.2

/-- What becomes of the server when nobody reads: what was heard counts as long as the same process
is held. -/
theorem sways (h : Heeds heard lost s) (hw : Sways s t)
    (hlength : s.world.processes.length ≤ t.world.processes.length)
    (hlost : ∀ pid, lost pid → lost' pid)
    (hcrash : ∀ pid, s.server.supervisor.held = some pid →
      t.server.supervisor.state = .crashed → lost' pid) :
    Heeds (if t.server.supervisor.held = s.server.supervisor.held then heard else []) lost' t := by
  cases hw with
  | rests same announced =>
    rw [if_pos same.held]
    exact (h.rests same announced hlength).mono hlost
  | @crashes pid held guarded state gone readers =>
    rw [gone, held, if_neg nofun]
    refine of_idle guarded gone (readers ▸ h.deaf) (readers ▸ fun r hr => ?_) nofun
    exact (h.readers r hr).elim (fun hheld => hcrash _ hheld state) (hlost _)
  | releases hr =>
    refine of_idle hr.guarded hr.held (hr.readers ▸ fun r hb => (h.bystander hb).1)
      (hr.readers ▸ fun r hb => hlost _ (h.bystander hb).2) fun e he => ?_
    rw [hr.held] at he
    split at he
    next hnone => exact hlost _ ((h.speakers e he).resolve_left (by rw [← hnone]; nofun))
    next => exact absurd he List.not_mem_nil
  | engages hn =>
    obtain ⟨hnew, hheeds⟩ := h.engages hn
    rw [if_neg hnew]
    exact hheeds.mono hlost

/-- **Whatever occurs**, the server heeds what it has heard since its process was started. -/
theorem face (h : Heeds heard lost s) (x : Eventuality)
    (hlost : ∀ pid, lost pid → lost' pid)
    (hcrash : ∀ pid, s.server.supervisor.held = some pid →
      (s.face x).server.supervisor.state = .crashed → lost' pid) :
    Heeds (if (s.face x).server.supervisor.held = s.server.supervisor.held then heard ++ s.hears x
      else []) lost' (s.face x) := by
  rcases face_cases h.guarded x with ⟨r, hr⟩ | hf
  · rw [if_pos hr.held]
    exact (h.reads hr).mono hlost
  · rw [hf.silent, List.append_nil]
    exact h.sways hf.sways hf.outlasts.length hlost hcrash

end Heeds

/-- After any eventualities the server heeds the process that is held, and those that have crashed. -/
theorem Fresh.heeds (h : s.Fresh) (xs : List Eventuality) :
    Heeds (s.heardSince xs) (s.CrashedWith · xs) (s.facing xs) := by
  induction xs using List.reverseRecOn with
  | nil => exact .of_fresh h
  | append_singleton xs x ih =>
    rw [heardSince_concat, facing_concat]
    exact ih.face x (fun pid hp => crashedWith_concat.mpr (.inl hp)) fun pid hheld hstate =>
      crashedWith_concat.mpr (.inr ⟨hheld, hstate⟩)

end Session

end VerifierHost
