import VerifierHost.Proofs.Server.Attending
import VerifierHost.Proofs.Session.Superseded

/-! # What is heard of the server's process

What the reader of the held process has read, together with what its stream still holds, is all that
the process has printed; and as long as the server is ready its address stands in the last line read
that announces one (`Session.Hears`). Every start forgets what was heard before, and nobody but that
reader takes in announcements. -/

namespace VerifierHost

theorem Supervisor.Kept.eq_of_stream {s : Supervisor} (h : s.Kept) {r q : StreamReader}
    (hr : r ∈ s.readers) (hq : q ∈ s.readers) (he : r.stream = q.stream) : r = q :=
  List.inj_on_of_nodup_map h.sole hr hq he

namespace Session

/-- What was heard of the process that is held: of all that it has printed these chunks were read,
by a reader that has come to the end of the stream or reads on. -/
structure Hearing (printed : List Text.Bytes) (s : Session) (pid : Pid) (seen : List Text.Bytes)
    (closed : Bool) (lineUse : LineUse) : Prop where
  split : printed = seen ++ s.world.unread pid .stdout
  reader : closed = false → seen.any List.isEmpty = false →
    ((StreamReader.start pid .stdout lineUse).read seen false).1 ∈ s.server.supervisor.readers
  finished : (closed || seen.any List.isEmpty) = true →
    ∀ r ∈ s.server.supervisor.readers, r.stream ≠ .stdout
  mute : closed = true →
    s.world.canWrite pid .stdout = false ∧ s.world.unread pid .stdout = []
  told : s.server.supervisor.state = .ready → ∃ digits,
    lastAnnounced? (linesHeard seen closed) = some digits ∧
      s.server.announced = some (localAddress digits)
  unheard : lineUse ≠ .announced → s.server.supervisor.state ≠ .ready

/-- What was heard is in order, and nobody but the reader of the output may hear of an address. -/
structure Hears (printed : Pid → List Text.Bytes) (s : Session) : Prop where
  deaf : ∀ r ∈ s.server.supervisor.readers, r.stream = .stderr → r.lineUse ≠ .announced
  heard : ∀ pid, s.server.supervisor.held = some pid →
    ∃ seen closed lineUse, Hearing (printed pid) s pid seen closed lineUse

variable {printed printed' : Pid → List Text.Bytes} {s t : Session} {n : Notice} {ns : List Notice}
  {pid : Pid}

/-- As long as a reader of the output is there its stream has not ended, and it is the one that has
read what was heard. -/
theorem Hearing.reader_eq {r : StreamReader} {chunks seen : List Text.Bytes} {closed : Bool}
    {lineUse : LineUse} (h : Hearing chunks s r.pid seen closed lineUse)
    (hkept : s.server.supervisor.Kept) (hr : r ∈ s.server.supervisor.readers)
    (hstream : r.stream = .stdout) : closed = false ∧ seen.any List.isEmpty = false ∧
      r = ((StreamReader.start r.pid .stdout lineUse).read seen false).1 := by
  have hgoes : (closed || seen.any List.isEmpty) = false := by
    by_contra hover
    exact h.finished ((Bool.not_eq_false _).mp hover) r hr hstream
  obtain ⟨hclosed, hopen⟩ := Bool.or_eq_false_iff.mp hgoes
  exact ⟨hclosed, hopen, hkept.eq_of_stream hr (h.reader hclosed hopen) hstream⟩

/-- The address stands in the last announcing line also after more lines were taken in. -/
theorem Hearing.takeLines {chunks seen : List Text.Bytes} {lineUse : LineUse}
    (h : Hearing chunks s pid seen false lineUse) (hkept : s.server.supervisor.Kept)
    (lines : List Text) :
    let t := (s.server.takeLines lineUse lines).1
    (t.supervisor.state = .ready → ∃ digits,
      lastAnnounced? (linesHeard seen false ++ lines) = some digits ∧
        t.announced = some (localAddress digits)) ∧
    (lineUse ≠ .announced → t.supervisor.state ≠ .ready) := by
  by_cases hu : lineUse = .announced
  · refine ⟨fun hready => ?_, fun hno => absurd hu hno⟩
    subst hu
    rw [lastAnnounced?_append]
    cases hl : lastAnnounced? lines with
    | none =>
      rw [SharedServer.takeLines_silent hl] at hready ⊢
      obtain ⟨digits, hd, hannounced⟩ := h.told hready
      exact ⟨digits, by rw [hd]; rfl, hannounced⟩
    | some digits =>
      obtain ⟨-, -, -, -, -, hannounced⟩ := SharedServer.takeLines_announced hkept.guarded hl
      exact ⟨digits, rfl, hannounced⟩
  · rw [SharedServer.takeLines_idle hu]
    exact ⟨fun hready => absurd hready (h.unheard hu), h.unheard⟩

namespace Hears

theorem congr_printed (h : Hears printed s)
    (he : ∀ pid, s.server.supervisor.held = some pid → printed' pid = printed pid) :
    Hears printed' s :=
  ⟨h.deaf, fun pid hp => he pid hp ▸ h.heard pid hp⟩

/-- Nothing has happened to the server, or nothing that can be heard. -/
theorem same (h : Hears printed s)
    (hsupervisor : Supervisor.Same s.server.supervisor t.server.supervisor)
    (hannounced : t.server.announced = s.server.announced)
    (hunread : ∀ pid, s.server.supervisor.held = some pid →
      t.world.unread pid .stdout = s.world.unread pid .stdout)
    (hmute : ∀ pid, s.server.supervisor.held = some pid →
      s.world.canWrite pid .stdout = false → t.world.canWrite pid .stdout = false) :
    Hears printed t := by
  refine ⟨fun r hr => h.deaf r (hsupervisor.readers ▸ hr), fun pid hp => ?_⟩
  rw [hsupervisor.held] at hp
  obtain ⟨seen, closed, lineUse, hh⟩ := h.heard pid hp
  refine ⟨seen, closed, lineUse, ?_, ?_, ?_, ?_, ?_, ?_⟩
  · rw [hunread pid hp]
    exact hh.split
  · rw [hsupervisor.readers]
    exact hh.reader
  · rw [hsupervisor.readers]
    exact hh.finished
  · intro hc
    exact ⟨hmute pid hp (hh.mute hc).1, (hunread pid hp).trans (hh.mute hc).2⟩
  · rw [hsupervisor.state, hannounced]
    exact hh.told
  · rw [hsupervisor.state]
    exact hh.unheard

theorem leaves (h : Hears printed s) (hl : Leaves s t) : Hears printed t :=
  h.same hl.supervisor hl.announced
    (fun pid hp => World.unread_congr (hl.served pid (.inl hp)) _)
    fun pid hp hm => (World.canWrite_congr (hl.served pid (.inl hp)) _).trans hm

theorem awaits {w : World} (h : Hears printed s) (alive : s.world.awaitExit pid = (w, none)) :
    Hears printed { s with world := w } := by
  have hw : w = (s.world.awaitExit pid).1 := by rw [alive]
  rw [hw]
  exact h.same (.refl _) rfl (fun _ _ => World.unread_awaitExit)
    fun _ _ hm => World.canWrite_awaitExit.trans hm

/-- Without a process nothing is to be heard. -/
theorem of_idle (hkept : s.server.supervisor.Kept) (hheld : s.server.supervisor.held = none) :
    Hears printed s := by
  refine ⟨fun r hr => ?_, fun pid hp => ?_⟩
  · rw [hkept.readers_eq_nil hheld] at hr
    exact absurd hr List.not_mem_nil
  · cases hheld.symm.trans hp

/-- Nothing was heard yet of a process that has just been started. -/
theorem adopts {stdout stderr : LineUse} (hquiet : stderr ≠ .announced)
    (ha : Adopts pid stdout stderr s t)
    (hp : printed pid = t.world.unread pid .stdout) : Hears printed t := by
  refine ⟨?_, fun q hq => ?_⟩
  · intro r hr hstream
    rw [ha.readers] at hr
    rcases List.mem_cons.mp hr with rfl | hr
    · cases hstream
    · rw [List.mem_singleton.mp hr]
      exact hquiet
  · cases ha.held.symm.trans hq
    have hready : t.server.supervisor.state ≠ .ready := by
      rw [ha.running]
      decide
    refine ⟨[], false, stdout, hp, fun _ _ => ?_, ?_, ?_, fun hr => absurd hr hready,
      fun _ => hready⟩
    · rw [ha.readers]
      exact List.mem_cons_self
    · rintro ⟨⟩
    · rintro ⟨⟩

/-! ## Reading -/

/-- The reader of the other stream tells nothing. -/
theorem reads_stderr {r : StreamReader} (h : Hears printed s) (hkept : s.server.supervisor.Kept)
    (hr : r ∈ s.server.supervisor.readers) (hstream : r.stream = .stderr) :
    Hears printed (s.readServer r) := by
  obtain ⟨hworld, hserver, -⟩ := s.readServer_same r
  have hmem := mem_readers_readServer hkept hr
  obtain ⟨-, hstream', huse⟩ := r.read_fields (s.world.collect r.pid r.stream).2.1
    (s.world.collect r.pid r.stream).2.2
  rw [SharedServer.takeLines_idle (h.deaf r hr hstream)] at hserver
  generalize r.read (s.world.collect r.pid r.stream).2.1
    (s.world.collect r.pid r.stream).2.2 = reading at hserver hmem hstream' huse
  have hout : Stream.stdout ≠ r.stream := by
    rw [hstream]
    decide
  refine ⟨fun q hq hq' => ?_, fun pid hp => ?_⟩
  · rcases (hmem q).mp hq with ⟨hq, -⟩ | ⟨-, rfl⟩
    · exact h.deaf q hq hq'
    · rw [huse]
      exact h.deaf r hr hstream
  · rw [hserver] at hp
    obtain ⟨seen, closed, lineUse, hh⟩ := h.heard pid hp
    have hunread : (s.readServer r).world.unread pid .stdout = s.world.unread pid .stdout := by
      rw [hworld]
      exact World.unread_collect_of_ne hout
    refine ⟨seen, closed, lineUse, ?_, ?_, ?_, ?_, ?_, ?_⟩
    · rw [hunread]
      exact hh.split
    · intro hc hopen
      exact (hmem _).mpr (.inl ⟨hh.reader hc hopen, hout⟩)
    · intro hover q hq
      rcases (hmem q).mp hq with ⟨hq, -⟩ | ⟨-, rfl⟩
      · exact hh.finished hover q hq
      · rw [hstream', hstream]
        decide
    · intro hc
      rw [hunread, hworld, World.canWrite_collect]
      exact hh.mute hc
    · rw [hserver]
      exact hh.told
    · rw [hserver]
      exact hh.unheard

/-- The reader of the output hears the rest of what was printed. -/
theorem reads_stdout {r : StreamReader} (h : Hears printed s) (hw : s.world.Sane)
    (hkept : s.server.supervisor.Kept) (hr : r ∈ s.server.supervisor.readers)
    (hstream : r.stream = .stdout) : Hears printed (s.readServer r) := by
  obtain ⟨hworld, hserver, -⟩ := s.readServer_same r
  have hmem := mem_readers_readServer hkept hr
  have hheld := hkept.readers r hr
  obtain ⟨seen, closed, lineUse, hh⟩ := h.heard r.pid hheld
  obtain ⟨rfl, hopen, hreader⟩ := hh.reader_eq hkept hr hstream
  have huse : r.lineUse = lineUse := by rw [hreader]; rfl
  have hchunks : (s.world.collect r.pid r.stream).2.1 = s.world.unread r.pid .stdout := by
    rw [World.collect_chunks, hstream]
  have hunread : (s.readServer r).world.unread r.pid .stdout = [] := by
    rw [hworld, hstream]
    exact World.unread_collect_self ..
  rw [hchunks, huse] at hserver
  rw [hchunks] at hmem
  generalize hcollected : (s.world.collect r.pid r.stream).2.2 = closed' at hserver hmem
  obtain ⟨hlast, hheard⟩ := read_start_append r.pid .stdout lineUse hopen
    (s.world.unread r.pid .stdout) closed'
  rw [← hreader] at hlast hheard
  obtain ⟨-, hstream', -⟩ := r.read_fields (s.world.unread r.pid .stdout) closed'
  have hended := r.read_ended (s.world.unread r.pid .stdout) closed'
  generalize r.read (s.world.unread r.pid .stdout) closed' = reading
    at hserver hmem hlast hheard hstream' hended
  have hany : (closed' || (seen ++ s.world.unread r.pid .stdout).any List.isEmpty) =
      reading.2.2 := by
    rw [hended, List.any_append, hopen, Bool.false_or]
  obtain ⟨htold, hunheard⟩ := hh.takeLines hkept reading.2.1
  obtain ⟨hheld', -⟩ := s.server.takeLines_supervisor lineUse reading.2.1
  refine ⟨fun q hq hq' => ?_, fun pid hp => ?_⟩
  · rcases (hmem q).mp hq with ⟨hq, -⟩ | ⟨-, rfl⟩
    · exact h.deaf q hq hq'
    · rw [hstream', hstream] at hq'
      cases hq'
  rw [hserver] at hp
  cases (hheld.symm.trans (hheld'.symm.trans hp))
  refine ⟨seen ++ s.world.unread r.pid .stdout, closed', lineUse, ?_, ?_, ?_, ?_, ?_, ?_⟩
  · rw [hunread, List.append_nil]
    exact hh.split
  · intro hc hfull
    subst hc
    rw [hlast]
    exact (hmem _).mpr (.inr ⟨by rw [← hany, hfull]; rfl, rfl⟩)
  · intro hover q hq
    rcases (hmem q).mp hq with ⟨-, ho⟩ | ⟨hgoes, -⟩
    · rwa [hstream] at ho
    · rw [← hany, hover] at hgoes
      cases hgoes
  · intro hc
    refine ⟨?_, hunread⟩
    rw [hworld, World.canWrite_collect]
    rw [hstream] at hcollected
    exact World.canWrite_of_closed hw (hcollected.trans hc)
  · intro hready
    rw [hserver] at hready ⊢
    rw [hheard]
    exact htold hready
  · intro hu
    rw [hserver]
    exact hunheard hu

theorem reads {r : StreamReader} (h : Hears printed s) (hw : s.world.Sane)
    (hkept : s.server.supervisor.Kept) (hr : r ∈ s.server.supervisor.readers) :
    Hears printed (s.readServer r) := by
  cases hstream : r.stream with
  | stdout => exact h.reads_stdout hw hkept hr hstream
  | stderr => exact h.reads_stderr hkept hr hstream

end Hears

/-! ## What is printed -/

theorem length_undergo (h : Steady s) (x : Happening) :
    s.world.processes.length ≤ (s.undergo x).world.processes.length := by
  cases x with
  | act a => exact (act_later h.sound a).length
  | stop => exact (stopServer_aside h.sound h.startup).length

/-- A process has the numbers of those that were started. -/
theorem process?_eq_none (h : Steady s) (hlt : s.world.processes.length < pid) :
    s.world.process? pid = none := by
  cases hp : s.world.process? pid with
  | none => rfl
  | some p => exact absurd (h.sound.runners.sane.le_of_process? hp) (Nat.not_le_of_lt hlt)

theorem prints_of_none {x : Happening} (h : s.world.process? pid = none) :
    s.prints pid x = (s.undergo x).world.unread pid .stdout := by
  unfold prints
  rw [h]
  rfl

/-- A process that was there prints nothing but what it writes. -/
theorem prints_of_some {x : Happening} {p : Process}
    (hx : ∀ p stream chunk, x ≠ .act (.feed p stream chunk)) (hp : s.world.process? pid = some p) :
    s.prints pid x = [] := by
  unfold prints
  rw [hp]
  cases x with
  | stop => rfl
  | act a =>
    cases a with
    | feed p stream chunk => exact absurd rfl (hx p stream chunk)
    | _ => rfl

/-- A process that goes on as it was has printed nothing but what it writes. -/
theorem prints_eq_nil {x : Happening} (hx : ∀ p stream chunk, x ≠ .act (.feed p stream chunk))
    (h : ((s.undergo x).world.process? pid).isSome = (s.world.process? pid).isSome) :
    s.prints pid x = [] := by
  cases hp : s.world.process? pid with
  | none =>
    rw [hp] at h
    rw [prints_of_none hp]
    exact World.unread_of_none (by simpa using h) _
  | some p => exact prints_of_some hx hp

theorem prints_feed (s : Session) (pid p : Pid) (stream : Stream) (chunk : Text.Bytes) :
    s.prints pid (.act (.feed p stream chunk)) =
      if p = pid ∧ stream = .stdout ∧ s.world.canWrite pid .stdout then [chunk] else [] := by
  cases hp : s.world.process? pid with
  | none =>
    have hno : s.world.canWrite pid .stdout = false := by rw [World.canWrite, hp]; rfl
    have hunread : (s.undergo (.act (.feed p stream chunk))).world.unread pid .stdout = _ :=
      s.world.unread_feed p stream chunk pid .stdout
    rw [prints_of_none hp, hunread, World.unread_of_none hp]
    rfl
  | some q =>
    unfold prints
    rw [hp, Option.isNone_some, if_neg Bool.false_ne_true]
    cases stream with
    | stdout => simp
    | stderr => simp

/-! ## Whatever happens -/

/-- A session that is steady hears all that is printed. -/
structure Listens (printed : Pid → List Text.Bytes) (s : Session) : Prop where
  steady : Steady s
  hears : Hears printed s
  silent : ∀ pid, s.world.processes.length < pid → printed pid = []

theorem Hears.feed (h : Hears printed s) (p : Pid) (stream : Stream) (chunk : Text.Bytes) :
    Hears (fun pid => printed pid ++ s.prints pid (.act (.feed p stream chunk)))
      (s.feed p stream chunk) := by
  refine ⟨h.deaf, fun pid hp => ?_⟩
  obtain ⟨seen, closed, lineUse, hh⟩ := h.heard pid hp
  have hunread := s.world.unread_feed p stream chunk pid .stdout
  refine ⟨seen, closed, lineUse, ?_, hh.reader, hh.finished, fun hc => ⟨?_, ?_⟩, hh.told,
    hh.unheard⟩
  · show printed pid ++ _ = seen ++ (s.world.feed p stream chunk).1.unread pid .stdout
    rw [prints_feed, hunread, hh.split, List.append_assoc]
  · exact World.canWrite_feed.trans (hh.mute hc).1
  · refine hunread.trans ?_
    rw [(hh.mute hc).1, (hh.mute hc).2]
    simp

/-- What comes of a start is heard from the beginning. -/
theorem Hears.starts {u v : Session} {x : Happening} {call : Call} {stdout stderr : LineUse}
    {outcome : Except Failure Unit} (h : Listens printed s)
    (hwas : Attended u.queue u) (hworld : u.world = s.world) (hquiet : stderr ≠ .announced)
    (start : u.superviseCall call stdout stderr = (v, outcome))
    (hl : Leaves v (s.undergo x)) :
    Hears (fun pid => printed pid ++ s.prints pid x) (s.undergo x) := by
  have hstarting := superviseCall_spec hwas.kept call stdout stderr
  rw [start] at hstarting
  cases hstarting with
  | refused clears => exact (Hears.of_idle clears.kept clears.held).leaves hl
  | @started w pid adopts =>
    refine Hears.leaves (s := w.enqueue (firstWakes pid)) ?_ hl
    have hnew : s.world.processes.length < pid := by
      rw [adopts.next, hworld]
      exact Nat.lt_succ_self _
    have hheard : Hears (fun pid => printed pid ++ s.prints pid x) w := by
      refine .adopts hquiet adopts ?_
      have hserved : (s.undergo x).world.process? pid = w.world.process? pid :=
        hl.served pid (.inl adopts.held)
      rw [h.silent pid hnew, prints_of_none (process?_eq_none h.steady hnew), List.nil_append]
      exact World.unread_congr hserved _
    exact hheard.same (.refl _) rfl (fun _ _ => rfl) fun _ _ hm => hm

theorem Hears.step (h : Listens printed s) :
    Hears (fun pid => printed pid ++ s.prints pid (.act .step)) s.step := by
  have hstays : ∀ pid, (s.step.world.process? pid).isSome = (s.world.process? pid).isSome →
      printed pid ++ s.prints pid (.act .step) = printed pid := fun pid hp => by
    rw [prints_eq_nil (x := .act .step) (by rintro _ _ _ ⟨⟩) hp, List.append_nil]
  rcases h.steady.step_service with he | ⟨n, rest, hq, hsound, hattended, hservice⟩
  · rw [he] at hstays ⊢
    exact h.hears.congr_printed fun pid _ => hstays pid rfl
  have hears : Hears printed { s with queue := rest } := h.hears.same (.refl _) rfl
    (fun _ _ => rfl) fun _ _ hm => hm
  generalize ht : s.step = t at hservice hstays
  cases hservice with
  | leaves idle hl =>
    refine (hears.leaves hl).congr_printed fun pid hp => hstays pid ?_
    rw [hl.supervisor.held] at hp
    exact congrArg Option.isSome (hl.served pid (.inl hp))
  | @reads r hn hr =>
    refine (hears.reads hsound.runners.sane hattended.kept hr).congr_printed fun pid _ =>
      hstays pid ?_
    obtain ⟨hworld, -⟩ := Session.readServer_same { s with queue := rest } r
    rw [hworld]
    exact (World.touches_collect ..).known pid
  | @awaits p w hn held alive =>
    refine (hears.awaits alive).congr_printed fun pid _ => hstays pid ?_
    have htouch := World.touches_awaitExit s.world p
    rw [show s.world.awaitExit p = (w, none) from alive] at htouch
    exact htouch.known pid
  | ends hn held gone crash =>
    subst hn
    obtain ⟨hended, hheld, -⟩ := hattended.ends held (World.hasEnded_of_awaitExit gone) crash
    exact .of_idle hended.kept hheld
  | @starts u v _ call stdout stderr outcome idle before quiet start hl =>
    have hu : Attended u.queue u ∧ u.world = s.world := by
      have hdropped := hattended.drop idle
      rcases before with ⟨rfl, -⟩ | rfl
      · exact ⟨hdropped, rfl⟩
      · exact ⟨hdropped.congr rfl rfl, rfl⟩
    rw [← ht] at hl ⊢
    exact Hears.starts (x := .act .step) h hu.1 hu.2 quiet start hl

theorem Hears.undergo (h : Listens printed s) (x : Happening) :
    Hears (fun pid => printed pid ++ s.prints pid x) (s.undergo x) := by
  have hquiet : ∀ {x : Happening}, (∀ p stream chunk, x ≠ .act (.feed p stream chunk)) →
      (∀ pid, ((s.undergo x).world.process? pid).isSome = (s.world.process? pid).isSome) →
      Hears printed (s.undergo x) →
      Hears (fun pid => printed pid ++ s.prints pid x) (s.undergo x) := by
    intro x hx hknown hh
    refine hh.congr_printed fun pid _ => ?_
    rw [prints_eq_nil hx (hknown pid), List.append_nil]
  cases x with
  | stop =>
    obtain ⟨u, -, -, hclears, -⟩ := stopServer_spec h.steady.sound h.steady.startup
      h.steady.attended.kept
    exact .of_idle hclears.kept hclears.held
  | act a =>
    cases a with
    | ask request =>
      exact hquiet (by rintro _ _ _ ⟨⟩) (fun _ => rfl) (h.hears.leaves (.addTask s request))
    | feed p stream chunk => exact h.hears.feed p stream chunk
    | exit p code time =>
      refine hquiet (by rintro _ _ _ ⟨⟩) (World.touches_exit s.world p code time).known ?_
      exact h.hears.same (.refl _) rfl (fun _ _ => World.unread_exit)
        fun _ _ hm => World.canWrite_exit hm
    | step => exact .step h

theorem Listens.undergo (h : Listens printed s) {x : Happening} (hx : s.Timely x) :
    Listens (fun pid => printed pid ++ s.prints pid x) (s.undergo x) := by
  have hsteady := h.steady.undergo hx
  refine ⟨hsteady, .undergo h x, fun pid hlt => ?_⟩
  have hbefore := Nat.lt_of_le_of_lt (length_undergo h.steady x) hlt
  show printed pid ++ s.prints pid x = []
  rw [h.silent pid hbefore, prints_of_none (process?_eq_none h.steady hbefore), List.nil_append]
  exact World.unread_of_none (process?_eq_none hsteady hlt) _

/-- **All that is printed is heard** by a session to which everything happens in time. -/
theorem Fresh.listens (h : s.Fresh) {hs : List Happening} (ho : s.Orderly hs) :
    Listens (fun pid => s.printed pid hs) (s.through hs) := by
  refine through_induction (P := fun hs t => Listens (fun pid => s.printed pid hs) t) ?_ ?_ ho
  · refine ⟨h.steady, .of_idle h.steady.attended.kept ?_, fun _ _ => rfl⟩
    obtain ⟨_, _, _, _, _, _, _, _, _, rfl⟩ := h
    rfl
  · intro hs x hx hl
    simp only [printed_concat]
    exact hl.undergo hx

end Session

end VerifierHost
