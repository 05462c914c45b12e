import VerifierHost.Proofs.Server.Reading
import VerifierHost.Proofs.Server.Starting

/-! # The readers of the server are never forgotten

Each reader of the server's process is about to go on or waits at a stream that holds nothing, and
when the process has ended the readers go on before its end is noticed (`Session.Attended`). So a
crash finds no reader left, and a process that is not held any more has nobody who takes in its
lines. -/

namespace VerifierHost

/-- A notice comes before another one, whether that comes at all. -/
def Before (a b : Notice) (ns : List Notice) : Prop := a ∈ ns.takeWhile (· ≠ b)

section Before

variable {a b n : Notice} {xs ys : List Notice}

theorem Before.mem (h : Before a b xs) : a ∈ xs := (List.takeWhile_sublist _).subset h

theorem before_cons : Before a b (n :: xs) ↔ n ≠ b ∧ (a = n ∨ Before a b xs) := by
  unfold Before
  by_cases hn : n = b
  · simp [hn]
  · simp [hn]

theorem Before.append (h : Before a b xs) (ys : List Notice) : Before a b (xs ++ ys) := by
  induction xs with
  | nil => exact absurd h List.not_mem_nil
  | cons n rest ih =>
    obtain ⟨hn, hor⟩ := before_cons.mp h
    exact before_cons.mpr ⟨hn, hor.imp_right ih⟩

theorem before_append (hb : b ∉ xs) : Before a b (xs ++ ys) ↔ a ∈ xs ∨ Before a b ys := by
  induction xs with
  | nil => simp
  | cons n rest ih =>
    obtain ⟨hn, hrest⟩ : b ≠ n ∧ b ∉ rest := by simpa using hb
    rw [List.cons_append, before_cons, ih hrest, List.mem_cons, or_assoc]
    exact and_iff_right (Ne.symm hn)

/-- The end of a process wakes its readers first. -/
theorem before_finish {p : Process} {stream : Stream} {c : Channel} (code : ExitCode)
    (hc : p.channel stream = some c) (ha : c.awaited = true) :
    Before (.wake (.output p.pid stream)) (.wake (.exit p.pid))
      ((p.finish code).2.map Notice.wake) := by
  have hreader : ∀ st, Notice.wake (.exit p.pid) ∉ (p.wakeReader st).map Notice.wake := by
    intro st hm
    unfold Process.wakeReader at hm
    split at hm
    · simp at hm
    · exact absurd hm List.not_mem_nil
  have hwake : Notice.wake (.output p.pid stream) ∈ (p.wakeReader stream).map Notice.wake :=
    List.mem_map_of_mem (Process.mem_wakeReader hc ha)
  simp only [Process.finish, List.map_append, List.append_assoc]
  rw [before_append (hreader .stdout), before_append (hreader .stderr)]
  cases stream with
  | stdout => exact .inl hwake
  | stderr => exact .inr (.inl hwake)

end Before

theorem World.hasEnded_of_awaitExit {w w' : World} {pid : Pid} {code : ExitCode}
    (h : w.awaitExit pid = (w', some code)) : w.HasEnded pid := by
  unfold awaitExit at h
  split at h
  next => cases h
  next p hp =>
    split at h
    next code' hc => exact ⟨p, code', hp, hc⟩
    next => cases h

namespace Supervisor

variable {s : Supervisor} {r q : StreamReader} {ended : Bool}

theorem mem_putReader_iff (h : s.Kept) (hr : r ∈ s.readers) {r' : StreamReader}
    (hpid : r'.pid = r.pid) (hstream : r'.stream = r.stream) :
    q ∈ (s.putReader r' ended).readers ↔
      q ∈ s.readers ∧ q.stream ≠ r.stream ∨ ended = false ∧ q = r' := by
  have hother : ∀ x ∈ s.readers, (x.pid ≠ r'.pid || x.stream ≠ r'.stream) = true ↔
      x.stream ≠ r.stream := by
    intro x hx
    have hsame : x.pid = r.pid := Option.some.inj ((h.readers x hx).symm.trans (h.readers r hr))
    simp [hpid, hstream, hsame]
  unfold putReader
  cases ended with
  | true =>
    simp only [if_true, List.mem_filter, Bool.true_eq_false, false_and, or_false]
    exact and_congr_right fun hq => hother q hq
  | false =>
    simp only [Bool.false_eq_true, if_false, List.mem_map, true_and]
    constructor
    · rintro ⟨x, hx, rfl⟩
      by_cases ho : x.stream ≠ r.stream
      · rw [if_pos ((hother x hx).mpr ho)]
        exact .inl ⟨hx, ho⟩
      · rw [if_neg (fun he => ho ((hother x hx).mp he))]
        exact .inr rfl
    · rintro (⟨hq, ho⟩ | rfl)
      · exact ⟨q, hq, if_pos ((hother q hq).mpr ho)⟩
      · exact ⟨r, hr, if_neg fun he => (hother r hr).mp he rfl⟩

/-- A reader that is put back reads the stream that it read. -/
theorem Kept.putReader (h : s.Kept) {r' : StreamReader} (hheld : s.held = some r'.pid) :
    (s.putReader r' ended).Kept := by
  refine ⟨h.states, h.guard, ?_, ?_⟩
  · intro q hq
    rcases mem_putReader hq with hq | rfl
    · exact h.readers q hq
    · exact hheld
  · unfold Supervisor.putReader
    cases ended with
    | true => exact h.sole.sublist (List.filter_sublist.map _)
    | false =>
      have hstreams : (s.readers.map fun q => if q.pid ≠ r'.pid || q.stream ≠ r'.stream then q
          else r').map StreamReader.stream = s.readers.map StreamReader.stream := by
        rw [List.map_map]
        refine List.map_congr_left fun q _ => ?_
        dsimp only [Function.comp]
        split
        next => rfl
        next hq => simp at hq; exact hq.2.symm
      exact hstreams ▸ h.sole

end Supervisor

/-- Whatever lines are taken in, the supervisor holds and reads what it did. -/
theorem SharedServer.takeLines_kept {s : SharedServer} (h : s.supervisor.Kept) (lineUse : LineUse)
    (lines : List Text) : (s.takeLines lineUse lines).1.supervisor.Kept := by
  by_cases hu : lineUse = .announced
  · subst hu
    cases hl : lastAnnounced? lines with
    | none =>
      rw [takeLines_silent hl]
      exact h
    | some digits =>
      obtain ⟨hguarded, -, hheld, hreaders, -⟩ := takeLines_announced h.guarded hl
      refine ⟨hguarded.states, hguarded.guard, ?_, ?_⟩
      · rw [hheld, hreaders]
        exact h.readers
      · rw [hreaders]
        exact h.sole
  · rw [takeLines_idle hu]
    exact h

namespace Session

/-- What a reader of the server leaves behind. -/
theorem readServer_same (s : Session) (r : StreamReader) :
    let reading := r.read (s.world.collect r.pid r.stream).2.1 (s.world.collect r.pid r.stream).2.2
    let taken := s.server.takeLines r.lineUse reading.2.1
    (s.readServer r).world = (s.world.collect r.pid r.stream).1 ∧
      (s.readServer r).server =
        { taken.1 with supervisor := taken.1.supervisor.putReader reading.1 reading.2.2 } ∧
      (s.readServer r).tasks = s.tasks ∧ (s.readServer r).startup = s.startup ∧
      (s.readServer r).queue = s.queue ++ s.phaseNotices taken.2 := by
  dsimp only
  unfold readServer
  dsimp only
  split
  next => exact ⟨rfl, rfl, rfl, rfl, rfl⟩
  next => exact ⟨rfl, rfl, rfl, rfl, rfl⟩
  next => exact ⟨rfl, rfl, rfl, rfl, rfl⟩

/-- A reader that has read is put back, unless its stream has ended. -/
theorem mem_readers_readServer {s : Session} (hkept : s.server.supervisor.Kept) {r : StreamReader}
    (hr : r ∈ s.server.supervisor.readers) (q : StreamReader) :
    let reading := r.read (s.world.collect r.pid r.stream).2.1 (s.world.collect r.pid r.stream).2.2
    q ∈ (s.readServer r).server.supervisor.readers ↔
      q ∈ s.server.supervisor.readers ∧ q.stream ≠ r.stream ∨
        reading.2.2 = false ∧ q = reading.1 := by
  intro reading
  obtain ⟨-, hserver, -⟩ := s.readServer_same r
  obtain ⟨-, hreaders⟩ := s.server.takeLines_supervisor r.lineUse reading.2.1
  rw [hserver, ← hreaders]
  exact Supervisor.mem_putReader_iff (SharedServer.takeLines_kept hkept r.lineUse reading.2.1)
    (hreaders ▸ hr) rfl rfl

/-- The readers of the server's process go on or wait in vain, and before its end is noticed. -/
structure Attended (ns : List Notice) (s : Session) : Prop where
  kept : s.server.supervisor.Kept
  readers : ∀ r ∈ s.server.supervisor.readers, .wake (.output r.pid r.stream) ∈ ns ∨
    s.world.Awaits r.pid r.stream ∧ s.world.unread r.pid r.stream = []
  punctual : ∀ r ∈ s.server.supervisor.readers, s.world.HasEnded r.pid →
    Before (.wake (.output r.pid r.stream)) (.wake (.exit r.pid)) ns
  bounded : ∀ n ∈ ns, ∀ pid, n.pid? = some pid → pid ≤ s.world.processes.length
  apart : ∀ pid, .outputEnded pid ∈ ns → ¬ s.Serves pid

variable {s t u : Session} {n : Notice} {ns : List Notice} {pid : Pid}

theorem pid?_phaseNotices {waits : List WaitId} (h : n ∈ s.phaseNotices waits) :
    n.pid? = none := by
  obtain ⟨id, rfl, -⟩ := mem_phaseNotices h
  rfl

namespace Attended

theorem congr (h : Attended ns s) (hserver : t.server.supervisor = s.server.supervisor)
    (hworld : t.world = s.world) : Attended ns t := by
  obtain ⟨hk, hr, hp, hb, ha⟩ := h
  have hserves : ∀ pid, t.Serves pid ↔ s.Serves pid := fun pid => by rw [Serves, Serves, hserver]
  rw [← hserver] at hk hr hp
  rw [← hworld] at hr hp hb
  exact ⟨hk, hr, hp, hb, fun pid hm hs => ha pid hm ((hserves pid).mp hs)⟩

/-- A notice that wakes no reader of the server is not needed any more. -/
theorem drop (h : Attended (n :: ns) s) (hidle : n.Idle s) : Attended ns s where
  kept := h.kept
  readers r hr := (h.readers r hr).imp_left fun hm =>
    (List.mem_cons.mp hm).resolve_left (Ne.symm (hidle r hr))
  punctual r hr he := (before_cons.mp (h.punctual r hr he)).2.resolve_left (Ne.symm (hidle r hr))
  bounded m hm := h.bounded m (List.mem_cons_of_mem _ hm)
  apart pid hm := h.apart pid (List.mem_cons_of_mem _ hm)

theorem leaves (h : Attended s.queue s) (hl : Leaves s t) : Attended t.queue t := by
  obtain ⟨more, hq, hmore⟩ := hl.queue
  have hreaders := hl.supervisor.readers
  have hprocess : ∀ r ∈ s.server.supervisor.readers,
      t.world.process? r.pid = s.world.process? r.pid :=
    fun r hr => hl.served r.pid (.inr ⟨r, hr, rfl⟩)
  rw [hq]
  refine ⟨h.kept.same hl.supervisor, ?_, ?_, ?_, ?_⟩
  · intro r hr
    rw [hreaders] at hr
    rcases h.readers r hr with hm | ⟨ha, hn⟩
    · exact .inl (List.mem_append_left _ hm)
    · exact .inr ⟨ha.congr (hprocess r hr), (World.unread_congr (hprocess r hr) _).trans hn⟩
  · intro r hr he
    rw [hreaders] at hr
    exact (h.punctual r hr (he.congr (hprocess r hr).symm)).append more
  · intro m hm pid hp
    rcases List.mem_append.mp hm with hm | hm
    · exact Nat.le_trans (h.bounded m hm pid hp) hl.length
    · exact (hmore m hm pid hp).1
  · intro pid hm hs
    rw [hl.serves] at hs
    rcases List.mem_append.mp hm with hm | hm
    · exact h.apart pid hm hs
    · exact (hmore _ hm pid rfl).2 hs

/-! ## The server's process -/

/-- A reader that has read waits for more, unless its stream has ended. -/
theorem reads {r : StreamReader} (hw : s.world.Sane)
    (h : Attended (.wake (.output r.pid r.stream) :: s.queue) s)
    (hr : r ∈ s.server.supervisor.readers) :
    Attended (s.readServer r).queue (s.readServer r) := by
  obtain ⟨hworld, hserver, -, -, hqueue⟩ := s.readServer_same r
  have hmem := mem_readers_readServer h.kept hr
  obtain ⟨hpid, hstream, -⟩ := r.read_fields (s.world.collect r.pid r.stream).2.1
    (s.world.collect r.pid r.stream).2.2
  have hended := r.read_ended (s.world.collect r.pid r.stream).2.1
    (s.world.collect r.pid r.stream).2.2
  generalize r.read (s.world.collect r.pid r.stream).2.1
    (s.world.collect r.pid r.stream).2.2 = reading at hserver hended hqueue hmem hpid hstream
  have hkept := SharedServer.takeLines_kept h.kept r.lineUse reading.2.1
  obtain ⟨hheld, -⟩ := s.server.takeLines_supervisor r.lineUse reading.2.1
  have hlength := (World.touches_collect s.world r.pid r.stream).length
  have hwakes : ∀ q : StreamReader, q.stream ≠ r.stream →
      Notice.wake (.output q.pid q.stream) ≠ .wake (.output r.pid r.stream) := by
    intro q hq he
    injection he with he
    injection he with _ he
    exact hq he
  rw [hqueue]
  refine ⟨?_, ?_, ?_, ?_, ?_⟩
  · rw [hserver]
    exact hkept.putReader (hheld.trans (hpid ▸ h.kept.readers r hr))
  · intro q hq
    rw [hworld]
    rcases (hmem q).mp hq with ⟨hq, ho⟩ | ⟨hopen, rfl⟩
    · rcases h.readers q hq with hm | ⟨ha, hn⟩
      · exact .inl (List.mem_append_left _ ((List.mem_cons.mp hm).resolve_left (hwakes q ho)))
      · refine .inr ⟨?_, (World.unread_collect_of_ne ho).trans hn⟩
        have hsame : q.pid = r.pid :=
          Option.some.inj ((h.kept.readers q hq).symm.trans (h.kept.readers r hr))
        rw [hsame] at ha ⊢
        exact World.awaits_collect_of_ne ho ha
    · rw [hopen] at hended
      obtain ⟨hclosed, hfull⟩ := Bool.or_eq_false_iff.mp hended.symm
      rw [hpid, hstream]
      exact .inr ⟨World.awaits_collect hclosed hfull, World.unread_collect_self ..⟩
  · intro q hq he
    rw [hworld, World.hasEnded_collect] at he
    rcases (hmem q).mp hq with ⟨hq, ho⟩ | ⟨hopen, rfl⟩
    · exact ((before_cons.mp (h.punctual q hq he)).2.resolve_left (hwakes q ho)).append _
    · rw [hpid] at he
      rw [hopen, World.closed_of_hasEnded hw he, Bool.true_or] at hended
      cases hended
  · intro m hm pid hp
    rw [hworld, hlength]
    rcases List.mem_append.mp hm with hm | hm
    · exact h.bounded m (List.mem_cons_of_mem _ hm) pid hp
    · cases (pid?_phaseNotices hm).symm.trans hp
  · intro pid hm hs
    rcases List.mem_append.mp hm with hm | hm
    · refine h.apart pid (List.mem_cons_of_mem _ hm) ?_
      rcases hs with hs | ⟨q, hq, rfl⟩
      · rw [hserver] at hs
        exact .inl (hheld.symm.trans hs)
      · rcases (hmem q).mp hq with ⟨hq, -⟩ | ⟨-, rfl⟩
        · exact .inr ⟨q, hq, rfl⟩
        · exact .inr ⟨r, hr, hpid.symm⟩
    · cases pid?_phaseNotices hm

theorem awaits {w : World} (h : Attended (.wake (.exit pid) :: s.queue) s)
    (alive : s.world.awaitExit pid = (w, none)) : Attended s.queue { s with world := w } := by
  have hw : w = (s.world.awaitExit pid).1 := by rw [alive]
  have hdropped := h.drop (by rintro r - ⟨⟩)
  rw [hw]
  refine ⟨h.kept, ?_, ?_, ?_, hdropped.apart⟩
  · intro r hr
    refine (hdropped.readers r hr).imp_right fun hwaits => ?_
    exact ⟨World.awaits_awaitExit hwaits.1, World.unread_awaitExit.trans hwaits.2⟩
  · exact fun r hr he => hdropped.punctual r hr (World.hasEnded_awaitExit.mp he)
  · intro m hm q hq
    exact (World.touches_awaitExit s.world pid).length.symm ▸ hdropped.bounded m hm q hq

/-- When the end of the process is noticed nobody reads it any more. -/
theorem readers_eq_nil (h : Attended (.wake (.exit pid) :: ns) s)
    (held : s.server.supervisor.held = some pid) (hended : s.world.HasEnded pid) :
    s.server.supervisor.readers = [] := by
  apply List.eq_nil_iff_forall_not_mem.mpr
  intro r hr
  cases (h.kept.readers r hr).symm.trans held
  exact (before_cons.mp (h.punctual r hr hended)).1 rfl

/-- A session without a process to serve has no reader to be attended. -/
theorem of_idle (hkept : s.server.supervisor.Kept) (hheld : s.server.supervisor.held = none)
    (hbounded : ∀ n ∈ ns, ∀ pid, n.pid? = some pid → pid ≤ s.world.processes.length) :
    Attended ns s := by
  have hnil := hkept.readers_eq_nil hheld
  refine ⟨hkept, ?_, ?_, hbounded, ?_⟩
  · rw [hnil]
    exact fun _ hr => absurd hr List.not_mem_nil
  · rw [hnil]
    exact fun _ hr => absurd hr List.not_mem_nil
  · rintro pid - (hs | ⟨r, hr, -⟩)
    · cases hheld.symm.trans hs
    · rw [hnil] at hr
      exact List.not_mem_nil hr

theorem ends {supervisor : Supervisor} {ended : List WaitId}
    (h : Attended (.wake (.exit pid) :: s.queue) s) (held : s.server.supervisor.held = some pid)
    (hended : s.world.HasEnded pid)
    (crash : s.server.supervisor.processEnded pid = .ok (supervisor, ended)) :
    Attended (s.setSupervisor supervisor ended).queue (s.setSupervisor supervisor ended) ∧
      supervisor.held = none ∧ supervisor.state = .crashed ∧
        supervisor.name = s.server.supervisor.name := by
  have hnil := h.readers_eq_nil held hended
  obtain ⟨phases, more, -, he, hcurrent, hstates⟩ := h.kept.guarded.processEnded_eq held
  cases he.symm.trans crash
  refine ⟨of_idle ⟨hstates, ?_, ?_, ?_⟩ rfl ?_, rfl, hcurrent, rfl⟩
  · show false = phases.current.isLive
    rw [hcurrent]
    rfl
  · show ∀ r ∈ s.server.supervisor.readers, _
    rw [hnil]
    exact fun _ hr => absurd hr List.not_mem_nil
  · show (s.server.supervisor.readers.map _).Nodup
    rw [hnil]
    exact .nil
  · intro m hm q hq
    rcases List.mem_append.mp hm with hm | hm
    · exact h.bounded m (List.mem_cons_of_mem _ hm) q hq
    · cases (pid?_phaseNotices hm).symm.trans hq

/-- What a change to the supervisor stirs are processes that were there. -/
theorem bounded_manages (h : Attended s.queue s)
    (hserved : ∀ pid, s.Serves pid → pid ≤ s.world.processes.length) (hm : Manages s t) :
    ∀ n ∈ t.queue, ∀ pid, n.pid? = some pid → pid ≤ s.world.processes.length := by
  obtain ⟨more, hq, hmore⟩ := hm.queue
  intro n hn pid hp
  rw [hq] at hn
  rcases List.mem_append.mp hn with hn | hn
  · exact h.bounded n hn pid hp
  · cases hmore n hn with
    | phase => cases hp
    | wake about served =>
      cases about.symm.trans hp
      exact hserved _ served

theorem clears (h : Attended s.queue s)
    (hserved : ∀ pid, s.Serves pid → pid ≤ s.world.processes.length) (hc : Clears s t) :
    Attended t.queue t :=
  of_idle hc.kept hc.held fun n hn pid hp =>
    hc.length.symm ▸ h.bounded_manages hserved hc.toManages n hn pid hp

theorem adopts {stdout stderr : LineUse} (h : Attended s.queue s)
    (hserved : ∀ pid, s.Serves pid → pid ≤ s.world.processes.length)
    (ha : Adopts pid stdout stderr s t) :
    Attended (t.enqueue (firstWakes pid)).queue (t.enqueue (firstWakes pid)) := by
  have hbounded := h.bounded_manages hserved ha.toManages
  have hnew : ∀ n ∈ t.queue, n.pid? ≠ some pid := by
    intro n hn hp
    have hle := hbounded n hn pid hp
    rw [ha.next] at hle
    exact Nat.not_succ_le_self _ hle
  have hmem : ∀ r ∈ t.server.supervisor.readers, r.pid = pid := fun r hr =>
    (Option.some.inj (ha.held.symm.trans (ha.kept.readers r hr))).symm
  have hfirst : ∀ stream, Before (.wake (.output pid stream)) (.wake (.exit pid))
      (t.queue ++ firstWakes pid) := by
    intro stream
    rw [before_append fun hm => hnew _ hm rfl]
    right
    cases stream with
    | stdout => exact before_cons.mpr ⟨by rintro ⟨⟩, .inl rfl⟩
    | stderr =>
      exact before_cons.mpr ⟨by rintro ⟨⟩, .inr (before_cons.mpr ⟨by rintro ⟨⟩, .inl rfl⟩)⟩
  refine ⟨ha.kept, ?_, ?_, ?_, ?_⟩
  · intro r hr
    rw [hmem r hr]
    exact .inl (hfirst r.stream).mem
  · intro r hr _
    rw [hmem r hr]
    exact hfirst r.stream
  · intro n hn q hq
    show q ≤ t.world.processes.length
    rw [ha.length]
    rcases List.mem_append.mp hn with hn | hn
    · exact Nat.le_of_lt (ha.next ▸ Nat.lt_succ_of_le (hbounded n hn q hq))
    · simp only [firstWakes, List.mem_cons, List.not_mem_nil, or_false] at hn
      rcases hn with rfl | rfl | rfl
      · cases hq; exact Nat.le_refl _
      · cases hq; exact Nat.le_refl _
      · cases hq; exact Nat.le_refl _
  · intro q hm hs
    have hq : q = pid := by
      rcases hs with hs | ⟨r, hr, rfl⟩
      · exact Option.some.inj (hs.symm.trans ha.held)
      · exact hmem r hr
    subst hq
    rcases List.mem_append.mp hm with hm | hm
    · exact hnew _ hm rfl
    · simp [firstWakes] at hm

/-- What a notice does to the server leaves no reader behind. -/
theorem service (hs : Sound (n :: s.queue) s) (h : Attended (n :: s.queue) s)
    (hservice : Service n s t) : Attended t.queue t := by
  cases hservice with
  | leaves idle hl => exact (h.drop idle).leaves hl
  | @reads r hn hr =>
    subst hn
    exact h.reads hs.runners.sane hr
  | awaits hn _ alive =>
    subst hn
    exact h.awaits alive
  | ends hn held gone crash =>
    subst hn
    exact (h.ends held (World.hasEnded_of_awaitExit gone) crash).1
  | @starts u v _ call stdout stderr outcome idle before _ start hl =>
    have hu : u.queue = s.queue ∧ u.server.supervisor = s.server.supervisor ∧
        u.world = s.world := by
      rcases before with ⟨rfl, -⟩ | rfl
      · exact ⟨rfl, rfl, rfl⟩
      · exact ⟨rfl, rfl, rfl⟩
    obtain ⟨hqueue, hsupervisor, hworld⟩ := hu
    have hdropped : Attended u.queue u := hqueue ▸ (h.drop idle).congr hsupervisor hworld
    have hserved : ∀ pid, u.Serves pid → pid ≤ u.world.processes.length := by
      intro pid hp
      rw [Serves, hsupervisor] at hp
      rw [hworld]
      exact hs.runners.served pid hp
    refine Attended.leaves ?_ hl
    have hstarting := superviseCall_spec hdropped.kept call stdout stderr
    rw [start] at hstarting
    cases hstarting with
    | refused clears => exact hdropped.clears hserved clears
    | started adopts => exact hdropped.adopts hserved adopts

/-! ## What comes from outside -/

/-- The wakes that something brings about are of processes there are. -/
theorem bounded_wakes {wakes : List Wake} (h : Attended ns s)
    (hwakes : ∀ wake ∈ wakes, ∀ q, (Notice.wake wake).pid? = some q →
      q ≤ s.world.processes.length) :
    ∀ n ∈ ns ++ wakes.map .wake, ∀ q, n.pid? = some q → q ≤ s.world.processes.length := by
  intro n hn q hq
  rcases List.mem_append.mp hn with hn | hn
  · exact h.bounded n hn q hq
  · obtain ⟨wake, hw, rfl⟩ := List.mem_map.mp hn
    exact hwakes wake hw q hq

theorem apart_wakes {wakes : List Wake} (h : Attended ns s) {q : Pid}
    (hq : .outputEnded q ∈ ns ++ wakes.map .wake) : ¬ s.Serves q := by
  refine h.apart q ((List.mem_append.mp hq).resolve_right fun hq => ?_)
  obtain ⟨wake, -, he⟩ := List.mem_map.mp hq
  cases he

theorem feed {stream : Stream} {chunk : Text.Bytes} (hs : Sound s.queue s)
    (h : Attended s.queue s) :
    Attended (s.feed pid stream chunk).queue (s.feed pid stream chunk) := by
  have htouch := World.touches_feed s.world pid stream chunk
  have hwakes : ∀ wake ∈ (s.world.feed pid stream chunk).2, (Notice.wake wake).pid? = some pid ∧
      pid ≤ s.world.processes.length := by
    intro wake hw
    rcases s.world.feed_cases pid stream chunk with ⟨-, he⟩ | ⟨p, c, hp, -, -, -, he⟩
    · rw [he] at hw
      exact absurd hw List.not_mem_nil
    · rw [he] at hw
      have hw : wake ∈ p.wakeReader stream := hw
      unfold Process.wakeReader at hw
      split at hw
      · rw [List.mem_singleton.mp hw, World.pid_of_process? hp]
        exact ⟨rfl, hs.runners.sane.le_of_process? hp⟩
      · exact absurd hw List.not_mem_nil
  refine ⟨h.kept, ?_, ?_, ?_, ?_⟩
  · intro r hr
    rcases h.readers r hr with hm | ⟨ha, hn⟩
    · exact .inl (List.mem_append_left _ hm)
    · rcases World.awaits_feed pid stream chunk ha with
        ⟨ha', hn'⟩ | hw
      · exact .inr ⟨ha', hn'.trans hn⟩
      · exact .inl (List.mem_append_right _ (List.mem_map_of_mem hw))
  · exact fun r hr he => (h.punctual r hr (World.hasEnded_feed.mp he)).append _
  · intro m hm q hq
    refine htouch.length.symm ▸ h.bounded_wakes (fun wake hw q hq => ?_) m hm q hq
    cases (hwakes wake hw).1.symm.trans hq
    exact (hwakes wake hw).2
  · exact fun q hm => h.apart_wakes hm

/-- A process that ends in time wakes its readers before its waiter. -/
theorem exit {code : ExitCode} {time : Millis} (hs : Sound s.queue s) (h : Attended s.queue s)
    (hx : .wake (.exit pid) ∉ s.queue) :
    Attended (s.exit pid code time).queue (s.exit pid code time) := by
  have htouch := World.touches_exit s.world pid code time
  have hstirs := World.stirs_exit s.world pid code time
  refine ⟨h.kept, ?_, ?_, ?_, ?_⟩
  · intro r hr
    rcases h.readers r hr with hm | ⟨ha, hn⟩
    · exact .inl (List.mem_append_left _ hm)
    · rcases hstirs.reader r.pid r.stream ha with ha' | hw
      · exact .inr ⟨ha', World.unread_exit.trans hn⟩
      · exact .inl (List.mem_append_right _ (List.mem_map_of_mem hw))
  · intro r hr he
    by_cases hq : pid = r.pid
    · subst hq
      rw [Session.exit, enqueue_queue, before_append hx]
      rcases h.readers r hr with hm | ⟨⟨p, c, hp, hc, ha⟩, -⟩
      · exact .inl hm
      · right
        rcases s.world.exit_cases r.pid code time with hsame | ⟨p', hp', -, hexit⟩
        · dsimp only [Session.exit, enqueue] at he
          rw [hsame] at he
          exact absurd ⟨p, c, hp, hc, ha⟩ (hs.runners.sane.not_awaits he r.stream)
        · cases hp.symm.trans hp'
          have hfirst := before_finish code hc ha
          rw [World.pid_of_process? hp] at hfirst
          rw [hexit]
          exact hfirst
    · exact (h.punctual r hr (World.hasEnded_exit_of_ne hq he)).append _
  · intro m hm q hq
    refine htouch.length.symm ▸ h.bounded_wakes (fun wake hw q hq => ?_) m hm q hq
    have hw : wake ∈ (s.world.exit pid code time).2 := hw
    cases (World.pid?_exit hw).symm.trans hq
    rcases s.world.exit_cases pid code time with hsame | ⟨p, hp, -, -⟩
    · rw [hsame] at hw
      exact absurd hw List.not_mem_nil
    · exact hs.runners.sane.le_of_process? hp
  · exact fun q hm => h.apart_wakes hm

end Attended

/-- The startup is given up without a move of the supervisor. -/
theorem Leaves.cancelStartup (hs : Sound ns s) (hstartup : s.KnowsStartup) {id : TaskId}
    (hid : s.startup = some id) : Leaves s (s.cancel id) := by
  obtain ⟨k, hk, hr⟩ := hstartup id hid
  unfold cancel
  rw [hk]
  dsimp only
  split
  next => exact .refl s
  next =>
    refine Leaves.trans ?_ (Apart.endTask _ id _).leaves
    rcases s.giveUp_cases (hs.startup_standing hk hr) with he | ⟨ready, crashed, he⟩
    · rw [he]
      exact .refl s
    · rw [he]
      exact .setSupervisor []
        ((Supervisor.same_cancelWait ..).trans (Supervisor.same_cancelWait ..))

/-- A stop gives the startup up, lets go of the process and forgets its address. -/
theorem stopServer_spec (hs : Sound s.queue s) (hstartup : s.KnowsStartup)
    (h : s.server.supervisor.Kept) : ∃ u,
      (s.startup = none ∧ u = s.unannounced ∨
        ∃ id, s.startup = some id ∧ u = s.unannounced.cancel id) ∧
      Leaves s.unannounced u ∧ Clears { u with startup := none } s.stopServer.1 ∧
      s.stopServer.1.server.supervisor.state = .stopped := by
  obtain ⟨u, he, hu⟩ := s.stopServer_cases
  have hleaves : Leaves s.unannounced u := by
    rcases hu with ⟨-, rfl⟩ | ⟨id, hid, rfl⟩
    · exact .refl _
    · have hsound : Sound s.queue s.unannounced := Sound.aside [] hs s.unannounced_aside
      exact .cancelStartup hsound hstartup hid
  have hkept : u.server.supervisor.Kept := h.same hleaves.supervisor
  obtain ⟨t, ht, hclears, hstate, -⟩ := stopSupervised_spec (s := { u with startup := none }) hkept
  rw [he, ht]
  exact ⟨u, hu, hleaves, hclears, hstate⟩

/-- Everybody is taken care of, the readers of the server included. -/
structure Steady (s : Session) : Prop where
  sound : Sound s.queue s
  startup : s.KnowsStartup
  attended : Attended s.queue s

namespace Steady

/-- A session that is steady takes a step. -/
theorem step_service (h : Steady s) : s.step = s ∨ ∃ n rest, s.queue = n :: rest ∧
    Sound (n :: rest) { s with queue := rest } ∧ Attended (n :: rest) { s with queue := rest } ∧
      Service n { s with queue := rest } s.step := by
  cases hq : s.queue with
  | nil => exact .inl (step_nil hq)
  | cons n rest =>
    have hsound := h.sound
    have hattended := h.attended
    rw [hq] at hsound hattended
    have htaken : Sound (n :: rest) { s with queue := rest } := hsound.congr rfl rfl rfl rfl
    have hready : Attended (n :: rest) { s with queue := rest } := hattended.congr rfl rfl
    refine .inr ⟨n, rest, rfl, htaken, hready, ?_⟩
    rw [step_cons hq]
    refine react_service htaken hready.kept ?_
    rintro pid rfl
    exact hready.apart pid List.mem_cons_self

theorem knowsStartup_service (h : s.KnowsStartup) (hkept : s.server.supervisor.Kept)
    (hservice : Service n s t) : t.KnowsStartup := by
  cases hservice with
  | leaves _ hl => exact hl.knowsStartup h
  | reads hn hr =>
    obtain ⟨-, -, htasks, hstartup, -⟩ := s.readServer_same _
    exact fun id hid => by
      rw [task?_congr htasks]
      exact h id (hstartup ▸ hid)
  | awaits | ends => exact h
  | @starts u v _ call stdout stderr outcome _ before _ start hl =>
    have hu : u.KnowsStartup ∧ u.server.supervisor.Kept := by
      rcases before with ⟨rfl, -⟩ | rfl
      · exact ⟨h, hkept⟩
      · exact ⟨h, hkept⟩
    refine hl.knowsStartup fun id hid => ?_
    have hmanages : v.tasks = u.tasks ∧ v.startup = u.startup := by
      have hstarting := superviseCall_spec hu.2 call stdout stderr
      rw [start] at hstarting
      cases hstarting with
      | refused clears => exact ⟨clears.tasks, clears.startup⟩
      | started adopts => exact ⟨adopts.tasks, adopts.startup⟩
    rw [task?_congr hmanages.1]
    exact hu.1 id (hmanages.2 ▸ hid)

theorem act (h : Steady s) {a : Action} (hx : s.Timely (.act a)) : Steady (s.act a) := by
  refine ⟨h.sound.act a, ?_, ?_⟩
  · cases a with
    | ask request => exact (Leaves.addTask s request).knowsStartup h.startup
    | feed | exit => exact h.startup
    | step =>
      rcases h.step_service with he | ⟨n, rest, -, -, hattended, hservice⟩
      · rw [Session.act, he]
        exact h.startup
      · exact knowsStartup_service (s := { s with queue := rest }) h.startup hattended.kept hservice
  · cases a with
    | ask request => exact h.attended.leaves (.addTask s request)
    | feed => exact h.attended.feed h.sound
    | exit => exact h.attended.exit h.sound hx
    | step =>
      rcases h.step_service with he | ⟨n, rest, -, hsound, hattended, hservice⟩
      · rw [Session.act, he]
        exact h.attended
      · exact hattended.service hsound hservice

theorem stop (h : Steady s) : Steady s.stopServer.1 := by
  refine ⟨Sound.aside [] h.sound (stopServer_aside h.sound h.startup), ?_, ?_⟩
  · intro id hid
    rw [stopServer_startup] at hid
    cases hid
  · obtain ⟨u, -, hl, hc, -⟩ := stopServer_spec h.sound h.startup h.attended.kept
    have hleft : Attended u.queue u :=
      Attended.leaves (s := s.unannounced) (h.attended.congr rfl rfl) hl
    refine Attended.clears (s := { u with startup := none }) (hleft.congr rfl rfl) ?_ hc
    intro pid hp
    exact Nat.le_trans (h.sound.runners.served pid ((hl.serves pid).mp hp)) hl.length

/-- **Whatever happens in time leaves a session steady.** -/
theorem undergo (h : Steady s) {x : Happening} (hx : s.Timely x) : Steady (s.undergo x) := by
  cases x with
  | act a => exact h.act hx
  | stop => exact h.stop

end Steady

theorem Fresh.steady (h : s.Fresh) : Steady s := by
  refine ⟨h.sound, ?_, ?_⟩
  all_goals obtain ⟨_, _, _, _, _, _, _, _, name, rfl⟩ := h
  · intro id hid
    cases hid
  · exact .of_idle (.idle _) rfl fun _ hn => absurd hn List.not_mem_nil

end Session

end VerifierHost
