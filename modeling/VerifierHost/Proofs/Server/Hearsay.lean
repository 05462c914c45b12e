import VerifierHost.Proofs.Server.Address
import VerifierHost.Proofs.Server.Heeding

/-! # What was told was printed

Whatever the server has heard of a process since it holds the one it does are the last lines of all
that was read from that process, also when it has crashed (`Session.Overhears`). So the address
stands in the last line that announces one, out of all that was read of the process that has told it
(`Session.address_last_told`). That need not be the process that is held: the readers of a process
that has crashed go on beside those of its successor. -/

namespace VerifierHost

/-- The lines that were heard of one process. -/
def linesOfPid (pid : Pid) (heard : List (Pid × Text)) : List Text :=
  (heard.filter (·.1 = pid)).map Prod.snd

theorem linesOfPid_append (pid : Pid) (xs ys : List (Pid × Text)) :
    linesOfPid pid (xs ++ ys) = linesOfPid pid xs ++ linesOfPid pid ys := by
  rw [linesOfPid, List.filter_append, List.map_append]
  rfl

theorem linesOfPid_map_self (pid : Pid) (lines : List Text) :
    linesOfPid pid (lines.map (pid, ·)) = lines := by
  rw [linesOfPid, List.filter_eq_self.mpr, List.map_map]
  · exact List.map_id _
  · intro e he
    obtain ⟨line, -, rfl⟩ := List.mem_map.mp he
    exact decide_eq_true rfl

theorem linesOfPid_eq_nil {pid : Pid} {heard : List (Pid × Text)} (h : ∀ e ∈ heard, e.1 ≠ pid) :
    linesOfPid pid heard = [] := by
  rw [linesOfPid, List.map_eq_nil_iff, List.filter_eq_nil_iff]
  exact fun e he => by simpa using h e he

/-- Whoever was the last to tell has been heard, and it was the last that it has told. -/
theorem lastTold?_eq_some {heard : List (Pid × Text)} {pid : Pid} {digits : List CodePoint}
    (h : lastTold? heard = some (pid, digits)) : (∃ e ∈ heard, e.1 = pid) ∧
      lastAnnounced? (linesOfPid pid heard) = some digits := by
  induction heard using List.reverseRecOn with
  | nil => cases h
  | append_singleton heard e ih =>
    obtain ⟨q, line⟩ := e
    have hsingle : lastTold? [(q, line)] = (announcedIn? line.points).map (q, ·) := by
      cases ha : announcedIn? line.points <;> simp [lastTold?, ha]
    rw [lastTold?_append, hsingle] at h
    rw [linesOfPid_append, lastAnnounced?_append]
    cases ha : announcedIn? line.points with
    | none =>
      rw [ha, Option.map_none, Option.none_or] at h
      obtain ⟨⟨e, he, hpid⟩, hlast⟩ := ih h
      have hsilent : lastAnnounced? (linesOfPid pid [(q, line)]) = none := by
        by_cases hq : q = pid <;> simp [linesOfPid, lastAnnounced?, hq, ha]
      rw [hsilent, Option.none_or]
      exact ⟨⟨e, List.mem_append_left _ he, hpid⟩, hlast⟩
    | some number =>
      rw [ha, Option.map_some, Option.some_or] at h
      cases h
      refine ⟨⟨(pid, line), List.mem_append_right _ List.mem_cons_self, rfl⟩, ?_⟩
      rw [show linesOfPid pid [(pid, line)] = [line] from linesOfPid_map_self pid [line],
        lastAnnounced?_cons, ha]
      rfl

theorem lastAnnounced?_of_suffix {lines all : List Text} {digits : List CodePoint}
    (h : lines <:+ all) (hl : lastAnnounced? lines = some digits) :
    lastAnnounced? all = some digits := by
  obtain ⟨before, rfl⟩ := h
  rw [lastAnnounced?_append, hl]
  rfl

namespace Session

variable {printed : Pid → List Text.Bytes} {heard : List (Pid × Text)} {lost lost' : Pid → Prop}
  {s t : Session} {x : Eventuality} {r : StreamReader} {pid : Pid}

/-- What was heard of a process are the last lines of the chunks that were read, and these are all
that it has printed but for what its stream still holds. Its reader, if there is one, has read just
these, and hears nothing unless it looks for an address. -/
structure Overhears (chunks : List Text.Bytes) (lines : List Text) (s : Session) (pid : Pid)
    (seen : List Text.Bytes) (closed : Bool) : Prop where
  split : chunks = seen ++ s.world.unread pid .stdout
  shut : closed = true → s.world.isOpen pid .stdout = false
  last : lines <:+ linesHeard seen closed
  reader : ∀ r ∈ s.server.supervisor.readers, r.pid = pid → r.stream = .stdout →
    closed = false ∧ seen.any List.isEmpty = false ∧
      r = ((StreamReader.start pid .stdout r.lineUse).read seen false).1 ∧
      (r.lineUse ≠ .announced → lines = [])

/-- All that was heard has been printed by the process that is held and those that are lost, which
are no verifiers. -/
structure Recalls (printed : Pid → List Text.Bytes) (heard : List (Pid × Text)) (lost : Pid → Prop)
    (s : Session) : Prop where
  numbered : s.world.Numbered
  silent : ∀ pid, s.world.processes.length < pid → printed pid = []
  bounded : ∀ pid, lost pid → pid ≤ s.world.processes.length
  apart : ∀ pid ∈ s.engine.pids, pid ≤ s.world.processes.length ∧
    s.server.supervisor.held ≠ some pid ∧ ¬ lost pid
  overhears : ∀ pid, s.server.supervisor.held = some pid ∨ lost pid →
    ∃ seen closed, Overhears (printed pid) (linesOfPid pid heard) s pid seen closed

/-! ## Reading -/

/-- The reader of an output hears the rest of what was printed. -/
theorem Overhears.reads {chunks seen : List Text.Bytes} {closed : Bool}
    (h : Overhears chunks (linesOfPid r.pid heard) s r.pid seen closed) (hr : Reads s x r t)
    (hstream : r.stream = .stdout) (hknown : r.pid ≤ s.world.processes.length) :
    ∃ seen closed,
      Overhears chunks (linesOfPid r.pid (heard ++ s.hears x)) t r.pid seen closed := by
  obtain ⟨hworld, -⟩ := hr.same
  obtain ⟨rfl, hopen, hreader, hmute⟩ := h.reader r hr.reader rfl hstream
  have hchunks : (s.world.collect r.pid r.stream).2.1 = s.world.unread r.pid .stdout := by
    rw [World.collect_chunks, hstream]
  have hunread : t.world.unread r.pid .stdout = [] := by
    rw [hworld, hstream]
    exact World.unread_collect_self ..
  have hmem := fun q => hr.mem_readers (q := q)
  have hlines : s.linesOf r = (r.read (s.world.collect r.pid r.stream).2.1
    (s.world.collect r.pid r.stream).2.2).2.1 := rfl
  rw [hchunks] at hlines
  simp only [hchunks] at hmem
  generalize hclosed : (s.world.collect r.pid r.stream).2.2 = closed at hmem hlines
  obtain ⟨hlast, hheard⟩ := read_start_append r.pid .stdout r.lineUse hopen
    (s.world.unread r.pid .stdout) closed
  rw [← hreader] at hlast hheard
  rw [← hlines] at hheard
  -- a reader that looks for no address hears nothing
  have hidle : r.lineUse ≠ .announced → linesOfPid r.pid (heard ++ s.hears x) = [] := fun hu => by
    rw [linesOfPid_append, hmute hu, hr.hears_eq, if_neg fun h => hu h.2]
    rfl
  refine ⟨seen ++ s.world.unread r.pid .stdout, closed, ?_, fun hc => ?_, ?_, fun q hq hp hs => ?_⟩
  · rw [hunread, List.append_nil]
    exact h.split
  · have hshut := World.isOpen_of_closed (hclosed.trans hc)
    rw [hworld]
    rw [hstream] at hshut ⊢
    exact (World.Outlasts.collect s.world r.pid .stdout).shut r.pid hknown .stdout hshut
  · by_cases hu : r.lineUse = .announced
    · rw [hheard, linesOfPid_append, hr.hears_eq, if_pos ⟨hstream, hu⟩, linesOfPid_map_self]
      exact List.suffix_append_self_iff.mpr h.last
    · rw [hidle hu]
      exact List.nil_suffix
  · rcases hmem q hq with ⟨-, hother⟩ | ⟨hgoes, rfl⟩
    · exact absurd ⟨hp, hs.trans hstream.symm⟩ hother
    · rw [StreamReader.read_ended] at hgoes
      obtain ⟨rfl, hrest⟩ := Bool.or_eq_false_iff.mp hgoes
      refine ⟨rfl, ?_, hlast.symm, hidle⟩
      rw [List.any_append, hopen, hrest]
      rfl

/-- The reader of another stream, or of another process, tells nothing of this one. -/
theorem Overhears.beside {chunks seen : List Text.Bytes} {closed : Bool}
    (h : Overhears chunks (linesOfPid pid heard) s pid seen closed) (hr : Reads s x r t)
    (hother : ¬ (r.pid = pid ∧ r.stream = .stdout)) (hknown : pid ≤ s.world.processes.length) :
    Overhears chunks (linesOfPid pid (heard ++ s.hears x)) t pid seen closed := by
  obtain ⟨hworld, -⟩ := hr.same
  have hunread : t.world.unread pid .stdout = s.world.unread pid .stdout := by
    rw [hworld]
    by_cases hpid : r.pid = pid
    · exact World.unread_collect_of_ne fun he => hother ⟨hpid, he.symm⟩
    · exact World.unread_congr ((World.touches_collect ..).others pid hpid) _
  have hsilent : linesOfPid pid (s.hears x) = [] := by
    rw [hr.hears_eq]
    split
    next hheard =>
      refine linesOfPid_eq_nil fun e he => ?_
      obtain ⟨line, -, rfl⟩ := List.mem_map.mp he
      exact fun hpid => hother ⟨hpid, hheard.1⟩
    next => rfl
  rw [linesOfPid_append, hsilent, List.append_nil]
  refine ⟨hunread ▸ h.split, fun hc => ?_, h.last, fun q hq hp hs => ?_⟩
  · rw [hworld]
    exact (World.Outlasts.collect ..).shut pid hknown .stdout (h.shut hc)
  · rcases hr.mem_readers hq with ⟨hq, -⟩ | ⟨-, rfl⟩
    · exact h.reader q hq hp hs
    · exact absurd ⟨hp, hs⟩ hother

/-! ## Whatever occurs -/

/-- Nothing is printed when a reader goes on. -/
theorem Reads.emits_eq_nil (hr : Reads s x r (s.face x)) : s.emits pid x = [] := by
  obtain ⟨hworld, -⟩ := hr.same
  cases hr.eventuality
  have htouched := World.touches_collect s.world r.pid r.stream
  rw [← hworld] at htouched
  exact prints_eq_nil (by rintro _ _ _ ⟨⟩) (htouched.known pid)

/-- A process prints what comes in when it is started, and nothing before that. -/
theorem emits_of_unborn (hs : s.world.process? pid = none)
    (ht : (s.face x).world.process? pid = none) : s.emits pid x = [] := by
  cases x with
  | happens x => exact (prints_of_none hs).trans (World.unread_of_none ht _)
  | arrives p stream chunk =>
    cases stream with
    | stdout =>
      have hshut : s.world.isOpen pid .stdout = false := by rw [World.isOpen, hs]; rfl
      rw [emits, hshut, if_neg fun h => Bool.false_ne_true h.2]
    | stderr => rfl
  | _ => rfl

/-- Only what happens in the program starts processes. -/
theorem emits_of_new (hs : s.world.process? pid = none)
    (hnew : (s.face x).server.supervisor.held ≠ s.server.supervisor.held) :
    s.emits pid x = (s.face x).world.unread pid .stdout := by
  cases x with
  | happens x => exact prints_of_none hs
  | _ => exact absurd rfl hnew

/-- Who was there before is read by whoever has read it before. -/
theorem Sways.mem_readers (hw : Sways s t) (hr : r ∈ t.server.supervisor.readers)
    (hknown : r.pid ≤ s.world.processes.length) : r ∈ s.server.supervisor.readers := by
  cases hw with
  | rests same => exact same.readers ▸ hr
  | crashes _ _ _ _ readers => exact readers ▸ hr
  | releases h => exact (Supervisor.mem_bystanders.mp (h.readers ▸ hr)).1
  | @engages pid h =>
    obtain ⟨stdout, stderr, -, hreaders⟩ := h.readers
    rw [hreaders] at hr
    rcases List.mem_append.mp hr with hr | hr
    · exact (Supervisor.mem_bystanders.mp hr).1
    · have hpid : r.pid = pid := by
        simp only [List.mem_cons, List.not_mem_nil, or_false] at hr
        rcases hr with rfl | rfl <;> rfl
      exact absurd (hpid ▸ hknown) (Nat.not_le_of_lt h.fresh)

/-- A process that is held was held before, or has just been started. -/
theorem Sways.held_cases (hw : Sways s t) (hheld : t.server.supervisor.held = some pid) :
    s.server.supervisor.held = some pid ∨ Engages pid s t := by
  cases hw with
  | rests same => exact .inl (same.held.symm.trans hheld)
  | crashes _ _ _ gone => cases gone.symm.trans hheld
  | releases h => cases h.held.symm.trans hheld
  | engages h =>
    cases h.held.symm.trans hheld
    exact .inr h

namespace Recalls

theorem of_fresh (h : s.Fresh) (hlost : ∀ pid, ¬ lost pid) : Recalls (fun _ => []) [] lost s := by
  obtain ⟨_, _, _, _, _, _, _, _, _, rfl⟩ := h
  refine ⟨World.numbered_start _, fun _ _ => rfl, fun pid hp => absurd hp (hlost pid), nofun,
    fun pid hp => ?_⟩
  rcases hp with hp | hp
  · cases hp
  · exact absurd hp (hlost pid)

/-- Who is held or was lost was started, and is no verifier. -/
theorem known (h : Recalls printed heard lost s) (hh : Heeds heard lost s)
    (hp : s.server.supervisor.held = some pid ∨ lost pid) :
    pid ≤ s.world.processes.length ∧ pid ∉ s.engine.pids :=
  ⟨hp.elim (hh.known pid) (h.bounded pid), fun hm =>
    hp.elim (h.apart pid hm).2.1 (h.apart pid hm).2.2⟩

/-- Of a process that was there before nothing is heard that it has not printed. -/
theorem overhears_face (h : Recalls printed heard lost s) (hh : Heeds heard lost s)
    (x : Eventuality) (hp : s.server.supervisor.held = some pid ∨ lost pid) : ∃ seen closed,
      Overhears (printed pid ++ s.emits pid x) (linesOfPid pid
        (if (s.face x).server.supervisor.held = s.server.supervisor.held then heard ++ s.hears x
          else [])) (s.face x) pid seen closed := by
  obtain ⟨hknown, hnone⟩ := h.known hh hp
  obtain ⟨seen, closed, ho⟩ := h.overhears pid hp
  rcases face_cases hh.guarded x with ⟨r, hr⟩ | hf
  · rw [if_pos hr.held, hr.emits_eq_nil, List.append_nil]
    by_cases hread : r.pid = pid ∧ r.stream = .stdout
    · obtain ⟨rfl, hstream⟩ := hread
      exact ho.reads hr hstream hknown
    · exact ⟨seen, closed, ho.beside hr hread hknown⟩
  · refine ⟨seen, closed, ?_, fun hc => ?_, ?_, fun r hr hpid hs => ?_⟩
    · rw [hf.unread pid hknown hnone, ho.split, List.append_assoc]
    · exact hf.outlasts.shut pid hknown .stdout (ho.shut hc)
    · rw [hf.silent, List.append_nil]
      split
      · exact ho.last
      · exact List.nil_suffix
    · obtain ⟨hc, hopen, hreader, hmute⟩ :=
        ho.reader r (hf.sways.mem_readers hr (hpid ▸ hknown)) hpid hs
      refine ⟨hc, hopen, hreader, fun hu => ?_⟩
      rw [hf.silent, List.append_nil]
      split
      · exact hmute hu
      · rfl

/-- A process that has just been started has printed what is unread. -/
theorem overhears_engaged (h : Recalls printed heard lost s) (hh : Heeds heard lost s)
    (hn : Engages pid s (s.face x)) :
    Overhears (printed pid ++ s.emits pid x) [] (s.face x) pid [] false := by
  have hnew := (hh.engages hn).1
  refine ⟨?_, nofun, List.nil_suffix, fun r hr hpid hs => ?_⟩
  · rw [h.silent pid hn.fresh, emits_of_new (h.numbered.process?_eq_none hn.fresh) hnew]
  · obtain ⟨stdout, stderr, -, hreaders⟩ := hn.readers
    rw [hreaders] at hr
    rcases List.mem_append.mp hr with hr | hr
    · have hknown := (h.known hh (hh.readers r (Supervisor.mem_bystanders.mp hr).1)).1
      exact absurd (hpid ▸ hknown) (Nat.not_le_of_lt hn.fresh)
    · simp only [List.mem_cons, List.not_mem_nil, or_false] at hr
      rcases hr with rfl | rfl
      · exact ⟨rfl, rfl, rfl, fun _ => rfl⟩
      · cases hs

/-- **Whatever occurs**, all that is heard was printed. -/
theorem face (h : Recalls printed heard lost s) (hh : Heeds heard lost s) (x : Eventuality)
    (hlost : ∀ pid, lost' pid → s.server.supervisor.held = some pid ∨ lost pid) :
    Recalls (fun pid => printed pid ++ s.emits pid x)
      (if (s.face x).server.supervisor.held = s.server.supervisor.held then heard ++ s.hears x
        else []) lost' (s.face x) := by
  obtain ⟨houtlasts, hheld⟩ : World.Outlasts s.world (s.face x).world ∧
      ∀ pid, (s.face x).server.supervisor.held = some pid →
        s.server.supervisor.held = some pid ∨ Engages pid s (s.face x) := by
    rcases face_cases hh.guarded x with ⟨r, hr⟩ | hf
    · rw [hr.same.1]
      exact ⟨.collect .., fun pid hp => .inl (hr.held.symm.trans hp)⟩
    · exact ⟨hf.outlasts, fun pid hp => hf.sways.held_cases hp⟩
  have hnumbered := houtlasts.numbered h.numbered
  refine ⟨hnumbered, fun pid hlt => ?_, fun pid hp => ?_, fun pid hp => ?_, fun pid hp => ?_⟩
  · have hbefore := Nat.lt_of_le_of_lt houtlasts.length hlt
    rw [h.silent pid hbefore, emits_of_unborn (h.numbered.process?_eq_none hbefore)
      (hnumbered.process?_eq_none hlt)]
    rfl
  · exact Nat.le_trans (h.known hh (hlost pid hp)).1 houtlasts.length
  · rcases face_pids hh.guarded x pid hp with hp | ⟨hfresh, hle, hserver⟩
    · obtain ⟨hknown, hnot, hfound⟩ := h.apart pid hp
      refine ⟨Nat.le_trans hknown houtlasts.length, fun he => ?_, fun hl => ?_⟩
      · rcases hheld pid he with he | hn
        · exact hnot he
        · exact Nat.not_le_of_lt hn.fresh hknown
      · exact (hlost pid hl).elim hnot hfound
    · have hunknown : ¬ (s.server.supervisor.held = some pid ∨ lost pid) := fun ho =>
        Nat.not_le_of_lt hfresh (h.known hh ho).1
      rw [hserver]
      exact ⟨hle, fun he => hunknown (.inl he), fun hl => hunknown (hlost pid hl)⟩
  · by_cases hbefore : s.server.supervisor.held = some pid ∨ lost pid
    · exact h.overhears_face hh x hbefore
    · rcases hp with he | hl
      · have hn := (hheld pid he).resolve_left fun he => hbefore (.inl he)
        rw [if_neg (hh.engages hn).1]
        exact ⟨[], false, h.overhears_engaged hh hn⟩
      · exact absurd (hlost pid hl) hbefore

end Recalls

/-- After any eventualities all that was heard since the process was started that is held has been
printed. -/
theorem Fresh.recalls (h : s.Fresh) (xs : List Eventuality) :
    Recalls (fun pid => s.emitted pid xs) (s.heardSince xs) (s.CrashedWith · xs) (s.facing xs) := by
  induction xs using List.reverseRecOn with
  | nil =>
    refine .of_fresh h ?_
    rintro pid ⟨before, x, after, he, -⟩
    exact absurd he.symm (by simp)
  | append_singleton xs x ih =>
    simp only [heardSince_concat, facing_concat, emitted_concat]
    refine ih.face (h.heeds xs) x fun pid hp => ?_
    exact (crashedWith_concat.mp hp).symm.imp_left And.left

/-- Nobody is heard but who is read. -/
theorem reader_of_hears (hg : s.server.supervisor.Guarded) {e : Pid × Text} (he : e ∈ s.hears x) :
    ∃ r ∈ s.server.supervisor.readers, e.1 = r.pid := by
  rcases face_cases hg x with ⟨r, hr⟩ | hf
  · exact ⟨r, hr.reader, hr.speaker he⟩
  · rw [hf.silent] at he
    exact absurd he List.not_mem_nil

/-- As long as everything happens in time only the process is heard that is held. -/
theorem Fresh.heard_in_time (h : s.Fresh) {hs : List Happening} (ho : s.Orderly hs) :
    ∀ e ∈ s.heardSince (hs.map .happens),
      (s.through hs).server.supervisor.held = some e.1 := by
  refine (through_induction (P := fun hs t => Steady t ∧
    ∀ e ∈ s.heardSince (hs.map .happens), t.server.supervisor.held = some e.1)
    ⟨h.steady, nofun⟩ ?_ ho).2
  intro hs x hx ⟨hsteady, hheard⟩
  have hkept := hsteady.attended.kept
  refine ⟨hsteady.undergo hx, fun e he => ?_⟩
  rw [List.map_append, List.map_singleton, heardSince_concat, facing_map] at he
  split at he
  next hsame =>
    refine hsame.trans ?_
    rcases List.mem_append.mp he with he | he
    · exact hheard e he
    · obtain ⟨r, hr, hpid⟩ := reader_of_hears hkept.guarded he
      rw [hpid]
      exact hkept.readers r hr
  next => exact absurd he List.not_mem_nil

/-- The last announcing line out of what was read from a process gives these digits. Read was all
that it has printed but for what its stream still holds; an unfinished line counts once the stream
is closed. -/
def Proclaims (s : Session) (pid : Pid) (printed : List Text.Bytes) (digits : List CodePoint) :
    Prop :=
  ∃ seen closed, printed = seen ++ s.world.unread pid .stdout ∧
    (closed = true → s.world.isOpen pid .stdout = false) ∧
    lastAnnounced? (linesHeard seen closed) = some digits

/-- **The address is the last one told** since the process was started that is held, whatever occurs
in a session, also when output comes in after the end of its process; a start is one step. It is
known just while the server is ready, which is when a process is held and an address was told since
its start. Whoever was heard since then is the process that is held, or one that has crashed: its
readers go on beside those of its successor, so the address can be that of the one that crashed, and
it makes the other one ready. A process that was stopped or replaced is not heard any more. Who told
the address has printed it, in the last announcing line that was read of its output.

As long as each process ends together with its streams, and in time, only the process is heard that
is held, and its address stands in its last announcing line, unless an empty chunk has ended the
stream before that. -/
theorem address_last_told (h : s.Fresh) (xs : List Eventuality) :
    let t := s.facing xs
    let told := lastTold? (s.heardSince xs)
    t.server.address = (if t.server.supervisor.held.isSome then told.map (localAddress ·.2)
      else none) ∧
    (t.server.supervisor.state = .ready ↔
      t.server.supervisor.held.isSome = true ∧ told.isSome = true) ∧
    (∀ e ∈ s.heardSince xs, t.server.supervisor.held = some e.1 ∨ s.CrashedWith e.1 xs) ∧
    (∀ pid digits, told = some (pid, digits) → Proclaims t pid (s.emitted pid xs) digits) ∧
    ∀ hs, xs = hs.map .happens → s.Orderly hs →
      (∀ e ∈ s.heardSince xs, t.server.supervisor.held = some e.1) ∧
      ∀ address, t.server.address = some address → ∃ pid,
        t.server.supervisor.held = some pid ∧ Announces t pid (s.printed pid hs) address := by
  have hheeds := h.heeds xs
  refine ⟨hheeds.address, hheeds.ready, hheeds.speakers, fun pid digits htold => ?_, ?_⟩
  · obtain ⟨⟨e, he, hpid⟩, hlast⟩ := lastTold?_eq_some htold
    obtain ⟨seen, closed, ho⟩ := (h.recalls xs).overhears pid (hpid ▸ hheeds.speakers e he)
    exact ⟨seen, closed, ho.split, ho.shut, lastAnnounced?_of_suffix ho.last hlast⟩
  · rintro hs rfl ho
    rw [facing_map]
    refine ⟨h.heard_in_time ho, fun address ha => ?_⟩
    obtain ⟨pid, known, hheld, hknown, hannounces⟩ :=
      (h.listens ho).announces (address_eq_some.mp ha).1
    cases ha.symm.trans hknown
    exact ⟨pid, hheld, hannounces⟩

/-! A server that crashes, another one that is started after it, and then the output of the first;
and a server whose output goes on after an empty chunk. -/

def lingering : List Eventuality :=
  [.happens (.act (.ask .startServer)), .happens (.act .step), .happens (.act .step),
    .happens (.act .step), .happens (.act .step), .departs 1 (some 1) .zero,
    .happens (.act .step), .happens (.act (.ask .startServer)), .happens (.act .step),
    .happens (.act .step), .happens (.act .step), .happens (.act .step),
    .arrives 1 .stdout (Text.utf8 "port: 4003\n".toList), .happens (.act .step)]

def hushed : List Happening :=
  [.act (.ask .startServer), .act .step, .act .step, .act .step, .act .step,
    .act (.feed 1 .stdout (Text.utf8 "port: 8\n".toList)), .act .step,
    .act (.feed 1 .stdout []), .act .step,
    .act (.feed 1 .stdout (Text.utf8 "port: 9\n".toList)), .act .step]

theorem address_of_crashed : quiet.Fresh ∧
    (quiet.facing lingering).server.supervisor.held = some 2 ∧
    (quiet.facing lingering).server.supervisor.state = .ready ∧
    (quiet.facing lingering).server.address = some "localhost:4003" ∧
    quiet.CrashedWith 1 lingering ∧
    Proclaims (quiet.facing lingering) 1 (quiet.emitted 1 lingering) ("4003" : Text).points ∧
    quiet.Orderly hushed ∧ (quiet.through hushed).queue = [] ∧
    (quiet.facing (hushed.map .happens)).server.address = some "localhost:8" ∧
    (∃ pid, (quiet.facing (hushed.map .happens)).server.supervisor.held = some pid ∧
      Announces (quiet.facing (hushed.map .happens)) pid (quiet.printed pid hushed)
        "localhost:8") ∧
    lastAnnounced? (linesHeard ((quiet.printed 1 hushed).filter (!·.isEmpty)) false) =
      some ("9" : Text).points := by
  obtain ⟨hheld, hheard, htold, haddress⟩ :
      (quiet.facing lingering).server.supervisor.held = some 2 ∧
      (1, ("port: 4003" : Text)) ∈ quiet.heardSince lingering ∧
      lastTold? (quiet.heardSince lingering) = some (1, ("4003" : Text).points) ∧
      localAddress ("4003" : Text).points = "localhost:4003" := by
    decide +kernel
  obtain ⟨horderly, hquiet, hstale, hlatest⟩ :
      quiet.Orderly hushed ∧ (quiet.through hushed).queue = [] ∧
      (quiet.facing (hushed.map .happens)).server.address = some "localhost:8" ∧
      lastAnnounced? (linesHeard ((quiet.printed 1 hushed).filter (!·.isEmpty)) false) =
        some ("9" : Text).points := by
    decide +kernel
  obtain ⟨hgiven, hready, hspeakers, hproclaims, -⟩ := address_last_told fresh_quiet lingering
  obtain ⟨-, -, -, -, htimely⟩ := address_last_told fresh_quiet (hushed.map .happens)
  refine ⟨fresh_quiet, hheld, hready.mpr ⟨?_, ?_⟩, hgiven.trans ?_, ?_, hproclaims 1 _ htold,
    horderly, hquiet, hstale, (htimely hushed rfl horderly).2 _ hstale, hlatest⟩
  · rw [hheld]
    rfl
  · rw [htold]
    rfl
  · rw [hheld, htold]
    exact congrArg some haddress
  · refine (hspeakers _ hheard).resolve_left ?_
    rw [hheld]
    nofun

end Session

end VerifierHost
