import VerifierHost.Proofs.Process.Waking

/-! # What the streams of processes hold

Writing puts a chunk behind the others, reading takes all of them, and nothing else changes what a
stream holds. A process that has ended, or never had a stream, cannot write to it any more. -/

namespace VerifierHost.World

open Process

variable {w : World} {pid q : Pid} {p : Process} {stream other : Stream}

/-- What a stream holds that nobody has read yet. -/
def unread (w : World) (pid : Pid) (stream : Stream) : List Text.Bytes :=
  ((w.process? pid).bind fun p => p.channel stream).elim [] Channel.chunks

/-- Whether a process can still write to a stream. -/
def canWrite (w : World) (pid : Pid) (stream : Stream) : Bool :=
  (w.process? pid).any fun p => p.exit.isNone && (p.channel stream).isSome

theorem unread_congr {w' : World} (h : w'.process? pid = w.process? pid) (stream : Stream) :
    w'.unread pid stream = w.unread pid stream := by
  rw [unread, unread, h]

theorem canWrite_congr {w' : World} (h : w'.process? pid = w.process? pid) (stream : Stream) :
    w'.canWrite pid stream = w.canWrite pid stream := by
  rw [canWrite, canWrite, h]

theorem HasEnded.congr {w' : World} (h : w'.process? pid = w.process? pid)
    (he : w.HasEnded pid) : w'.HasEnded pid := by
  obtain ⟨p, code, hp, hc⟩ := he
  exact ⟨p, code, h.trans hp, hc⟩

/-- Nobody can read what a process holds that was never started. -/
theorem unread_of_none (h : w.process? pid = none) (stream : Stream) :
    w.unread pid stream = [] := by
  rw [unread, h]
  rfl

theorem unread_of_channel {c : Channel} (hp : w.process? pid = some p)
    (hc : p.channel stream = some c) : w.unread pid stream = c.chunks := by
  rw [unread, hp, Option.bind_some, hc]
  rfl

theorem canWrite_of_process? (hp : w.process? pid = some p) :
    w.canWrite pid stream = (p.exit.isNone && (p.channel stream).isSome) := by
  rw [canWrite, hp]
  rfl

/-- Who waits for more waits for somebody who can write. -/
theorem Sane.canWrite (hw : w.Sane) (h : w.Awaits pid stream) : w.canWrite pid stream = true := by
  obtain ⟨p, c, hp, hc, ha⟩ := h
  rw [canWrite_of_process? hp, (hw.process pid p hp).reader stream c hc ha, hc]
  rfl

/-! ## A process put back -/

section Put

variable {p' : Process} (hp : w.process? pid = some p) (hpid : p'.pid = p.pid)
include hp hpid

theorem hasEnded_put (hexit : p'.exit = p.exit) : (w.put p').HasEnded q ↔ w.HasEnded q := by
  have hput := process?_put_of_process? hp hpid q
  by_cases hq : pid = q
  · subst hq
    rw [if_pos rfl] at hput
    constructor
    · rintro ⟨r, code, hr, hc⟩
      cases hput.symm.trans hr
      exact ⟨p, code, hp, hexit ▸ hc⟩
    · rintro ⟨r, code, hr, hc⟩
      cases hp.symm.trans hr
      exact ⟨p', code, hput, hexit ▸ hc⟩
  · rw [if_neg hq] at hput
    exact ⟨.congr hput.symm, .congr hput⟩

theorem unread_put_of_channel {c : Channel} (hc : p'.channel stream = some c) :
    (w.put p').unread pid stream = c.chunks :=
  unread_of_channel (process?_put_self hp hpid) hc

theorem unread_put_of_ne (h : pid = q → p'.channel other = p.channel other) :
    (w.put p').unread q other = w.unread q other := by
  have hput := process?_put_of_process? hp hpid q
  by_cases hq : pid = q
  · subst hq
    rw [if_pos rfl] at hput
    rw [unread, unread, hput, hp, Option.bind_some, Option.bind_some, h rfl]
  · rw [if_neg hq] at hput
    exact unread_congr hput other

theorem canWrite_put (hexit : p'.exit = p.exit)
    (h : (p'.channel other).isSome = (p.channel other).isSome) :
    (w.put p').canWrite q other = w.canWrite q other := by
  have hput := process?_put_of_process? hp hpid q
  by_cases hq : pid = q
  · subst hq
    rw [if_pos rfl] at hput
    rw [canWrite_of_process? hput, canWrite_of_process? hp, hexit, h]
  · rw [if_neg hq] at hput
    exact canWrite_congr hput other

theorem awaits_put_of_ne (h : pid = q → p'.channel other = p.channel other)
    (ha : w.Awaits q other) : (w.put p').Awaits q other := by
  have hput := process?_put_of_process? hp hpid q
  by_cases hq : pid = q
  · subst hq
    obtain ⟨r, c, hr, hc, ha⟩ := ha
    cases hp.symm.trans hr
    exact ⟨p', c, by rw [hput, if_pos rfl], (h rfl).trans hc, ha⟩
  · rw [if_neg hq] at hput
    exact ha.congr hput

end Put

/-! ## Writing -/

/-- A chunk is put behind the others and wakes the reader, or the process cannot write. -/
theorem feed_cases (w : World) (pid : Pid) (stream : Stream) (chunk : Text.Bytes) :
    (w.canWrite pid stream = false ∧ w.feed pid stream chunk = (w, [])) ∨
    ∃ p c, w.process? pid = some p ∧ p.exit = none ∧ p.channel stream = some c ∧
      w.canWrite pid stream = true ∧
      w.feed pid stream chunk =
        (w.put (p.setChannel stream
          (some { c with chunks := c.chunks ++ [chunk], awaited := false })),
        p.wakeReader stream) := by
  unfold feed
  cases hp : w.process? pid with
  | none => exact .inl ⟨by rw [canWrite, hp]; rfl, rfl⟩
  | some p =>
    cases he : p.exit with
    | some code =>
      refine .inl ⟨by rw [canWrite_of_process? hp, he]; rfl, ?_⟩
      dsimp only
      rw [he]
    | none =>
      cases hc : p.channel stream with
      | none =>
        refine .inl ⟨by rw [canWrite_of_process? hp, hc, Option.isSome_none, Bool.and_false], ?_⟩
        dsimp only
        rw [he, hc]
      | some c =>
        refine .inr ⟨p, c, rfl, he, hc, by rw [canWrite_of_process? hp, he, hc]; rfl, ?_⟩
        dsimp only
        rw [he, hc]

theorem hasEnded_feed {chunk : Text.Bytes} :
    (w.feed pid stream chunk).1.HasEnded q ↔ w.HasEnded q := by
  rcases w.feed_cases pid stream chunk with ⟨-, he⟩ | ⟨p, c, hp, -, -, -, he⟩
  · rw [he]
  · rw [he]
    exact hasEnded_put hp setChannel_pid setChannel_exit

theorem canWrite_feed {chunk : Text.Bytes} :
    (w.feed pid stream chunk).1.canWrite q other = w.canWrite q other := by
  rcases w.feed_cases pid stream chunk with ⟨-, he⟩ | ⟨p, c, hp, -, hc, -, he⟩
  · rw [he]
  · rw [he]
    refine canWrite_put hp setChannel_pid setChannel_exit ?_
    by_cases ho : other = stream
    · subst ho
      rw [setChannel_channel_self, hc]
      rfl
    · rw [setChannel_channel_of_ne ho]

/-- What a process writes comes behind what is unread. -/
theorem unread_feed (w : World) (pid : Pid) (stream : Stream) (chunk : Text.Bytes) (q : Pid)
    (other : Stream) : (w.feed pid stream chunk).1.unread q other =
      w.unread q other ++
        if pid = q ∧ stream = other ∧ w.canWrite q other then [chunk] else [] := by
  rcases w.feed_cases pid stream chunk with ⟨hno, he⟩ | ⟨p, c, hp, -, hc, hcan, he⟩
  · rw [he, if_neg, List.append_nil]
    rintro ⟨rfl, rfl, hcan⟩
    cases hno.symm.trans hcan
  · rw [he]
    dsimp only
    by_cases hq : pid = q ∧ stream = other
    · obtain ⟨rfl, rfl⟩ := hq
      rw [if_pos ⟨rfl, rfl, hcan⟩, unread_of_channel hp hc,
        unread_put_of_channel hp setChannel_pid setChannel_channel_self]
    · rw [if_neg (fun h => hq ⟨h.1, h.2.1⟩), List.append_nil]
      refine unread_put_of_ne hp setChannel_pid fun hpq => setChannel_channel_of_ne fun ho => ?_
      exact hq ⟨hpq, ho.symm⟩

/-- A reader that waits for more goes on doing so, or is woken. -/
theorem awaits_feed (pid : Pid) (stream : Stream) (chunk : Text.Bytes) (ha : w.Awaits q other) :
    (w.feed pid stream chunk).1.Awaits q other ∧
      (w.feed pid stream chunk).1.unread q other = w.unread q other ∨
    .output q other ∈ (w.feed pid stream chunk).2 := by
  rcases w.feed_cases pid stream chunk with ⟨hno, he⟩ | ⟨p, c, hp, -, hc, -, he⟩
  · rw [he]
    exact .inl ⟨ha, rfl⟩
  · rw [he]
    by_cases hq : pid = q ∧ stream = other
    · obtain ⟨rfl, rfl⟩ := hq
      obtain ⟨r, d, hr, hd, ha⟩ := ha
      cases hp.symm.trans hr
      have hwake := mem_wakeReader hd ha
      rw [pid_of_process? hp] at hwake
      exact .inr hwake
    · have hother : pid = q → (p.setChannel stream
          (some { c with chunks := c.chunks ++ [chunk], awaited := false })).channel other =
            p.channel other := fun hpq =>
        setChannel_channel_of_ne fun ho => hq ⟨hpq, ho.symm⟩
      exact .inl ⟨awaits_put_of_ne hp setChannel_pid hother ha,
        unread_put_of_ne hp setChannel_pid hother⟩

/-! ## Ending -/

/-- The process of an exit: it has ended before, or it ends now. -/
theorem exit_cases (w : World) (pid : Pid) (code : ExitCode) (time : Millis) :
    w.exit pid code time = (w, []) ∨
    ∃ p, w.process? pid = some p ∧ p.exit = none ∧
      w.exit pid code time =
        ({ w.put (p.finish code).1 with clock := w.clock + time }, (p.finish code).2) := by
  unfold exit
  cases hp : w.process? pid with
  | none => exact .inl rfl
  | some p =>
    cases he : p.exit with
    | some _ =>
      left
      dsimp only
      rw [he]
    | none =>
      refine .inr ⟨p, rfl, he, ?_⟩
      dsimp only
      rw [he]

/-- The end of a process changes nothing about what was written. -/
theorem unread_exit {code : ExitCode} {time : Millis} :
    (w.exit pid code time).1.unread q other = w.unread q other := by
  rcases w.exit_cases pid code time with he | ⟨p, hp, -, he⟩
  · rw [he]
  · rw [he]
    have hput : ({ w.put (p.finish code).1 with clock := w.clock + time } : World).process? q =
        (w.put (p.finish code).1).process? q := rfl
    rw [unread_congr hput]
    have hpid : (p.finish code).1.pid = p.pid := rfl
    have hfound := process?_put_of_process? hp hpid q
    by_cases hq : pid = q
    · subst hq
      rw [if_pos rfl] at hfound
      rw [unread, unread, hfound, hp, Option.bind_some, Option.bind_some, finish_channel]
      cases p.channel other <;> rfl
    · rw [if_neg hq] at hfound
      exact unread_congr hfound other

theorem canWrite_exit {code : ExitCode} {time : Millis} (h : w.canWrite q other = false) :
    (w.exit pid code time).1.canWrite q other = false := by
  rcases w.exit_cases pid code time with he | ⟨p, hp, -, he⟩
  · rwa [he]
  · rw [he]
    have hput : ({ w.put (p.finish code).1 with clock := w.clock + time } : World).process? q =
        (w.put (p.finish code).1).process? q := rfl
    rw [canWrite_congr hput]
    have hpid : (p.finish code).1.pid = p.pid := rfl
    have hfound := process?_put_of_process? hp hpid q
    by_cases hq : pid = q
    · subst hq
      rw [if_pos rfl] at hfound
      rw [canWrite_of_process? hfound, finish_exit]
      rfl
    · rw [if_neg hq] at hfound
      rwa [canWrite_congr hfound]

/-- The end of a process is no other's. -/
theorem hasEnded_exit_of_ne {code : ExitCode} {time : Millis} (hq : pid ≠ q)
    (h : (w.exit pid code time).1.HasEnded q) : w.HasEnded q :=
  .congr ((touches_exit w pid code time).others q hq).symm h

/-! ## Reading -/

/-- All that is unread is taken; the stream is closed if nobody can write to it any more. -/
theorem collect_cases (w : World) (pid : Pid) (stream : Stream) :
    (w.unread pid stream = [] ∧ w.canWrite pid stream = false ∧
      w.collect pid stream = (w, [], true)) ∨
    ∃ p c, w.process? pid = some p ∧ p.channel stream = some c ∧
      w.collect pid stream =
        (w.put (p.setChannel stream (some { c with
          chunks := [], awaited := !c.closed && !c.chunks.any List.isEmpty })),
        w.unread pid stream, c.closed) := by
  unfold collect
  cases hp : w.process? pid with
  | none => exact .inl ⟨unread_of_none hp stream, by rw [canWrite, hp]; rfl, rfl⟩
  | some p =>
    cases hc : p.channel stream with
    | none =>
      refine .inl ⟨?_, ?_, ?_⟩
      · rw [unread, hp, Option.bind_some, hc]
        rfl
      · rw [canWrite_of_process? hp, hc, Option.isSome_none, Bool.and_false]
      · dsimp only
        rw [hc]
    | some c =>
      refine .inr ⟨p, c, rfl, hc, ?_⟩
      rw [unread_of_channel hp hc]
      dsimp only
      rw [hc]

theorem collect_chunks (w : World) (pid : Pid) (stream : Stream) :
    (w.collect pid stream).2.1 = w.unread pid stream := by
  rcases w.collect_cases pid stream with ⟨hnil, -, he⟩ | ⟨p, c, -, -, he⟩
  · rw [he, hnil]
  · rw [he]

theorem unread_collect_self (w : World) (pid : Pid) (stream : Stream) :
    (w.collect pid stream).1.unread pid stream = [] := by
  rcases w.collect_cases pid stream with ⟨hnil, -, he⟩ | ⟨p, c, hp, -, he⟩
  · rw [he]
    exact hnil
  · rw [he]
    exact unread_put_of_channel hp setChannel_pid setChannel_channel_self

theorem unread_collect_of_ne (ho : other ≠ stream) :
    (w.collect pid stream).1.unread q other = w.unread q other := by
  rcases w.collect_cases pid stream with ⟨-, -, he⟩ | ⟨p, c, hp, -, he⟩
  · rw [he]
  · rw [he]
    exact unread_put_of_ne hp setChannel_pid fun _ => setChannel_channel_of_ne ho

theorem hasEnded_collect : (w.collect pid stream).1.HasEnded q ↔ w.HasEnded q := by
  rcases w.collect_cases pid stream with ⟨-, -, he⟩ | ⟨p, c, hp, -, he⟩
  · rw [he]
  · rw [he]
    exact hasEnded_put hp setChannel_pid setChannel_exit

theorem canWrite_collect : (w.collect pid stream).1.canWrite q other = w.canWrite q other := by
  rcases w.collect_cases pid stream with ⟨-, -, he⟩ | ⟨p, c, hp, hc, he⟩
  · rw [he]
  · rw [he]
    refine canWrite_put hp setChannel_pid setChannel_exit ?_
    by_cases ho : other = stream
    · subst ho
      rw [setChannel_channel_self, hc]
      rfl
    · rw [setChannel_channel_of_ne ho]

theorem canWrite_of_closed (hw : w.Sane) (h : (w.collect pid stream).2.2 = true) :
    w.canWrite pid stream = false := by
  rcases w.collect_cases pid stream with ⟨-, hno, -⟩ | ⟨p, c, hp, hc, he⟩
  · exact hno
  · rw [he] at h
    have hexit := (hw.process pid p hp).closed stream c hc
    rw [show c.closed = true from h] at hexit
    rw [canWrite_of_process? hp, ← Option.not_isSome, ← hexit]
    rfl

/-- A process that has ended has closed its streams. -/
theorem closed_of_hasEnded (hw : w.Sane) (h : w.HasEnded pid) :
    (w.collect pid stream).2.2 = true := by
  obtain ⟨p, code, hp, hexit⟩ := h
  rcases w.collect_cases pid stream with ⟨-, -, he⟩ | ⟨p', c, hp', hc, he⟩
  · rw [he]
  · cases hp.symm.trans hp'
    rw [he]
    exact ((hw.process pid p hp).closed stream c hc).trans (by rw [hexit]; rfl)

/-! ## Waiting for the end -/

theorem awaitExit_put (w : World) (pid : Pid) : (w.awaitExit pid).1 = w ∨
    ∃ p, w.process? pid = some p ∧ (w.awaitExit pid).1 = w.put { p with awaited := true } := by
  unfold awaitExit
  split
  next => exact .inl rfl
  next p hp =>
    split
    next => exact .inl rfl
    next => exact .inr ⟨p, hp, rfl⟩

theorem hasEnded_awaitExit : (w.awaitExit pid).1.HasEnded q ↔ w.HasEnded q := by
  rcases w.awaitExit_put pid with he | ⟨p, hp, he⟩
  · rw [he]
  · rw [he]
    exact hasEnded_put hp rfl rfl

theorem unread_awaitExit : (w.awaitExit pid).1.unread q other = w.unread q other := by
  rcases w.awaitExit_put pid with he | ⟨p, hp, he⟩
  · rw [he]
  · rw [he]
    exact unread_put_of_ne hp rfl fun _ => by cases other <;> rfl

theorem canWrite_awaitExit : (w.awaitExit pid).1.canWrite q other = w.canWrite q other := by
  rcases w.awaitExit_put pid with he | ⟨p, hp, he⟩
  · rw [he]
  · rw [he]
    exact canWrite_put hp rfl rfl (by cases other <;> rfl)

theorem awaits_awaitExit (ha : w.Awaits q other) : (w.awaitExit pid).1.Awaits q other := by
  rcases w.awaitExit_put pid with he | ⟨p, hp, he⟩
  · rwa [he]
  · rw [he]
    exact awaits_put_of_ne hp rfl
      (fun _ => by cases other <;> rfl) ha

/-! ## Who waited for the end

Only to ask for the end of a process makes anybody wait for it, and only who waited is woken by
it. -/

theorem AwaitsExit.of_put {p' : Process} (hp : w.process? pid = some p) (hpid : p'.pid = p.pid)
    (hawaited : p'.awaited = true → p.awaited = true) (h : (w.put p').AwaitsExit q) :
    w.AwaitsExit q := by
  obtain ⟨r, hr, ha⟩ := h
  rw [process?_put_of_process? hp hpid] at hr
  by_cases hq : pid = q
  · subst hq
    rw [if_pos rfl] at hr
    cases hr
    exact ⟨p, hp, hawaited ha⟩
  · rw [if_neg hq] at hr
    exact ⟨r, hr, ha⟩

theorem AwaitsExit.of_feed {chunk : Text.Bytes} (h : (w.feed pid stream chunk).1.AwaitsExit q) :
    w.AwaitsExit q := by
  rcases w.feed_cases pid stream chunk with ⟨-, he⟩ | ⟨p, c, hp, -, -, -, he⟩
  · rwa [he] at h
  · rw [he] at h
    exact h.of_put hp setChannel_pid (by rw [setChannel_awaited]; exact id)

theorem AwaitsExit.of_collect (h : (w.collect pid stream).1.AwaitsExit q) : w.AwaitsExit q := by
  rcases w.collect_cases pid stream with ⟨-, -, he⟩ | ⟨p, c, hp, -, he⟩
  · rwa [he] at h
  · rw [he] at h
    exact h.of_put hp setChannel_pid (by rw [setChannel_awaited]; exact id)

theorem AwaitsExit.of_exit {code : ExitCode} {time : Millis}
    (h : (w.exit pid code time).1.AwaitsExit q) : w.AwaitsExit q := by
  rcases w.exit_cases pid code time with he | ⟨p, hp, -, he⟩
  · rwa [he] at h
  · rw [he] at h
    have hput : (w.put (p.finish code).1).AwaitsExit q := h
    have hpid : (p.finish code).1.pid = p.pid := rfl
    exact hput.of_put hp hpid (by rintro ⟨⟩)

/-- Nobody waits for the end of a process yet that has just been started. -/
theorem not_awaitsExit_spawn {w' : World} (hw : w.Sane) (hs : w.spawn = (w', .ok pid)) :
    ¬ w'.AwaitsExit pid := by
  rintro ⟨p, hp, ha⟩
  unfold spawn at hs
  split at hs
  next => cases hs
  next => cases hs
  next script rest _ =>
    cases hs
    rcases List.mem_append.mp (List.mem_of_find?_eq_some hp) with hm | hm
    · have hle := hw.numbered p hm
      rw [show p.pid = _ from by simpa using List.find?_some hp] at hle
      exact Nat.not_succ_le_self _ hle
    · rw [List.mem_singleton.mp hm] at ha
      cases ha

/-- Writing wakes the reader of the stream and nobody else. -/
theorem of_mem_feed {chunk : Text.Bytes} {wake : Wake} (h : wake ∈ (w.feed pid stream chunk).2) :
    wake = .output pid stream ∧ (w.process? pid).isSome := by
  rcases w.feed_cases pid stream chunk with ⟨-, he⟩ | ⟨p, c, hp, -, -, -, he⟩
  · rw [he] at h
    exact absurd h List.not_mem_nil
  · rw [he] at h
    unfold wakeReader at h
    split at h
    · rw [List.mem_singleton.mp h, pid_of_process? hp]
      exact ⟨rfl, by rw [hp]; rfl⟩
    · exact absurd h List.not_mem_nil

/-- The end of a process wakes its readers, and its waiter if there was one. -/
theorem of_mem_exit {code : ExitCode} {time : Millis} {wake : Wake}
    (h : wake ∈ (w.exit pid code time).2) :
    (w.process? pid).isSome ∧ ∀ q, wake = .exit q → w.AwaitsExit q := by
  rcases w.exit_cases pid code time with he | ⟨p, hp, -, he⟩
  · rw [he] at h
    exact absurd h List.not_mem_nil
  · rw [he] at h
    refine ⟨by rw [hp]; rfl, ?_⟩
    rintro q rfl
    rcases List.mem_append.mp h with h | h
    · rcases List.mem_append.mp h with h | h
      all_goals
        unfold wakeReader at h
        split at h
        · cases List.mem_singleton.mp h
        · exact absurd h List.not_mem_nil
    · split at h
      next ha =>
        cases List.mem_singleton.mp h
        rw [pid_of_process? hp]
        exact ⟨p, hp, ha⟩
      next => exact absurd h List.not_mem_nil

end VerifierHost.World
