import VerifierHost.Process.Lingering
import VerifierHost.Proofs.Process.Pipes

/-! # What the streams hold

Only writing and reading touch what a stream holds. A process that is started, told to die, waited
for or left alone, and one that ends, with its streams or before them, leaves what they hold as it
was (`World.Holds`). -/

namespace VerifierHost

/-- A stream that is closed stays so when a stream is put in the place of one that was. -/
theorem Process.isOpen_setChannel {p : Process} {stream other : Stream} {c c' : Channel}
    (hc : p.channel stream = some c) (hclosed : c.closed = true → c'.closed = true)
    (h : p.isOpen other = false) : (p.setChannel stream (some c')).isOpen other = false := by
  by_cases ho : other = stream
  · subst ho
    rw [isOpen, hc, Option.any_some, Bool.not_eq_false'] at h
    rw [isOpen, setChannel_channel_self, Option.any_some, hclosed h]
    rfl
  · rwa [isOpen, setChannel_channel_of_ne ho]

namespace World

variable {w w' w'' : World} {pid q : Pid} {p p' : Process} {stream other : Stream}

/-- Processes are numbered in the order of their starts. -/
def Numbered (w : World) : Prop := ∀ p ∈ w.processes, p.pid ≤ w.processes.length

/-- From one world to another processes may have been started, and no stream was opened again. -/
structure Outlasts (w w' : World) : Prop where
  numbered : w.Numbered → w'.Numbered
  length : w.processes.length ≤ w'.processes.length
  shut : ∀ q ≤ w.processes.length, ∀ stream, w.isOpen q stream = false →
    w'.isOpen q stream = false

/-- The streams hold what they did, but for those of processes that were started. -/
structure Holds (w w' : World) : Prop extends Outlasts w w' where
  unread : ∀ q ≤ w.processes.length, ∀ stream, w'.unread q stream = w.unread q stream

theorem Numbered.process?_eq_none (h : w.Numbered) (hlt : w.processes.length < pid) :
    w.process? pid = none := by
  cases hp : w.process? pid with
  | none => rfl
  | some p =>
    have hle := h p (List.mem_of_find?_eq_some hp)
    rw [pid_of_process? hp] at hle
    exact absurd hle (Nat.not_le_of_lt hlt)

theorem numbered_start (plans : List Plan) : (World.start plans).Numbered :=
  fun _ hp => absurd hp List.not_mem_nil

theorem isOpen_congr (h : w'.process? pid = w.process? pid) (stream : Stream) :
    w'.isOpen pid stream = w.isOpen pid stream := by
  rw [isOpen, isOpen, h]

namespace Outlasts

theorem refl (w : World) : Outlasts w w := ⟨id, Nat.le_refl _, fun _ _ _ => id⟩

theorem trans (h : Outlasts w w') (h' : Outlasts w' w'') : Outlasts w w'' :=
  ⟨h'.numbered ∘ h.numbered, Nat.le_trans h.length h'.length, fun q hq stream hs =>
    h'.shut q (Nat.le_trans hq h.length) stream (h.shut q hq stream hs)⟩

theorem put (clock : Millis) (hp : w.process? pid = some p) (hpid : p'.pid = p.pid)
    (hshut : ∀ stream, p.isOpen stream = false → p'.isOpen stream = false) :
    Outlasts w { w.put p' with clock } := by
  refine ⟨fun h r hr => ?_, Nat.le_of_eq (length_put ..).symm, fun q _ stream hs => ?_⟩
  · show r.pid ≤ (w.put p').processes.length
    rw [length_put]
    obtain ⟨q, hq, rfl⟩ := List.mem_map.mp hr
    split
    next he => exact he ▸ h q hq
    next => exact h q hq
  · show (w.put p').isOpen q stream = false
    have hput := process?_put_of_process? hp hpid q
    by_cases hq : pid = q
    · subst hq
      rw [if_pos rfl] at hput
      rw [World.isOpen, hp, Option.any_some] at hs
      rw [World.isOpen, hput, Option.any_some, hshut stream hs]
    · rw [if_neg hq] at hput
      rwa [isOpen_congr hput]

theorem collect (w : World) (pid : Pid) (stream : Stream) :
    Outlasts w (w.collect pid stream).1 := by
  rcases w.collect_cases pid stream with ⟨-, -, he⟩ | ⟨p, c, hp, hc, he⟩
  · rw [he]
    exact refl w
  · rw [he]
    exact put w.clock hp Process.setChannel_pid fun _ => Process.isOpen_setChannel hc id

theorem feed (w : World) (pid : Pid) (stream : Stream) (chunk : Text.Bytes) :
    Outlasts w (w.feed pid stream chunk).1 := by
  rcases w.feed_cases pid stream chunk with ⟨-, he⟩ | ⟨p, c, hp, -, hc, -, he⟩
  · rw [he]
    exact refl w
  · rw [he]
    exact put w.clock hp Process.setChannel_pid fun _ => Process.isOpen_setChannel hc id

end Outlasts

namespace Holds

theorem refl (w : World) : Holds w w := ⟨.refl w, fun _ _ _ => rfl⟩

theorem trans (h : Holds w w') (h' : Holds w' w'') : Holds w w'' :=
  ⟨h.toOutlasts.trans h'.toOutlasts, fun q hq stream =>
    (h'.unread q (Nat.le_trans hq h.length) stream).trans (h.unread q hq stream)⟩

/-- A process is put back with what its streams hold. -/
theorem put (clock : Millis) (hp : w.process? pid = some p) (hpid : p'.pid = p.pid)
    (hshut : ∀ stream, p.isOpen stream = false → p'.isOpen stream = false)
    (hchunks : ∀ stream, (p'.channel stream).map Channel.chunks =
      (p.channel stream).map Channel.chunks) : Holds w { w.put p' with clock } := by
  refine ⟨.put clock hp hpid hshut, fun q _ stream => ?_⟩
  show (w.put p').unread q stream = w.unread q stream
  have hput := process?_put_of_process? hp hpid q
  by_cases hq : pid = q
  · subst hq
    rw [if_pos rfl] at hput
    have hsame := hchunks stream
    rw [World.unread, World.unread, hput, hp, Option.bind_some, Option.bind_some]
    cases hc : p.channel stream with
    | none => rw [hc, Option.map_none, Option.map_eq_none_iff] at hsame; rw [hsame]
    | some c =>
      rw [hc, Option.map_some, Option.map_eq_some_iff] at hsame
      obtain ⟨c', hc', he⟩ := hsame
      rw [hc']
      exact he
  · rw [if_neg hq] at hput
    exact unread_congr hput stream

theorem exit (w : World) (pid : Pid) (code : ExitCode) (time : Millis) :
    Holds w (w.exit pid code time).1 := by
  rcases w.exit_cases pid code time with he | ⟨p, hp, -, he⟩
  · rw [he]
    exact refl w
  · rw [he]
    refine put _ hp rfl (fun stream _ => ?_) fun stream => ?_
    · rw [Process.isOpen, Process.finish_channel]
      cases p.channel stream <;> rfl
    · rw [Process.finish_channel]
      cases p.channel stream <;> rfl

theorem kill (w : World) (pid : Pid) : Holds w (w.kill pid).1 := by
  unfold World.kill
  split
  next => exact exit ..
  next => exact refl w

theorem abandon (w : World) (pid : Pid) : Holds w (w.abandon pid) := by
  unfold World.abandon
  split
  next => exact refl w
  next p hp =>
    refine put w.clock hp rfl (fun stream hs => ?_) fun stream => ?_
    · simp only [Process.isOpen] at hs ⊢
      cases stream with
      | stdout => simpa [Process.channel, Option.any_map, Function.comp_def] using hs
      | stderr => simpa [Process.channel, Option.any_map, Function.comp_def] using hs
    · cases stream with
      | stdout => simp [Process.channel, Function.comp_def]
      | stderr => simp [Process.channel, Function.comp_def]

theorem awaitExit (w : World) (pid : Pid) : Holds w (w.awaitExit pid).1 := by
  rcases w.awaitExit_put pid with he | ⟨p, hp, he⟩
  · rw [he]
    exact refl w
  · rw [he]
    exact put w.clock hp rfl (fun stream hs => by cases stream <;> exact hs)
      fun stream => by cases stream <;> rfl

theorem spawn (w : World) : Holds w w.spawn.1 := by
  have hgrows := grows_spawn w
  refine ⟨⟨fun h => ?_, hgrows.length, fun q hq stream hs => ?_⟩, fun q hq =>
    unread_congr (hgrows.others q hq)⟩
  · unfold World.spawn
    split
    next => exact h
    next => exact h
    next =>
      intro p hp
      rw [List.length_append, List.length_singleton]
      rcases List.mem_append.mp hp with hp | hp
      · exact Nat.le_succ_of_le (h p hp)
      · rw [List.mem_singleton.mp hp]
        exact Nat.le_refl _
  · rwa [isOpen_congr (hgrows.others q hq)]

end Holds

/-- A stream whose reader has come to its end is not open. -/
theorem isOpen_of_closed (h : (w.collect pid stream).2.2 = true) : w.isOpen pid stream = false := by
  unfold World.collect at h
  cases hp : w.process? pid with
  | none => rw [isOpen, hp]; rfl
  | some p =>
    rw [isOpen, hp, Option.any_some, Process.isOpen]
    cases hc : p.channel stream with
    | none => rfl
    | some c =>
      rw [hp] at h
      dsimp only at h
      rw [hc] at h
      rw [Option.any_some, show c.closed = true from h]
      rfl

/-! ## Streams that outlive their process -/

/-- A process that ends takes nothing of its streams along. -/
theorem Holds.depart (w : World) (pid : Pid) (code : ExitCode) (time : Millis) :
    Holds w (w.depart pid code time).1 := by
  unfold World.depart
  split
  next => exact refl w
  next p hp =>
    split
    next => exact refl w
    next =>
      exact put _ hp rfl (fun stream hs => by cases stream <;> exact hs)
        fun stream => by cases stream <;> rfl

/-- A stream that is closed holds what it held. -/
theorem Holds.hangUp (w : World) (pid : Pid) (stream : Stream) :
    Holds w (w.hangUp pid stream).1 := by
  unfold World.hangUp
  split
  next => exact refl w
  next p hp =>
    split
    next c _ hc =>
      refine put w.clock hp Process.setChannel_pid
        (fun _ => Process.isOpen_setChannel hc fun _ => rfl) fun other => ?_
      by_cases ho : other = stream
      · subst ho
        rw [Process.setChannel_channel_self, hc]
        rfl
      · rw [Process.setChannel_channel_of_ne ho]
    next => exact refl w

/-- A chunk is put behind the others and wakes the reader, or the stream is not open. -/
theorem deliver_cases (w : World) (pid : Pid) (stream : Stream) (chunk : Text.Bytes) :
    (w.isOpen pid stream = false ∧ w.deliver pid stream chunk = (w, [])) ∨
    ∃ p c, w.process? pid = some p ∧ p.channel stream = some c ∧ w.isOpen pid stream = true ∧
      w.deliver pid stream chunk =
        (w.put (p.setChannel stream
          (some { c with chunks := c.chunks ++ [chunk], awaited := false })),
        p.wakeReader stream) := by
  unfold deliver isOpen Process.isOpen
  cases hp : w.process? pid with
  | none => exact .inl ⟨rfl, rfl⟩
  | some p =>
    dsimp only
    rw [Option.any_some]
    cases hc : p.channel stream with
    | none => exact .inl ⟨rfl, rfl⟩
    | some c =>
      dsimp only
      rw [Option.any_some]
      cases hopen : c.closed with
      | true => exact .inl ⟨rfl, rfl⟩
      | false => exact .inr ⟨p, c, rfl, hc, rfl, by rw [hopen]; rfl⟩

theorem Outlasts.deliver (w : World) (pid : Pid) (stream : Stream) (chunk : Text.Bytes) :
    Outlasts w (w.deliver pid stream chunk).1 := by
  rcases w.deliver_cases pid stream chunk with ⟨-, he⟩ | ⟨p, c, hp, hc, -, he⟩
  · rw [he]
    exact refl w
  · rw [he]
    exact put w.clock hp Process.setChannel_pid fun _ => Process.isOpen_setChannel hc id

/-- What comes in comes behind what is unread. -/
theorem unread_deliver (w : World) (pid : Pid) (stream : Stream) (chunk : Text.Bytes) (q : Pid)
    (other : Stream) : (w.deliver pid stream chunk).1.unread q other =
      w.unread q other ++ if pid = q ∧ stream = other ∧ w.isOpen q other then [chunk] else [] := by
  rcases w.deliver_cases pid stream chunk with ⟨hno, he⟩ | ⟨p, c, hp, hc, hopen, he⟩
  · rw [he, if_neg, List.append_nil]
    rintro ⟨rfl, rfl, hopen⟩
    cases hno.symm.trans hopen
  · rw [he]
    dsimp only
    by_cases hq : pid = q ∧ stream = other
    · obtain ⟨rfl, rfl⟩ := hq
      rw [if_pos ⟨rfl, rfl, hopen⟩, unread_of_channel hp hc,
        unread_put_of_channel hp Process.setChannel_pid Process.setChannel_channel_self]
    · rw [if_neg (fun h => hq ⟨h.1, h.2.1⟩), List.append_nil]
      refine unread_put_of_ne hp Process.setChannel_pid fun hpq =>
        Process.setChannel_channel_of_ne fun ho => ?_
      exact hq ⟨hpq, ho.symm⟩

end World

end VerifierHost
