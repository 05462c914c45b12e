import VerifierHost.Proofs.Table
import VerifierHost.Process.World

/-! # Who waits for a process is woken

A reader waits for a stream and a waiter for an exit. Whatever happens to a process, each of them
either goes on waiting or is woken (`World.Stirs`). As long as the world is sane the process of
whoever waits is alive, so that nobody waits for what cannot happen any more. -/

namespace VerifierHost

/-! ## One process -/

/-- Streams are closed when the process ends, and nobody waits for a process that has ended. -/
structure Process.Sane (p : Process) : Prop where
  closed : ∀ stream c, p.channel stream = some c → c.closed = p.exit.isSome
  reader : ∀ stream c, p.channel stream = some c → c.awaited = true → p.exit = none
  waiter : p.awaited = true → p.exit = none

namespace Process

variable {p : Process} {stream other : Stream} {c : Option Channel}

@[simp] theorem setChannel_pid : (p.setChannel stream c).pid = p.pid := by cases stream <;> rfl

@[simp] theorem setChannel_exit : (p.setChannel stream c).exit = p.exit := by cases stream <;> rfl

@[simp] theorem setChannel_awaited : (p.setChannel stream c).awaited = p.awaited := by
  cases stream <;> rfl

@[simp] theorem setChannel_channel_self : (p.setChannel stream c).channel stream = c := by
  cases stream <;> rfl

theorem setChannel_channel_of_ne (h : other ≠ stream) :
    (p.setChannel stream c).channel other = p.channel other := by
  cases stream <;> cases other <;> first | rfl | exact absurd rfl h

@[simp] theorem finish_exit (code : ExitCode) : (p.finish code).1.exit = some code := rfl

theorem finish_channel (code : ExitCode) (stream : Stream) :
    (p.finish code).1.channel stream =
      (p.channel stream).map fun c => { c with closed := true, awaited := false } := by
  cases stream <;> rfl

theorem mem_wakeReader {d : Channel} (h : p.channel stream = some d) (ha : d.awaited = true) :
    Wake.output p.pid stream ∈ p.wakeReader stream := by
  simp [wakeReader, h, ha]

/-- The end of a process wakes all who wait for it. -/
theorem mem_finish_output {d : Channel} (code : ExitCode) (h : p.channel stream = some d)
    (ha : d.awaited = true) : Wake.output p.pid stream ∈ (p.finish code).2 := by
  have hw := mem_wakeReader h ha
  simp only [finish, List.mem_append]
  cases stream with
  | stdout => exact .inl (.inl hw)
  | stderr => exact .inl (.inr hw)

theorem mem_finish_exit (code : ExitCode) (h : p.awaited = true) :
    Wake.exit p.pid ∈ (p.finish code).2 := by
  simp [finish, h]

namespace Sane

theorem setChannel (h : p.Sane) (d : Channel) (hclosed : d.closed = p.exit.isSome)
    (hawaited : d.awaited = true → p.exit = none) : (p.setChannel stream (some d)).Sane := by
  refine ⟨?_, ?_, ?_⟩
  · intro other e he
    rw [setChannel_exit]
    by_cases ho : other = stream
    · subst ho
      rw [setChannel_channel_self] at he
      cases he
      exact hclosed
    · rw [setChannel_channel_of_ne ho] at he
      exact h.closed other e he
  · intro other e he
    rw [setChannel_exit]
    by_cases ho : other = stream
    · subst ho
      rw [setChannel_channel_self] at he
      cases he
      exact hawaited
    · rw [setChannel_channel_of_ne ho] at he
      exact h.reader other e he
  · simpa using h.waiter

theorem finish (code : ExitCode) : (p.finish code).1.Sane := by
  refine ⟨?_, ?_, fun ha => by cases ha⟩
  all_goals
    intro stream c hc
    rw [finish_channel] at hc
    obtain ⟨d, -, rfl⟩ := Option.map_eq_some_iff.mp hc
  · rfl
  · intro ha; cases ha

theorem begin (pid : Pid) (script : Script) : (World.begin pid script).Sane := by
  refine ⟨?_, ?_, fun ha => by cases ha⟩
  all_goals
    intro stream c hc
    have hc : ∃ chunks, c = ⟨chunks, script.exit.isSome, false⟩ := by
      cases stream
      all_goals
        obtain ⟨chunks, -, rfl⟩ := Option.map_eq_some_iff.mp hc
        exact ⟨chunks, rfl⟩
    obtain ⟨chunks, rfl⟩ := hc
  · rfl
  · intro ha; cases ha

end Sane

end Process

namespace World

open Process

variable {w : World} {pid q : Pid} {p : Process}

/-! ## Finding processes -/

theorem pid_of_process? (h : w.process? pid = some p) : p.pid = pid := by
  simpa using List.find?_some h

theorem process?_put (w : World) (p : Process) (q : Pid) :
    (w.put p).process? q =
      if p.pid = q then (w.process? q).map fun _ => p else w.process? q :=
  find?_map_replace Process.pid w.processes p q

/-- Putting back a process that was found changes nothing about the others. -/
theorem process?_put_of_process? {p' : Process} (h : w.process? pid = some p)
    (hp : p'.pid = p.pid) (q : Pid) :
    (w.put p').process? q = if pid = q then some p' else w.process? q := by
  rw [process?_put, hp, pid_of_process? h]
  by_cases hq : pid = q
  · subst hq; simp [h]
  · simp [hq]

theorem process?_put_self {p' : Process} (h : w.process? pid = some p) (hp : p'.pid = p.pid) :
    (w.put p').process? pid = some p' :=
  (process?_put_of_process? h hp pid).trans (if_pos rfl)

@[simp] theorem length_put (w : World) (p : Process) :
    (w.put p).processes.length = w.processes.length := List.length_map ..

/-! ## Waiting -/

/-- Processes are numbered in the order of their starts, and each is sane. -/
structure Sane (w : World) : Prop where
  numbered : ∀ p ∈ w.processes, p.pid ≤ w.processes.length
  process : ∀ pid p, w.process? pid = some p → p.Sane

/-- A reader waits for a stream. -/
def Awaits (w : World) (pid : Pid) (stream : Stream) : Prop :=
  ∃ p c, w.process? pid = some p ∧ p.channel stream = some c ∧ c.awaited = true

/-- A waiter waits for an exit. -/
def AwaitsExit (w : World) (pid : Pid) : Prop :=
  ∃ p, w.process? pid = some p ∧ p.awaited = true

/-- A process was started and has ended. -/
def HasEnded (w : World) (pid : Pid) : Prop :=
  ∃ p code, w.process? pid = some p ∧ p.exit = some code

theorem Sane.not_awaits (h : w.Sane) (hw : w.HasEnded pid) (stream : Stream) :
    ¬ w.Awaits pid stream := by
  rintro ⟨p, c, hp, hc, ha⟩
  obtain ⟨p', code, hp', hexit⟩ := hw
  rw [hp] at hp'
  cases hp'
  cases hexit.symm.trans ((h.process pid p hp).reader stream c hc ha)

theorem Sane.not_awaitsExit (h : w.Sane) (hw : w.HasEnded pid) : ¬ w.AwaitsExit pid := by
  rintro ⟨p, hp, ha⟩
  obtain ⟨p', code, hp', hexit⟩ := hw
  rw [hp] at hp'
  cases hp'
  cases hexit.symm.trans ((h.process pid p hp).waiter ha)

theorem Sane.le_of_process? (h : w.Sane) (hp : w.process? pid = some p) :
    pid ≤ w.processes.length := by
  have := h.numbered p (List.mem_of_find?_eq_some hp)
  rwa [pid_of_process? hp] at this

theorem Sane.start (plans : List Plan) : (World.start plans).Sane :=
  ⟨fun _ hp => absurd hp List.not_mem_nil, fun _ _ hp => by cases hp⟩

theorem Sane.put {p' : Process} (h : w.Sane) (hp : w.process? pid = some p)
    (hpid : p'.pid = p.pid) (hsane : p'.Sane) : (w.put p').Sane := by
  constructor
  · intro r hr
    rw [length_put]
    obtain ⟨q, hq, rfl⟩ := List.mem_map.mp hr
    by_cases he : q.pid = p'.pid
    · rw [if_pos he, ← he]; exact h.numbered q hq
    · rw [if_neg he]; exact h.numbered q hq
  · intro q r hr
    rw [process?_put_of_process? hp hpid] at hr
    by_cases hq : pid = q
    · rw [if_pos hq] at hr; cases hr; exact hsane
    · rw [if_neg hq] at hr; exact h.process q r hr

theorem HasEnded.put {p' : Process} (h : w.HasEnded q) (hp : w.process? pid = some p)
    (hpid : p'.pid = p.pid) (hexit : p.exit.isSome → p'.exit.isSome) : (w.put p').HasEnded q := by
  obtain ⟨r, code, hr, hc⟩ := h
  by_cases hq : pid = q
  · subst hq
    rw [hp] at hr
    cases hr
    obtain ⟨code', hc'⟩ := Option.isSome_iff_exists.mp (hexit (by simp [hc]))
    exact ⟨p', code', by simp [process?_put_of_process? hp hpid], hc'⟩
  · exact ⟨r, code, by simpa [process?_put_of_process? hp hpid, hq] using hr, hc⟩

/-! ## What is done to one process -/

/-- Something is done about one process; the others stay as they are. -/
structure Touches (pid : Pid) (w w' : World) : Prop where
  sane : w.Sane → w'.Sane
  length : w'.processes.length = w.processes.length
  others : ∀ q, pid ≠ q → w'.process? q = w.process? q
  known : ∀ q, (w'.process? q).isSome = (w.process? q).isSome
  ended : ∀ q, w.HasEnded q → w'.HasEnded q

theorem Touches.refl (pid : Pid) (w : World) : Touches pid w w :=
  ⟨id, rfl, fun _ _ => rfl, fun _ => rfl, fun _ h => h⟩

theorem Touches.put {p' : Process} (clock : Millis) (hp : w.process? pid = some p)
    (hpid : p'.pid = p.pid) (hsane : p.Sane → p'.Sane)
    (hexit : p.exit.isSome → p'.exit.isSome) : Touches pid w { w.put p' with clock } where
  sane h :=
    have hput := h.put hp hpid (hsane (h.process pid p hp))
    ⟨hput.numbered, hput.process⟩
  length := length_put ..
  others q hq := (process?_put_of_process? hp hpid q).trans (if_neg hq)
  known q := by
    have hput := process?_put_of_process? hp hpid q
    by_cases hq : pid = q
    · subst hq
      rw [if_pos rfl] at hput
      exact (congrArg Option.isSome hput).trans (by rw [hp]; rfl)
    · rw [if_neg hq] at hput
      exact congrArg Option.isSome hput
  ended _ h := h.put hp hpid hexit

theorem touches_feed (w : World) (pid : Pid) (stream : Stream) (chunk : Text.Bytes) :
    Touches pid w (w.feed pid stream chunk).1 := by
  unfold feed
  split
  next => exact .refl ..
  next p hp =>
    split
    next c hexit hc =>
      refine Touches.put w.clock hp setChannel_pid (fun h => ?_) (by simp)
      exact h.setChannel _ (h.closed stream c hc) (fun ha => by cases ha)
    next => exact .refl ..

theorem touches_exit (w : World) (pid : Pid) (code : ExitCode) (time : Millis) :
    Touches pid w (w.exit pid code time).1 := by
  unfold exit
  split
  next => exact .refl ..
  next p hp =>
    split
    next => exact .refl ..
    next => exact Touches.put _ hp rfl (fun _ => .finish code) (by simp)

theorem touches_kill (w : World) (pid : Pid) : Touches pid w (w.kill pid).1 := by
  unfold kill
  split
  next => exact touches_exit ..
  next => exact .refl ..

theorem touches_collect (w : World) (pid : Pid) (stream : Stream) :
    Touches pid w (w.collect pid stream).1 := by
  unfold collect
  split
  next => exact .refl ..
  next p hp =>
    split
    next => exact .refl ..
    next c hc =>
      refine Touches.put w.clock hp setChannel_pid (fun h => ?_) (by simp)
      refine h.setChannel _ (h.closed stream c hc) fun ha => ?_
      have hopen : c.closed = false := by
        cases hcl : c.closed with
        | false => rfl
        | true => simp [hcl] at ha
      rw [h.closed stream c hc] at hopen
      simpa using hopen

theorem touches_awaitExit (w : World) (pid : Pid) : Touches pid w (w.awaitExit pid).1 := by
  unfold awaitExit
  split
  next => exact .refl ..
  next p hp =>
    split
    next => exact .refl ..
    next hexit =>
      exact Touches.put w.clock hp rfl (fun h => ⟨h.closed, h.reader, fun _ => hexit⟩) id

theorem touches_abandon (w : World) (pid : Pid) : Touches pid w (w.abandon pid) := by
  unfold abandon
  split
  next => exact .refl ..
  next p hp =>
    have hleave : ∀ stream, Process.channel
        { p with
          stdout := p.stdout.map fun c => { c with awaited := false }
          stderr := p.stderr.map fun c => { c with awaited := false }
          awaited := false } stream =
        (p.channel stream).map fun c => { c with awaited := false } := by
      intro stream
      cases stream <;> rfl
    refine Touches.put w.clock hp rfl (fun h => ⟨?_, ?_, fun ha => by cases ha⟩) id
    all_goals
      intro stream c hc
      rw [hleave] at hc
      obtain ⟨d, hd, rfl⟩ := Option.map_eq_some_iff.mp hc
    · exact h.closed stream d hd
    · intro ha; cases ha

theorem Awaits.congr {w' : World} {stream : Stream} (h : w'.process? pid = w.process? pid)
    (ha : w.Awaits pid stream) : w'.Awaits pid stream := by
  obtain ⟨p, c, hp, hc, ha⟩ := ha
  exact ⟨p, c, h.trans hp, hc, ha⟩

theorem AwaitsExit.congr {w' : World} (h : w'.process? pid = w.process? pid)
    (ha : w.AwaitsExit pid) : w'.AwaitsExit pid := by
  obtain ⟨p, hp, ha⟩ := ha
  exact ⟨p, h.trans hp, ha⟩

/-! ## No wake-up is lost -/

/-- Whoever waits goes on waiting or is woken. -/
structure Stirs (w w' : World) (wakes : List Wake) : Prop where
  reader : ∀ pid stream, w.Awaits pid stream → w'.Awaits pid stream ∨ .output pid stream ∈ wakes
  waiter : ∀ pid, w.AwaitsExit pid → w'.AwaitsExit pid ∨ .exit pid ∈ wakes

theorem Stirs.refl (w : World) : Stirs w w [] := ⟨fun _ _ => .inl, fun _ => .inl⟩

theorem stirs_feed (w : World) (pid : Pid) (stream : Stream) (chunk : Text.Bytes) :
    Stirs w (w.feed pid stream chunk).1 (w.feed pid stream chunk).2 := by
  have htouch := touches_feed w pid stream chunk
  unfold feed at htouch ⊢
  split
  next => exact .refl w
  next p hp =>
    rw [hp] at htouch
    dsimp only at htouch
    split
    next c hexit hc =>
      rw [hexit, hc] at htouch
      constructor
      · intro q other ha
        by_cases hq : pid = q
        · subst hq
          obtain ⟨p', d, hp', hd, ha⟩ := ha
          rw [hp] at hp'
          cases hp'
          by_cases ho : other = stream
          · subst ho
            have hw := mem_wakeReader hd ha
            rw [pid_of_process? hp] at hw
            exact .inr hw
          · exact .inl ⟨_, d, process?_put_self hp setChannel_pid,
              (setChannel_channel_of_ne ho).trans hd, ha⟩
        · exact .inl (ha.congr (htouch.others q hq))
      · intro q ha
        by_cases hq : pid = q
        · subst hq
          obtain ⟨p', hp', ha⟩ := ha
          rw [hp] at hp'
          cases hp'
          exact .inl ⟨_, process?_put_self hp setChannel_pid, setChannel_awaited.trans ha⟩
        · exact .inl (ha.congr (htouch.others q hq))
    next => exact .refl w

theorem stirs_exit (w : World) (pid : Pid) (code : ExitCode) (time : Millis) :
    Stirs w (w.exit pid code time).1 (w.exit pid code time).2 := by
  have htouch := touches_exit w pid code time
  unfold exit at htouch ⊢
  split
  next => exact .refl w
  next p hp =>
    rw [hp] at htouch
    dsimp only at htouch
    split
    next => exact .refl w
    next hexit =>
      rw [hexit] at htouch
      constructor
      · intro q stream ha
        by_cases hq : pid = q
        · subst hq
          obtain ⟨p', d, hp', hd, ha⟩ := ha
          rw [hp] at hp'
          cases hp'
          have hw := mem_finish_output code hd ha
          rw [pid_of_process? hp] at hw
          exact .inr hw
        · exact .inl (ha.congr (htouch.others q hq))
      · intro q ha
        by_cases hq : pid = q
        · subst hq
          obtain ⟨p', hp', ha⟩ := ha
          rw [hp] at hp'
          cases hp'
          have hw := mem_finish_exit code ha
          rw [pid_of_process? hp] at hw
          exact .inr hw
        · exact .inl (ha.congr (htouch.others q hq))

theorem stirs_kill (w : World) (pid : Pid) : Stirs w (w.kill pid).1 (w.kill pid).2 := by
  unfold kill
  split
  next => exact stirs_exit ..
  next => exact .refl w

/-! ## Waiting again -/

/-- A reader that has not come to the end of its stream waits for more. -/
theorem awaits_collect (hclosed : (w.collect pid stream).2.2 = false)
    (hopen : (w.collect pid stream).2.1.any List.isEmpty = false) :
    (w.collect pid stream).1.Awaits pid stream := by
  unfold collect at *
  split at hclosed
  next => cases hclosed
  next p hp =>
    rw [hp] at hopen
    dsimp only at hopen ⊢
    split at hclosed
    next => cases hclosed
    next c hc =>
      rw [hc] at hopen
      refine ⟨_, _, process?_put_self hp setChannel_pid, setChannel_channel_self, ?_⟩
      dsimp only at hclosed hopen ⊢
      rw [hclosed, hopen]
      rfl

theorem awaits_collect_of_ne {stream other : Stream} (ho : other ≠ stream)
    (ha : w.Awaits pid other) : (w.collect pid stream).1.Awaits pid other := by
  obtain ⟨p, d, hp, hd, ha⟩ := ha
  unfold collect
  rw [hp]
  dsimp only
  split
  next => exact ⟨p, d, hp, hd, ha⟩
  next c hc =>
    exact ⟨_, d, process?_put_self hp setChannel_pid,
      (setChannel_channel_of_ne ho).trans hd, ha⟩

theorem awaitsExit_collect {stream : Stream} (ha : w.AwaitsExit q) :
    (w.collect pid stream).1.AwaitsExit q := by
  by_cases hq : pid = q
  · subst hq
    obtain ⟨p, hp, ha⟩ := ha
    unfold collect
    rw [hp]
    dsimp only
    split
    next => exact ⟨p, hp, ha⟩
    next c hc =>
      exact ⟨_, process?_put_self hp setChannel_pid, setChannel_awaited.trans ha⟩
  · exact ha.congr ((touches_collect w pid stream).others q hq)

/-- Whoever asks for the exit of a process gets it or waits for it. -/
theorem awaitExit_cases (hp : w.process? pid = some p) :
    (∃ code, p.exit = some code ∧ w.awaitExit pid = (w, some code)) ∨
      (p.exit = none ∧ (w.awaitExit pid).2 = none ∧ (w.awaitExit pid).1.AwaitsExit pid) := by
  unfold awaitExit
  rw [hp]
  dsimp only
  cases hexit : p.exit with
  | some code => exact .inl ⟨code, rfl, rfl⟩
  | none =>
    exact .inr ⟨rfl, rfl, _, process?_put_self hp rfl, rfl⟩

/-! ## Starts -/

/-- What a start changes: there may be one more process, with the next number. -/
structure Grows (w w' : World) : Prop where
  sane : w.Sane → w'.Sane
  length : w.processes.length ≤ w'.processes.length
  others : ∀ q ≤ w.processes.length, w'.process? q = w.process? q

theorem grows_spawn (w : World) : Grows w w.spawn.1 := by
  unfold spawn
  split
  next => exact ⟨id, Nat.le_refl _, fun _ _ => rfl⟩
  next => exact ⟨fun h => ⟨h.numbered, h.process⟩, Nat.le_refl _, fun _ _ => rfl⟩
  next script rest _ =>
    have hothers : ∀ q ≤ w.processes.length,
        ((w.processes ++ [begin (w.processes.length + 1) script]).find? fun p => p.pid = q) =
          w.process? q := by
      intro q hq
      have hne : (begin (w.processes.length + 1) script).pid ≠ q :=
        fun he => absurd (he ▸ hq) (Nat.not_succ_le_self _)
      rw [List.find?_append, process?]
      simp [hne]
    refine ⟨fun h => ⟨?_, ?_⟩, by simp, hothers⟩
    · intro p hp
      rw [List.length_append, List.length_singleton]
      rcases List.mem_append.mp hp with hp | hp
      · exact Nat.le_succ_of_le (h.numbered p hp)
      · exact Nat.le_of_eq (congrArg Process.pid (List.mem_singleton.mp hp))
    · intro q p hp
      rcases List.mem_append.mp (List.mem_of_find?_eq_some hp) with hm | hm
      · have hq : q ≤ w.processes.length := by
          have hpid : p.pid = q := by simpa using List.find?_some hp
          exact hpid ▸ h.numbered p hm
        exact h.process q p ((hothers q hq).symm.trans hp)
      · rw [List.mem_singleton.mp hm]
        exact Process.Sane.begin ..

theorem spawn_ok {w' : World} (hs : w.spawn = (w', .ok pid)) :
    pid = w.processes.length + 1 ∧ pid ≤ w'.processes.length ∧ (w'.process? pid).isSome := by
  unfold spawn at hs
  split at hs
  next => cases hs
  next => cases hs
  next script rest _ =>
    cases hs
    refine ⟨rfl, by simp, ?_⟩
    simp [process?, begin]

end World

end VerifierHost
