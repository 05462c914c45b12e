import VerifierHost.Proofs.Server.Hearing
import VerifierHost.Proofs.Server.Handover

/-! # Output that comes after a crash

Nobody lets the readers of a process go when it has crashed: they go on until its streams are
closed. So in a history where streams outlive their processes (`Session.facing`) what is heard since
a process was started (`Session.heardSince`) may come from one that crashed before that. Whatever
occurs, either one reader of the server goes on or nothing is heard (`Session.face_cases`). -/

namespace VerifierHost

/-- The last announcement in the lines of several processes, and whose it is. -/
def lastTold? (lines : List (Pid × Text)) : Option (Pid × List CodePoint) :=
  (lines.filterMap fun (pid, line) => (announcedIn? line.points).map (pid, ·)).getLast?

theorem lastTold?_append (xs ys : List (Pid × Text)) :
    lastTold? (xs ++ ys) = (lastTold? ys).or (lastTold? xs) := by
  rw [lastTold?, List.filterMap_append, List.getLast?_append]
  rfl

/-- The lines of one process. -/
theorem lastTold?_map (pid : Pid) (lines : List Text) :
    lastTold? (lines.map (pid, ·)) = (lastAnnounced? lines).map (pid, ·) := by
  rw [lastTold?, lastAnnounced?, List.filterMap_map, ← List.getLast?_map, List.map_filterMap]
  rfl

/-- All that may occur. Besides what happens in a world where a process closes its streams when it
ends, a process may end before its streams do, and what it has written may come in later. -/
inductive Eventuality where
  | happens (x : Happening)
  /-- A process ends, and its streams stay open. -/
  | departs (pid : Pid) (code : ExitCode) (time : Millis)
  /-- A chunk comes in through a stream that is open. -/
  | arrives (pid : Pid) (stream : Stream) (chunk : Text.Bytes)
  | hangsUp (pid : Pid) (stream : Stream)

namespace Session

/-- Something is done about a process, which wakes readers and waiters. -/
def stirred (s : Session) (result : World × List Wake) : Session :=
  { s with world := result.1 }.enqueue (result.2.map .wake)

def face (s : Session) : Eventuality → Session
  | .happens x => s.undergo x
  | .departs pid code time => s.stirred (s.world.depart pid code time)
  | .arrives pid stream chunk => s.stirred (s.world.deliver pid stream chunk)
  | .hangsUp pid stream => s.stirred (s.world.hangUp pid stream)

def facing (s : Session) (xs : List Eventuality) : Session := xs.foldl face s

/-- The reader of the server that goes on in the next step. -/
def readsNext? (s : Session) : Option StreamReader :=
  match s.queue with
  | .wake (.output pid stream) :: _ =>
    if (s.engine.run? pid).isNone then s.server.supervisor.reader? pid stream else none
  | _ => none

/-- The lines that a reader of the server gets out of what its stream holds. -/
def linesOf (s : Session) (r : StreamReader) : List Text :=
  let (_, chunks, closed) := s.world.collect r.pid r.stream
  (r.read chunks closed).2.1

/-- What the server hears: the lines of an output in which it looks for an address. -/
def hears (s : Session) : Eventuality → List (Pid × Text)
  | .happens (.act .step) =>
    match s.readsNext? with
    | some r =>
      if r.stream = .stdout ∧ r.lineUse = .announced then (s.linesOf r).map (r.pid, ·) else []
    | none => []
  | _ => []

/-- A session after some eventualities, with all that it has heard since the process was started
that is held, or was let go. -/
def attending (s : Session) (xs : List Eventuality) : Session × List (Pid × Text) :=
  xs.foldl (fun (t, heard) x =>
    (t.face x, if (t.face x).server.supervisor.held = t.server.supervisor.held
      then heard ++ t.hears x else [])) (s, [])

/-- What was heard since the process was started that is held, or was let go. -/
def heardSince (s : Session) (xs : List Eventuality) : List (Pid × Text) := (s.attending xs).2

/-- What an eventuality adds to what a process has printed. -/
def emits (s : Session) (pid : Pid) : Eventuality → List Text.Bytes
  | .happens x => s.prints pid x
  | .arrives p .stdout chunk => if p = pid ∧ s.world.isOpen pid .stdout then [chunk] else []
  | .arrives _ .stderr _ | .departs .. | .hangsUp .. => []

/-- All that a process has printed, before its end or after it. -/
def emitted (s : Session) (pid : Pid) : List Eventuality → List Text.Bytes
  | [] => []
  | x :: rest => s.emits pid x ++ (s.face x).emitted pid rest

/-- A process was held until it ended by itself. -/
def CrashedWith (s : Session) (pid : Pid) (xs : List Eventuality) : Prop :=
  ∃ before x after, xs = before ++ x :: after ∧
    (s.facing before).server.supervisor.held = some pid ∧
    ((s.facing before).face x).server.supervisor.state = .crashed

@[simp] theorem facing_concat (s : Session) (xs : List Eventuality) (x : Eventuality) :
    s.facing (xs ++ [x]) = (s.facing xs).face x := by
  simp [facing]

theorem attending_concat (s : Session) (xs : List Eventuality) (x : Eventuality) :
    s.attending (xs ++ [x]) = ((s.attending xs).1.face x,
      if ((s.attending xs).1.face x).server.supervisor.held =
        (s.attending xs).1.server.supervisor.held
      then (s.attending xs).2 ++ (s.attending xs).1.hears x else []) := by
  rw [attending, List.foldl_append]
  rfl

theorem attending_fst (s : Session) (xs : List Eventuality) :
    (s.attending xs).1 = s.facing xs := by
  induction xs using List.reverseRecOn with
  | nil => rfl
  | append_singleton xs x ih => rw [attending_concat, facing_concat, ih]

theorem heardSince_concat (s : Session) (xs : List Eventuality) (x : Eventuality) :
    s.heardSince (xs ++ [x]) =
      if ((s.facing xs).face x).server.supervisor.held = (s.facing xs).server.supervisor.held
      then s.heardSince xs ++ (s.facing xs).hears x else [] := by
  rw [heardSince, attending_concat, attending_fst]
  rfl

theorem facing_map (s : Session) (hs : List Happening) :
    s.facing (hs.map .happens) = s.through hs := List.foldl_map

theorem emitted_concat (s : Session) (pid : Pid) (xs : List Eventuality) (x : Eventuality) :
    s.emitted pid (xs ++ [x]) = s.emitted pid xs ++ (s.facing xs).emits pid x := by
  induction xs generalizing s with
  | nil => simp [emitted, facing]
  | cons y rest ih =>
    rw [List.cons_append, emitted, emitted, ih, List.append_assoc]
    rfl

/-- The last eventuality is a crash, or one of those before. -/
theorem crashedWith_concat {s : Session} {pid : Pid} {xs : List Eventuality} {x : Eventuality} :
    s.CrashedWith pid (xs ++ [x]) ↔ s.CrashedWith pid xs ∨
      (s.facing xs).server.supervisor.held = some pid ∧
        ((s.facing xs).face x).server.supervisor.state = .crashed := by
  constructor
  · rintro ⟨before, y, after, he, hheld, hstate⟩
    rcases List.eq_nil_or_concat after with rfl | ⟨after, z, rfl⟩
    · obtain ⟨rfl, hy⟩ := List.append_inj' he rfl
      cases hy
      exact .inr ⟨hheld, hstate⟩
    · rw [List.concat_eq_append, ← List.cons_append, ← List.append_assoc] at he
      obtain ⟨rfl, -⟩ := List.append_inj' he rfl
      exact .inl ⟨before, y, after, rfl, hheld, hstate⟩
  · rintro (⟨before, y, after, rfl, hheld, hstate⟩ | ⟨hheld, hstate⟩)
    · exact ⟨before, y, after ++ [x], by simp, hheld, hstate⟩
    · exact ⟨xs, x, [], rfl, hheld, hstate⟩

/-! ## What can occur -/

variable {s t : Session} {x : Eventuality} {n : Notice} {pid : Pid} {stream : Stream}
  {rest : List Notice}

theorem readsNext?_eq_none (hq : s.queue = n :: rest)
    (hn : ∀ pid stream, n ≠ .wake (.output pid stream)) : s.readsNext? = none := by
  unfold readsNext?
  rw [hq]
  split
  next pid stream _ he =>
    cases he
    exact absurd rfl (hn pid stream)
  next => rfl

theorem readsNext?_of_queue (hq : s.queue = .wake (.output pid stream) :: rest) :
    s.readsNext? = if (s.engine.run? pid).isNone then s.server.supervisor.reader? pid stream
      else none := by
  rw [readsNext?, hq]

theorem hears_step_of_none (h : s.readsNext? = none) : s.hears (.happens (.act .step)) = [] := by
  rw [hears, h]

/-- Nothing is printed when nobody writes and what is unread stays as it is. -/
theorem emits_of_unread {x : Happening} (hx : ∀ p stream chunk, x ≠ .act (.feed p stream chunk))
    (h : (s.undergo x).world.unread pid .stdout = s.world.unread pid .stdout) :
    s.emits pid (.happens x) = [] := by
  cases hp : s.world.process? pid with
  | none => exact (prints_of_none hp).trans (h.trans (World.unread_of_none hp _))
  | some p => exact prints_of_some hx hp

/-- What an eventuality does that lets no reader of the server go on. -/
structure Fills (s : Session) (x : Eventuality) (t : Session) : Prop where
  sways : Sways s t
  silent : s.hears x = []
  outlasts : World.Outlasts s.world t.world
  unread : ∀ q ≤ s.world.processes.length, q ∉ s.engine.pids →
    t.world.unread q .stdout = s.world.unread q .stdout ++ s.emits q x

namespace Fills

/-- The server may have changed hands, and nobody has written. -/
theorem of_passesOn {x : Happening} (hx : ∀ p stream chunk, x ≠ .act (.feed p stream chunk))
    (hp : PassesOn s (s.undergo x)) (silent : s.hears (.happens x) = []) :
    Fills s (.happens x) (s.undergo x) := by
  refine ⟨hp.sways, silent, hp.holds.toOutlasts, fun q hq _ => ?_⟩
  have hunread := hp.holds.unread q hq .stdout
  rw [emits_of_unread hx hunread, List.append_nil, hunread]

/-- Something is done about a process that is not a chunk from it. -/
theorem of_holds {result : World × List Wake} (hface : s.face x = s.stirred result)
    (hholds : World.Holds s.world result.1) (silent : s.hears x = [])
    (hnone : ∀ q, s.emits q x = []) : Fills s x (s.face x) := by
  rw [hface]
  refine ⟨.rests (.refl _) rfl, silent, hholds.toOutlasts, fun q hq _ => ?_⟩
  rw [hnone q, List.append_nil]
  exact hholds.unread q hq .stdout

/-- A reader of a verifier goes on. -/
theorem readVerifier {r : ActiveRun} (hr : r ∈ s.engine.runs) (hnext : s.readsNext? = none)
    (hstep : s.step = Session.readVerifier { s with queue := rest } r stream) :
    Fills s (.happens (.act .step)) s.step := by
  have hcollected := World.touches_collect s.world r.pid stream
  obtain ⟨hserver, hworld⟩ : s.step.server = s.server ∧
      (s.step.world = s.world ∨ s.step.world = (s.world.collect r.pid stream).1) := by
    rw [hstep]
    unfold Session.readVerifier
    split
    next => exact ⟨rfl, .inl rfl⟩
    next => dsimp only; split <;> exact ⟨rfl, .inr rfl⟩
  obtain ⟨houtlasts, hothers⟩ : World.Outlasts s.world s.step.world ∧
      ∀ q, r.pid ≠ q → s.step.world.unread q .stdout = s.world.unread q .stdout := by
    rcases hworld with he | he
    · rw [he]
      exact ⟨.refl _, fun _ _ => rfl⟩
    · rw [he]
      exact ⟨.collect .., fun q hq => World.unread_congr (hcollected.others q hq) _⟩
  refine ⟨.rests (hserver ▸ .refl _) (congrArg SharedServer.announced hserver),
    hears_step_of_none hnext, houtlasts, fun q _ hq => ?_⟩
  have hunread := hothers q fun he => hq (he ▸ List.mem_map_of_mem hr)
  rw [emits_of_unread (x := .act .step) (by rintro _ _ _ ⟨⟩) hunread, List.append_nil, hunread]

end Fills

/-- A reader of the server goes on in an eventuality. -/
structure Reads (s : Session) (x : Eventuality) (r : StreamReader) (t : Session) : Prop where
  eventuality : x = .happens (.act .step)
  next : s.readsNext? = some r
  reader : r ∈ s.server.supervisor.readers
  result : ∃ rest, t = Session.readServer { s with queue := rest } r

theorem step_cases (hg : s.server.supervisor.Guarded) :
    (∃ r, Reads s (.happens (.act .step)) r s.step) ∨ Fills s (.happens (.act .step)) s.step := by
  have hpasses : PassesOn s s.step → s.readsNext? = none →
      Fills s (.happens (.act .step)) s.step := fun hp hnext =>
    .of_passesOn (x := .act .step) (by rintro _ _ _ ⟨⟩) hp (hears_step_of_none hnext)
  cases hq : s.queue with
  | nil =>
    refine .inr (hpasses ?_ (by rw [readsNext?, hq]))
    rw [step_nil hq]
    exact .refl s
  | cons n rest =>
    have hstep := step_cons hq
    by_cases hn : ∃ pid stream, n = .wake (.output pid stream)
    · obtain ⟨pid, stream, rfl⟩ := hn
      have hnext := readsNext?_of_queue hq
      have hread : s.step = Session.read { s with queue := rest } pid stream := hstep
      unfold Session.read at hread
      dsimp only at hread
      split at hread
      next r hr =>
        rw [hr] at hnext
        exact .inr (.readVerifier (mem_runs_of_run? hr).1 hnext hread)
      next r hr hreader =>
        rw [hr, hreader] at hnext
        exact .inl ⟨r, rfl, hnext, List.mem_of_find?_eq_some hreader, rest, hread⟩
      next hr hreader =>
        rw [hr, hreader] at hnext
        refine .inr (hpasses ?_ hnext)
        rw [hread]
        exact .of_server rfl (.refl _)
    · have hn : ∀ pid stream, n ≠ .wake (.output pid stream) := fun pid stream he =>
        hn ⟨pid, stream, he⟩
      refine .inr (hpasses ?_ (readsNext?_eq_none hq hn))
      rw [hstep]
      exact (PassesOn.react (s := { s with queue := rest }) hg hn).of_queue

/-- **Whatever occurs**, either a reader of the server goes on or nothing is heard. -/
theorem face_cases (hg : s.server.supervisor.Guarded) (x : Eventuality) :
    (∃ r, Reads s x r (s.face x)) ∨ Fills s x (s.face x) := by
  cases x with
  | departs pid code time =>
    exact .inr (.of_holds rfl (.depart s.world pid code time) rfl fun _ => rfl)
  | hangsUp pid stream => exact .inr (.of_holds rfl (.hangUp s.world pid stream) rfl fun _ => rfl)
  | arrives pid stream chunk =>
    refine .inr ⟨.rests (.refl _) rfl, rfl, .deliver s.world pid stream chunk, fun q _ _ => ?_⟩
    refine (World.unread_deliver s.world pid stream chunk q .stdout).trans ?_
    cases stream with
    | stdout => simp [emits]
    | stderr => simp [emits]
  | happens x =>
    cases x with
    | stop => exact .inr (.of_passesOn nofun (.stopServer hg) rfl)
    | act a =>
      cases a with
      | step => exact step_cases hg
      | ask request => exact .inr (.of_passesOn (by rintro _ _ _ ⟨⟩) (.of_server rfl (.refl _)) rfl)
      | exit pid code time =>
        exact .inr (.of_passesOn (by rintro _ _ _ ⟨⟩) (.of_server rfl (.exit ..)) rfl)
      | feed pid stream chunk =>
        refine .inr ⟨.rests (.refl _) rfl, rfl, .feed s.world pid stream chunk, fun q _ _ => ?_⟩
        refine (s.world.unread_feed pid stream chunk q .stdout).trans ?_
        rw [emits, prints_feed]

/-! ## Whose output is read -/

/-- A stop lets runs go at most. -/
theorem stopServer_pids (s : Session) :
    ∀ pid ∈ s.stopServer.1.engine.pids, pid ∈ s.engine.pids := by
  have hgiven : ∀ (v : Session) standing, ∀ pid ∈ (v.giveUp standing).engine.pids,
      pid ∈ v.engine.pids := by
    intro v standing pid hp
    cases standing with
    | awaitingOutput q | awaitingExit q =>
      obtain ⟨r, hr, rfl⟩ := List.mem_map.mp hp
      exact List.mem_map_of_mem (List.mem_filter.mp hr).1
    | _ => exact hp
  have hcancelled : ∀ id, ∀ pid ∈ (s.unannounced.cancel id).engine.pids, pid ∈ s.engine.pids := by
    intro id pid hp
    rcases s.unannounced.cancel_quits id with ⟨-, he⟩ | ⟨k, hq⟩
    · rwa [he] at hp
    · rw [hq.result] at hp
      exact hgiven s.unannounced k.standing pid hp
  obtain ⟨u, he, ⟨-, rfl⟩ | ⟨id, -, rfl⟩⟩ := s.stopServer_cases
  · rw [he, (Aside.stopSupervised _).engine]
    exact fun _ hp => hp
  · rw [he, (Aside.stopSupervised _).engine]
    exact hcancelled id

/-- A verifier that runs was there before, or the server is left alone and the verifier has just
been started. -/
theorem face_pids (hg : s.server.supervisor.Guarded) (x : Eventuality) :
    ∀ pid ∈ (s.face x).engine.pids, pid ∈ s.engine.pids ∨
      s.world.processes.length < pid ∧ pid ≤ (s.face x).world.processes.length ∧
        (s.face x).server = s.server := by
  intro pid hp
  cases x with
  | happens x =>
    cases x with
    | stop => exact .inl (s.stopServer_pids pid hp)
    | act a =>
      have hp : pid ∈ (s.act a).engine.pids := hp
      cases act_toll hg a with
      | sustains sustains => exact .inl (sustains.pids.subset hp)
      | manages _ engine => exact .inl (engine ▸ hp)
      | @launches starts handles _ pids server =>
        rw [pids] at hp
        refine (List.mem_append.mp hp).imp_right fun hstarted => ?_
        obtain ⟨hfresh, hle⟩ := (handles.fresh pid).mp hstarted
        exact ⟨hfresh, hle, server⟩
  | _ => exact .inl hp

end Session

end VerifierHost
