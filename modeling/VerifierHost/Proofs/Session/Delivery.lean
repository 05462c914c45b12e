import VerifierHost.Proofs.Session.Midway

/-! # How output is delivered does not matter

A run starts with nothing read and ends when all was read, so what it comes to are the bytes of its
streams (`Session.Trial.comes_to`), wherever they were cut into chunks and however the chunks of the
two streams came in between each other (`Session.Trial.delivery_irrelevant`). -/

namespace VerifierHost

/-- Answers that are the same but for the time that a run has taken. -/
inductive Answer.Alike : Answer → Answer → Prop
  | same (answer : Answer) : Answer.Alike answer answer
  | outcome {o o' : RunOutcome} (outcome : o.Alike o') :
      Answer.Alike (.outcome (some o)) (.outcome (some o'))

theorem Ending.Alike.answer {ending ending' : Ending} (h : ending.Alike ending') :
    ending.answer.Alike ending'.answer := by
  cases h with
  | superseded => exact .same _
  | stuck => exact .same _
  | ended outcome => exact .outcome outcome

namespace Session

variable {s t : Session} {notices : List Notice} {id : TaskId} {path address : Text}
  {target : VerificationTarget}

/-! ## From the first step -/

theorem begin_run (hk : s.task? id = some ⟨.run path target address, .queued⟩) :
    s.begin id = s.launch id path target address := by
  unfold begin
  rw [hk]

/-- The verifier of a run was started as a process. -/
structure Starts (id : TaskId) (path : Text) (target : VerificationTarget) (pid : Pid)
    (s t : Session) : Prop where
  engine : ∃ tools settings inherited address start,
    t.engine = (s.engine.startRun target (shownName path)).1.launched
      (.build tools settings inherited address path target) target (shownName path) pid start
  tasks : t.tasks = (s.setStanding id (.awaitingOutput pid 0)).tasks
  shown : t.shown = s.shown ++ (s.engine.startRun target (shownName path)).2
  world : s.killRuns.world.spawn = (t.world, .ok pid)
  queue : t.queue = s.killRuns.queue ++ [.wake (.output pid .stdout), .wake (.output pid .stderr)]

/-- A launch whose task waits for output has started the verifier. -/
theorem launch_starts {pid : Pid}
    (hstarted : ((s.launch id path target address).task? id).map Task.standing =
      some (.awaitingOutput pid 0)) :
    Starts id path target pid s (s.launch id path target address) := by
  obtain ⟨k, hk, hs⟩ := Option.map_eq_some_iff.mp hstarted
  have hstanding : ∀ {v : Session} {standing : Standing},
      (s.launch id path target address).tasks = (v.setStanding id standing).tasks →
        standing = .awaitingOutput pid 0 :=
    fun htasks => (setStanding_standing _ htasks hk).symm.trans hs
  obtain ⟨u, hb, ⟨tools, settings, inherited, he⟩ | ⟨fault, he⟩⟩ :=
    s.launch_build id path target address
  · rcases u.startVerifier_cases id (.build tools settings inherited address path target) target
      (shownName path) with ⟨w, q, event, hw, hevent, hstart⟩ | ⟨v, -, -, -, hstart⟩
    · rw [hstart] at he
      cases hstanding (v := u) (by rw [he]; rfl)
      refine ⟨⟨tools, settings, inherited, address, u.world.clock, ?_⟩, ?_, ?_, ?_, ?_⟩
      · rw [he, ← hb.engine]
        rfl
      · rw [he]
        exact setStanding_tasks_congr hb.tasks id _
      · rw [he, ← hb.shown]
        refine (record_shown ..).trans ?_
        rw [List.filterMap_cons_none hevent]
        exact List.append_nil _
      · rw [he, ← hb.world]
        exact hw
      · rw [he, ← hb.queue]
        rfl
    · obtain ⟨-, -, -, -, -, -, ⟨answer, htasks⟩, -⟩ := conclude_same
        { v with engine := (v.engine.conclude v.engine.runCount target (shownName path) .crash
          none).1 } id (v.engine.conclude v.engine.runCount target (shownName path) .crash none).2
      rw [hstart] at he
      cases hstanding (by rw [he]; exact htasks)
  · cases hstanding (v := u) (by rw [he]; rfl)

/-- Nothing is said yet about a process that was just started, but that it is to be read. -/
theorem Starts.fresh {pid : Pid} (h : Runners notices s) (hdated : Dated s.queue s)
    (hs : Starts id path target pid s t) {n : Notice} (hn : n ∈ t.queue)
    (hp : n.pid? = some pid) : ∃ stream, n = .wake (.output pid stream) := by
  rw [hs.queue] at hn
  rcases List.mem_append.mp hn with hn | hn
  · have hle := (Apart.killRuns h).leaves.dated hdated n hn pid hp
    rw [(World.spawn_ok hs.world).1] at hle
    exact absurd hle (Nat.not_succ_le_self _)
  · rcases List.mem_cons.mp hn with rfl | hn
    · exact ⟨.stdout, rfl⟩
    · exact ⟨.stderr, List.mem_singleton.mp hn⟩

/-- A run whose verifier is started has read nothing, and all that its process holds is unread. -/
theorem Midway.begins {pid : Pid} (h : Unobserved notices s) (hdated : Dated s.queue s)
    (hk : s.task? id = some ⟨.run path target address, .queued⟩)
    (hsound : Sound t.queue t) (hs : Starts id path target pid s t) :
    ∃ r : ActiveRun, r.pid = pid ∧ r.IsOf (s.engine.runCount + 1) path target ∧
      Midway (s.engine.startRun target (shownName path)).1
        (s.shown ++ (s.engine.startRun target (shownName path)).2) r id
        (.run path target address) (t.world.unread pid) (fun _ => .none) t.queue t := by
  obtain ⟨tools, settings, inherited, address', start, hengine⟩ := hs.engine
  obtain ⟨r, hruns, rfl, hof, hnew⟩ :=
    (s.engine.startRun target (shownName path)).1.launched_isOf tools settings inherited address'
      path target pid start
  rw [← hengine] at hruns
  have hcount : t.engine.runCount = s.engine.runCount + 1 := by rw [hengine]; rfl
  have hupdates : t.engine.updates = s.engine.updates := by rw [hengine]; rfl
  have hfresh : ∀ {n}, n ∈ t.queue → n.pid? = some r.pid →
      ∃ stream, n = .wake (.output r.pid stream) := hs.fresh h.sound.runners hdated
  have htask : ∀ i, t.task? i =
      if id = i then some ⟨.run path target address, .awaitingOutput r.pid 0⟩ else s.task? i :=
    fun i => (task?_congr hs.tasks i).trans (setStanding_task?_of hk _ i)
  refine ⟨r, rfl, hof, ⟨hsound, fun i k hi => ?_⟩, ?_, hof.number.trans hcount.symm,
    ⟨[], .nil (by rw [hengine]; rfl), ?_⟩, fun _ => rfl, ?_,
    fun hlate => ?_, ⟨.awaitingOutput r.pid 0, (htask id).trans (if_pos rfl), rfl⟩⟩
  · rw [htask] at hi
    rw [hupdates]
    split at hi
    next => cases hi; exact ⟨fun _ => ⟨path, target, address, rfl⟩, nofun⟩
    next => exact h.quiet i k hi
  · rw [← hnew.eq_having, hruns]
    exact List.mem_append_right _ (List.mem_singleton.mpr rfl)
  · exact hs.shown.trans (List.append_nil _).symm
  · rintro stream ⟨⟩
  · rcases hlate with hn | hn | ha
    · obtain ⟨_, he⟩ := hfresh hn rfl
      cases he
    · obtain ⟨_, he⟩ := hfresh hn rfl
      cases he
    · have hsane : s.killRuns.world.Sane :=
        killRuns_induction (P := fun u => u.world.Sane) h.sound.runners.sane fun u pid hu =>
          (World.touches_kill u.world pid).sane hu
      exact absurd ha (World.not_awaitsExit_spawn hsane hs.world)

/-! ## The whole course of a run -/

/-- A run of a path from its first step to its last. When it is the turn of its request the verifier
is started; then processes write and end and steps are taken, until the run is over. Meanwhile
nobody looks at what is known, and no other run begins. -/
structure Trial (path : Text) (target : VerificationTarget) where
  start : Session
  id : TaskId
  address : Text
  pid : Pid
  actions : List Action
  unobserved : Unobserved start.queue start
  dated : Dated start.queue start
  turn : start.queue.head? = some (.begin id)
  task : start.task? id = some ⟨.run path target address, .queued⟩
  started : (start.step.task? id).map Task.standing = some (.awaitingOutput pid 0)
  news : ∀ a ∈ actions, a.AsksNoNews
  full : ∀ stream, (start.step.world.unread pid stream ++
    start.step.written pid stream actions).any List.isEmpty = false
  goes : pid ∈ (start.step.after actions).engine.pids
  gone : pid ∉ (start.step.after actions).step.engine.pids
  latest : (start.step.after actions).step.engine.runCount = start.engine.runCount + 1

namespace Trial

/-- When the run is over. -/
def final (x : Trial path target) : Session := (x.start.step.after x.actions).step

/-- All chunks that the process of the run prints to a stream. -/
def chunks (x : Trial path target) (stream : Stream) : List Text.Bytes :=
  x.start.step.world.unread x.pid stream ++ x.start.step.written x.pid stream x.actions

def bytes (x : Trial path target) (stream : Stream) : Text.Bytes := (x.chunks stream).flatten

/-- The code with which the process of the run has ended. -/
def exitCode? (x : Trial path target) : Option ExitCode :=
  (x.final.world.process? x.pid).bind Process.exit

/-- What was shown in the course of the run. -/
def effects (x : Trial path target) : List Effect := x.final.shown.drop x.start.shown.length

/-- The answer to the request for the run. -/
def answer? (x : Trial path target) : Option Answer := (x.final.task? x.id).bind Task.answer?

/-- A run starts with nothing read, and all that its process prints is still to come. -/
theorem midway (x : Trial path target) :
    x.start.step.engine.runCount = x.start.engine.runCount + 1 ∧
      ∃ r : ActiveRun, r.pid = x.pid ∧ r.IsOf (x.start.engine.runCount + 1) path target ∧
        Midway (x.start.engine.startRun target (shownName path)).1
          (x.start.shown ++ (x.start.engine.startRun target (shownName path)).2) r x.id
          (.run path target x.address) (x.start.step.world.unread x.pid) (fun _ => .none)
          x.start.step.queue x.start.step := by
  obtain ⟨rest, hq⟩ : ∃ rest, x.start.queue = .begin x.id :: rest := by
    have hturn := x.turn
    cases hq : x.start.queue with
    | nil => rw [hq] at hturn; cases hturn
    | cons n rest => rw [hq] at hturn; cases hturn; exact ⟨rest, rfl⟩
  have hstep : x.start.step =
      Session.launch { x.start with queue := rest } x.id path target x.address :=
    (step_cons hq).trans (begin_run (s := { x.start with queue := rest }) x.task)
  have hsound : Sound x.start.step.queue x.start.step := x.unobserved.sound.act .step
  have hstarted := x.started
  have hdated := x.dated
  rw [hq] at hdated
  rw [hstep] at hsound hstarted ⊢
  have hstarts := launch_starts hstarted
  refine ⟨?_, Midway.begins (s := { x.start with queue := rest }) (x.unobserved.take hq)
    (fun n hn => hdated n (List.mem_cons_of_mem _ hn)) x.task hsound hstarts⟩
  obtain ⟨_, _, _, _, _, hengine⟩ := hstarts.engine
  rw [hengine]
  rfl

/-- Before its last step a run has read all but what is unread. -/
theorem midway_last (x : Trial path target) : ∃ r portions, r.pid = x.pid ∧
    r.IsOf (x.start.engine.runCount + 1) path target ∧
      x.final.engine.runCount = (x.start.step.after x.actions).engine.runCount ∧
      Midway (x.start.engine.startRun target (shownName path)).1
        (x.start.shown ++ (x.start.engine.startRun target (shownName path)).2) r x.id
        (.run path target x.address) x.chunks portions (x.start.step.after x.actions).queue
        (x.start.step.after x.actions) := by
  obtain ⟨hcount, r, hpid, hof, hm⟩ := x.midway
  obtain ⟨hsound, hlater⟩ := hm.unobserved.sound.after_later x.actions
  have hstep := act_later hsound .step
  have hlatest : (x.start.step.after x.actions).engine.runCount = x.start.step.engine.runCount :=
    Nat.le_antisymm (hcount ▸ x.latest ▸ hstep.count) hlater.count
  obtain ⟨portions, hlast⟩ := hm.after x.news (hpid ▸ x.full) (hpid ▸ x.goes) hlatest
  refine ⟨r, portions, hpid, hof, x.latest.trans (hlatest.trans hcount).symm, ?_⟩
  rw [hpid] at hlast
  exact hlast

/-- **What a run comes to follows from the bytes of its streams** and the code of its process. -/
theorem comes_to (x : Trial path target) : ∃ r code seconds,
    r.IsOf (x.start.engine.runCount + 1) path target ∧ x.exitCode? = some code ∧
      let started := x.start.engine.startRun target (shownName path)
      let v := started.1.verdict r x.bytes code (some seconds)
      x.final.engine.context = v.1.context ∧ x.effects = started.2 ++ v.2.effects ∧
        x.answer? = some v.2.ending.answer := by
  obtain ⟨r, portions, hpid, hof, hcount, hm⟩ := x.midway_last
  have hover : r.pid ∉ x.final.engine.pids := hpid ▸ x.gone
  have hfull : ∀ stream, (x.chunks stream).any List.isEmpty = false := x.full
  have hgoes := x.goes
  unfold exitCode? effects answer?
  rw [final] at hcount hover ⊢
  generalize x.start.step.after x.actions = s at hm hgoes hcount hover ⊢
  cases hq : s.queue with
  | nil =>
    rw [step_nil hq, hpid] at hover
    exact absurd hgoes hover
  | cons n rest =>
    have htaken := hm.take hq
    rw [step_cons hq] at hcount hover ⊢
    obtain ⟨code, seconds, hcode, hcontext, hshown, htask⟩ :=
      htaken.finishes (react_advance htaken.unobserved) hcount hover hfull
    have hbytes : (fun stream => (x.chunks stream).flatten) = x.bytes := rfl
    rw [hbytes] at hcontext hshown htask
    rw [hpid] at hcode
    refine ⟨r, code, seconds, hof, hcode, hcontext, ?_, ?_⟩
    · rw [hshown, List.append_assoc, List.drop_left]
    · rw [htask]
      rfl

/-- **How output is delivered does not matter.** Two runs of a path that start from the same come to
the same context and show the same findings, whoever records them, if the stream with the messages
has the same bytes. If what was printed to stderr and the exit codes agree as well, they come to the
same effects and answers, but for the time that the runs took. -/
theorem delivery_irrelevant (x y : Trial path target)
    (context : x.start.engine.context = y.start.engine.context)
    (messages : y.bytes target.jsonStream = x.bytes target.jsonStream) :
    x.final.engine.context = y.final.engine.context ∧
      x.effects.filter Effect.ofFindings = y.effects.filter Effect.ofFindings ∧
      (∀ sink : Recorder, (x.effects.foldl Recorder.note sink).shown =
        (y.effects.foldl Recorder.note sink).shown) ∧
      (y.bytes .stderr = x.bytes .stderr → y.exitCode? = x.exitCode? →
        List.Forall₂ Effect.Alike x.effects y.effects ∧
          ∃ answer answer', x.answer? = some answer ∧ y.answer? = some answer' ∧
            answer.Alike answer') := by
  obtain ⟨r, code, seconds, hof, hcode, hcontext, heffects, hanswer⟩ := x.comes_to
  obtain ⟨r', code', seconds', hof', hcode', hcontext', heffects', hanswer'⟩ := y.comes_to
  have hcount : x.start.engine.context.runCount = y.start.engine.context.runCount :=
    congrArg Engine.runCount context
  obtain ⟨hstarted, hshown⟩ := Engine.startRun_context context target (shownName path)
  have htwins := hof.twins (hcount ▸ hof')
  rw [← hof.jsonStream] at messages
  obtain ⟨hsame, hfindings⟩ := Engine.verdict_findings hstarted htwins messages code code'
    (some seconds) (some seconds')
  have hfilter : x.effects.filter Effect.ofFindings = y.effects.filter Effect.ofFindings := by
    rw [heffects, heffects', List.filter_append, List.filter_append, hshown]
    exact congrArg _ hfindings
  refine ⟨?_, hfilter, fun sink => ?_, fun hstderr hexit => ?_⟩
  · rw [hcontext, hcontext']
    exact hsame
  · rw [Recorder.shown_ofFindings _ rfl, Recorder.shown_ofFindings y.effects rfl, hfilter]
  · obtain rfl : code' = code := Option.some.inj (hcode'.symm.trans (hexit.trans hcode))
    obtain ⟨halike, hending⟩ := Engine.verdict_alike hstarted htwins messages hstderr code'
      (some seconds) (some seconds')
    refine ⟨?_, _, _, hanswer, hanswer', hending.answer⟩
    rw [heffects, heffects', hshown]
    exact List.rel_append (forall₂_alike _) halike

end Trial

/-! A run in a session with a server, whose verifier reports an error: at once, or with cuts inside
a character and inside a line end, while something else is printed and the server starts anew. -/

def requested : Session := quiet.after
  [.ask .startServer, .step, .step, .step, .step, .ask (.run "/w/a.rs" .file "here")]

def errorReport : Text.Bytes :=
  Text.utf8 <| String.toList <|
    "\x7b\"message\":\"\u00e9\",\"level\":\"error\",\"spans\":[\x7b\"file_name\":\"/w/a.rs\"," ++
    "\"line_start\":1,\"line_end\":1,\"column_start\":1,\"column_end\":2," ++
    "\"is_primary\":true\x7d]\x7d\r\n"

def atOnce : List Action :=
  [.feed 2 .stderr errorReport, .exit 2 (some 1) .zero, .step, .step, .step, .step]

def inPieces : List Action :=
  [.feed 2 .stderr (errorReport.take 13), .step, .step, .feed 2 .stdout [10], .step,
    .ask .ensureReady, .step, .feed 2 .stderr ((errorReport.take 145).drop 13), .step,
    .feed 2 .stderr (errorReport.drop 145), .step, .exit 2 (some 1) .zero, .step, .step, .step,
    .step, .step, .step]

/-- With its last step the run is over, and no other one has begun. -/
theorem requested_over {actions : List Action} (h : actions = atOnce ∨ actions = inPieces) :
    2 ∈ (requested.step.after actions).engine.pids ∧
      2 ∉ (requested.step.after actions).step.engine.pids ∧
      (requested.step.after actions).step.engine.runCount = requested.engine.runCount + 1 := by
  rcases h with rfl | rfl <;> decide +kernel

theorem requested_full {actions : List Action} (h : actions = atOnce ∨ actions = inPieces)
    (stream : Stream) : (requested.step.world.unread 2 stream ++
      requested.step.written 2 stream actions).any List.isEmpty = false := by
  rcases h with rfl | rfl <;> cases stream <;> decide +kernel

/-- The run of the request, in either of the two ways. -/
def reported (actions : List Action) (h : actions = atOnce ∨ actions = inPieces) :
    Trial "/w/a.rs" .file where
  start := requested
  id := 1
  address := "here"
  pid := 2
  actions := actions
  unobserved := (fresh_quiet.sound_after _).unobserved (by decide +kernel)
  dated := fresh_quiet.dated _
  turn := by decide +kernel
  task := rfl
  started := rfl
  news := by rcases h with rfl | rfl <;> decide +kernel
  full := requested_full h
  goes := (requested_over h).1
  gone := (requested_over h).2.1
  latest := (requested_over h).2.2

theorem delivery_irrelevant_in_pieces :
    let x := reported atOnce (.inl rfl)
    let y := reported inPieces (.inr rfl)
    x.start.engine.context = y.start.engine.context ∧ y.bytes .stderr = x.bytes .stderr ∧
      y.chunks .stderr ≠ x.chunks .stderr ∧ y.bytes .stdout ≠ x.bytes .stdout ∧
      x.final.engine.context = y.final.engine.context ∧
      List.Forall₂ Effect.Alike x.effects y.effects := by
  intro x y
  obtain ⟨hbytes, hchunks, hstdout, hexit⟩ : y.bytes .stderr = x.bytes .stderr ∧
      y.chunks .stderr ≠ x.chunks .stderr ∧ y.bytes .stdout ≠ x.bytes .stdout ∧
      y.exitCode? = x.exitCode? := by
    decide +kernel
  obtain ⟨hcontext, -, -, halike⟩ := Trial.delivery_irrelevant x y rfl hbytes
  exact ⟨rfl, hbytes, hchunks, hstdout, hcontext, (halike hbytes hexit).1⟩

end Session

end VerifierHost
