import Mathlib.Data.List.Forall2
import Mathlib.Logic.Function.Basic
import VerifierHost.Host.Recorder
import VerifierHost.Proofs.Run.Endings
import VerifierHost.Proofs.Server.Reading
import VerifierHost.Proofs.Text.Utf8

/-! # Output that comes in pieces

What a verifier prints reaches its run in chunks, and the chunks of its two streams come in some
order. A run keeps what it needs of each stream, so how far it has come depends on the chunks of
each stream alone (`ActiveRun.having`), and what it comes to on nothing but the bytes of each
(`Engine.Took.finish`). The stream that carries no messages only matters for how the run fared, and
the time that a run took only for the text that says so. -/

namespace VerifierHost

/-! ## One stream -/

/-- The text of a stream that was read to its end is that of its bytes, however they were cut. -/
theorem flatten_readChunks (d : Text.Utf8) {chunks : List Text.Bytes}
    (hfull : chunks.any List.isEmpty = false) :
    (readChunks d true chunks).texts.flatten =
      (d.feed chunks.flatten).1 ++ (d.feed chunks.flatten).2.finish := by
  induction chunks generalizing d with
  | nil =>
    simp only [readChunks, if_true, List.flatten_nil, Text.Utf8.feed, Text.Utf8.readOnto,
      List.reverse_nil, List.nil_append]
    cases d.finish <;> simp
  | cons chunk rest ih =>
    rw [List.any_cons, Bool.or_eq_false_iff] at hfull
    simp only [readChunks, hfull.1, Bool.false_eq_true, if_false, List.flatten_cons,
      Text.Utf8.feed_append, List.append_assoc]
    rw [← ih _ hfull.2]
    cases (d.feed chunk).1 <;> simp

/-- What was read of a stream: these chunks, and whether that was all. -/
structure Portion where
  chunks : List Text.Bytes
  closed : Bool

namespace Portion

/-- Nothing was read yet. -/
def none : Portion := ⟨[], false⟩

def more (p : Portion) (chunks : List Text.Bytes) (closed : Bool) :
    Portion := ⟨p.chunks ++ chunks, closed⟩

def text (p : Portion) : List Char := (readChunks .start p.closed p.chunks).texts.flatten

def tap (p : Portion) : Tap := ⟨(readChunks .start p.closed p.chunks).decoder, p.closed⟩

/-- None of the chunks is empty, which would end the stream. -/
def Full (p : Portion) : Prop := p.chunks.any List.isEmpty = false

variable {p : Portion} {chunks : List Text.Bytes}

theorem text_of_closed (hfull : p.Full) (hclosed : p.closed = true) :
    p.text = Text.Utf8.decode p.chunks.flatten := by
  rw [text, hclosed, flatten_readChunks _ hfull]
  rfl

/-- A reader goes on where it was. -/
theorem read_more (hfull : p.Full) (hopen : p.closed = false) (chunks : List Text.Bytes)
    (closed : Bool) :
    (p.more chunks closed).text =
        p.text ++ (readChunks p.tap.decoder closed chunks).texts.flatten ∧
      (p.more chunks closed).tap.decoder = (readChunks p.tap.decoder closed chunks).decoder := by
  rw [text, text, tap, tap, more, hopen]
  dsimp only
  rw [readChunks_append _ _ hfull, List.flatten_append]
  exact ⟨rfl, rfl⟩

end Portion

/-! ## One run -/

/-- The stream on which a verifier reports. -/
def VerificationTarget.jsonStream : VerificationTarget → Stream
  | .crate => .stdout
  | .file => .stderr

namespace ActiveRun

/-- Nothing was read of a run yet. -/
structure IsNew (r : ActiveRun) : Prop where
  stdout : r.stdout = .start
  stderr : r.stderr = .start
  lines : r.lines = .empty
  stderrText : r.stderrText = []

/-- Runs of the same, whatever processes they have and however far they have come. -/
structure Twins (r r' : ActiveRun) : Prop where
  number : r'.number = r.number
  target : r'.target = r.target
  name : r'.name = r.name
  origin : r'.origin = r.origin
  jsonStream : r'.jsonStream = r.jsonStream

/-- A run of a path, by its number. -/
structure IsOf (r : ActiveRun) (n : Nat) (path : Text) (of : VerificationTarget) : Prop where
  number : r.number = n
  target : r.target = of
  name : r.name = shownName path
  invocation : ∃ tools settings inherited address,
    r.origin = (Invocation.build tools settings inherited address path of).origin ∧
      r.jsonStream = (Invocation.build tools settings inherited address path of).jsonStream

theorem IsOf.jsonStream {r : ActiveRun} {number : Nat} {path : Text} {target : VerificationTarget}
    (h : r.IsOf number path target) : r.jsonStream = target.jsonStream := by
  obtain ⟨_, _, _, _, -, hstream⟩ := h.invocation
  rw [hstream]
  cases target <;> rfl

/-- The same path is called in the same way, whatever the tools, settings and address are. -/
theorem IsOf.twins {r r' : ActiveRun} {number : Nat} {path : Text} {target : VerificationTarget}
    (h : r.IsOf number path target) (h' : r'.IsOf number path target) : r.Twins r' := by
  obtain ⟨_, _, _, _, horigin, -⟩ := h.invocation
  obtain ⟨_, _, _, _, horigin', -⟩ := h'.invocation
  refine ⟨h'.number.trans h.number.symm, h'.target.trans h.target.symm,
    h'.name.trans h.name.symm, ?_, h'.jsonStream.trans h.jsonStream.symm⟩
  rw [horigin, horigin']
  cases target <;> rfl

/-- A run of whose streams these portions were read. -/
def having (r : ActiveRun) (portions : Stream → Portion) : ActiveRun :=
  { r with
    stdout := (portions .stdout).tap
    stderr := (portions .stderr).tap
    lines := (Text.LineBuffer.empty.feed (portions r.jsonStream).text).2
    stderrText := (portions .stderr).text }

/-- The lines that are complete in what was read. -/
def heard (r : ActiveRun) (portions : Stream → Portion) : List Text :=
  (Text.LineBuffer.empty.feed (portions r.jsonStream).text).1.map Text.ofChars

variable {r : ActiveRun} {portions : Stream → Portion} {stream : Stream} {chunks : List Text.Bytes}

theorem IsNew.eq_having (h : r.IsNew) : r = r.having fun _ => .none := by
  obtain ⟨number, pid, start, target, name, origin, jsonStream, stdout, stderr, lines, text⟩ := r
  obtain ⟨rfl, rfl, rfl, rfl⟩ := h
  rfl

@[simp] theorem having_tap (r : ActiveRun) (portions : Stream → Portion) (stream : Stream) :
    (r.having portions).tap stream = (portions stream).tap := by
  cases stream <;> rfl

/-- A run that has read portions of its streams reads on. -/
theorem read_having (hfull : (portions stream).Full) (hopen : (portions stream).closed = false)
    (hchunks : chunks.any List.isEmpty = false) (closed : Bool) :
    let later := Function.update portions stream ((portions stream).more chunks closed)
    ((r.having portions).read stream chunks closed).1 = r.having later ∧
      r.heard later = r.heard portions ++ ((r.having portions).read stream chunks closed).2 := by
  obtain ⟨htext, hdecoder⟩ := Portion.read_more hfull hopen chunks closed
  have hended : (readChunks (portions stream).tap.decoder closed chunks).ended = closed := by
    rw [ended_readChunks, hchunks, Bool.or_false]
  have htap : ((portions stream).more chunks closed).tap =
      ⟨(readChunks (portions stream).tap.decoder closed chunks).decoder, closed⟩ := by
    rw [← hdecoder]
    rfl
  dsimp only
  unfold read heard
  simp only [having_tap, hended]
  -- the streams are read in one of four constellations
  cases stream <;> cases hj : r.jsonStream <;>
    simp [having, setTap, hj, htext, htap, Text.LineBuffer.feed_append]

end ActiveRun

/-! ## The engine -/

namespace Engine

/-- All that an engine knows apart from the runs in progress. -/
def context (e : Engine) : Engine := { e with runs := [] }

/-- A run of a path whose verifier has just been started. -/
theorem launched_isOf (e : Engine) (tools : Toolchain) (settings : Settings)
    (inherited : Environment) (address path : Text) (target : VerificationTarget) (pid : Pid)
    (start : Millis) : ∃ r : ActiveRun,
      (e.launched (.build tools settings inherited address path target) target (shownName path) pid
        start).runs = e.runs ++ [r] ∧ r.pid = pid ∧ r.IsOf e.runCount path target ∧ r.IsNew :=
  ⟨_, rfl, rfl, ⟨rfl, rfl, rfl, tools, settings, inherited, address, rfl, rfl⟩,
    ⟨rfl, rfl, rfl, rfl⟩⟩

theorem takeLines_append (e : Engine) (number : Nat) (o : Origin) (xs ys : List Text) :
    e.takeLines number o (xs ++ ys) =
      (((e.takeLines number o xs).1.takeLines number o ys).1,
        (e.takeLines number o xs).2 ++ ((e.takeLines number o xs).1.takeLines number o ys).2) := by
  induction xs generalizing e with
  | nil => rfl
  | cons line rest ih => simp only [List.cons_append, takeLines, ih, List.append_assoc]

/-- Lines are taken in whatever other runs there are. -/
theorem takeLines_runs (e : Engine) (runs : List ActiveRun) (number : Nat) (o : Origin)
    (lines : List Text) : { e with runs }.takeLines number o lines =
      ({ (e.takeLines number o lines).1 with runs }, (e.takeLines number o lines).2) := by
  induction lines generalizing e with
  | nil => rfl
  | cons line rest ih =>
    have hline : { e with runs }.takeLine number o line =
        ({ (e.takeLine number o line).1 with runs }, (e.takeLine number o line).2) := by
      unfold takeLine
      dsimp only
      split <;> rfl
    simp only [takeLines, hline, ih]

theorem conclude_runs (e : Engine) (runs : List ActiveRun) (number : Nat)
    (target : VerificationTarget) (name : Text) (status : RunStatus) (seconds : Option Float) :
    { e with runs }.conclude number target name status seconds =
      ({ (e.conclude number target name status seconds).1 with runs },
        (e.conclude number target name status seconds).2) := by
  unfold conclude showStore
  dsimp only
  split
  next =>
    cases showFiles e.directory e.board.store.entries with
    | mk effects stuck => cases stuck <;> rfl
  next => rfl

theorem eq_of_context {e e' : Engine} (h : e.context = e'.context) :
    e = { e' with runs := e.runs } :=
  congrArg (fun e'' : Engine => { e'' with runs := e.runs }) h

theorem takeLines_context {e e' : Engine} (h : e.context = e'.context) (number : Nat) (o : Origin)
    (lines : List Text) :
    (e.takeLines number o lines).1.context = (e'.takeLines number o lines).1.context ∧
      (e.takeLines number o lines).2 = (e'.takeLines number o lines).2 := by
  rw [eq_of_context h, takeLines_runs]
  exact ⟨rfl, rfl⟩

theorem conclude_context {e e' : Engine} (h : e.context = e'.context) (number : Nat)
    (target : VerificationTarget) (name : Text) (status : RunStatus) (seconds : Option Float) :
    (e.conclude number target name status seconds).1.context =
        (e'.conclude number target name status seconds).1.context ∧
      (e.conclude number target name status seconds).2 =
        (e'.conclude number target name status seconds).2 := by
  rw [eq_of_context h, conclude_runs]
  exact ⟨rfl, rfl⟩

theorem startRun_context {e e' : Engine} (h : e.context = e'.context)
    (target : VerificationTarget) (name : Text) :
    (e.startRun target name).1.context = (e'.startRun target name).1.context ∧
      (e.startRun target name).2 = (e'.startRun target name).2 := by
  rw [eq_of_context h]
  exact ⟨rfl, rfl⟩

/-- From one engine to another these lines of a run were taken in, and these effects shown for them,
whatever has become of the runs in progress. -/
structure Took (r : ActiveRun) (lines : List Text) (e₀ e : Engine) (effects : List Effect) :
    Prop where
  context : e.context = (e₀.takeLines r.number r.origin lines).1.context
  effects : effects = (e₀.takeLines r.number r.origin lines).2

/-- The lines of a text, of which the last one need not be complete. -/
def linesIn (text : List Char) : List Text :=
  ((Text.LineBuffer.empty.feed text).1 ++ (Text.LineBuffer.empty.feed text).2.flush.1).map
    Text.ofChars

/-- What a run comes to whose verifier has printed these bytes. -/
def verdict (e : Engine) (r : ActiveRun) (printed : Stream → Text.Bytes) (code : ExitCode)
    (seconds : Option Float) : Engine × Conclusion :=
  let (e, effects) :=
    e.takeLines r.number r.origin (linesIn (Text.Utf8.decode (printed r.jsonStream)))
  let (e, conclusion) := e.conclude r.number r.target r.name
    (.classify code (Text.Utf8.decode (printed .stderr))) seconds
  (e, { conclusion with effects := effects ++ conclusion.effects })

namespace Took

variable {e₀ e e' : Engine} {r : ActiveRun} {lines : List Text} {effects : List Effect}
  {portions : Stream → Portion} {stream : Stream} {chunks : List Text.Bytes}

theorem nil (h : e.context = e₀.context) : Took r [] e₀ e [] := ⟨h, rfl⟩

theorem congr (h : Took r lines e₀ e effects) (he : e'.context = e.context) :
    Took r lines e₀ e' effects := ⟨he.trans h.context, h.effects⟩

theorem takeLines (h : Took r lines e₀ e effects) (more : List Text) :
    Took r (lines ++ more) e₀ (e.takeLines r.number r.origin more).1
      (effects ++ (e.takeLines r.number r.origin more).2) := by
  obtain ⟨hcontext, heffects⟩ := takeLines_context h.context r.number r.origin more
  constructor
  · rw [takeLines_append]
    exact hcontext
  · rw [takeLines_append, heffects, h.effects]

theorem takeOutput (h : Took r (r.heard portions) e₀ e effects) (hfull : (portions stream).Full)
    (hopen : (portions stream).closed = false) (hchunks : chunks.any List.isEmpty = false)
    (closed : Bool) :
    Took r (r.heard (Function.update portions stream ((portions stream).more chunks closed))) e₀
      (e.takeOutput (r.having portions) stream chunks closed).1
      (effects ++ (e.takeOutput (r.having portions) stream chunks closed).2) := by
  obtain ⟨hrun, hheard⟩ := ActiveRun.read_having (r := r) hfull hopen hchunks closed
  rw [hheard]
  have hput : Took r (r.heard portions) e₀
      (e.putRun ((r.having portions).read stream chunks closed).1) effects := h.congr rfl
  unfold Engine.takeOutput
  dsimp only
  rw [ActiveRun.read_number, ActiveRun.read_origin]
  exact hput.takeLines _

/-- **What a run comes to follows from the bytes of its streams**, once they were read to their
ends. -/
theorem finish (h : Took r (r.heard portions) e₀ e effects)
    (hfull : ∀ stream, (portions stream).Full)
    (hclosed : ∀ stream, (portions stream).closed = true) (code : ExitCode) (stop : Millis) :
    let v := e₀.verdict r (fun stream => (portions stream).chunks.flatten) code
      (some (secondsBetween r.start stop))
    (e.finish (r.having portions) code stop).1.context = v.1.context ∧
      effects ++ (e.finish (r.having portions) code stop).2.effects = v.2.effects ∧
      (e.finish (r.having portions) code stop).2.ending = v.2.ending := by
  have htext : ∀ stream,
      (portions stream).text = Text.Utf8.decode (portions stream).chunks.flatten := fun stream =>
    Portion.text_of_closed (hfull stream) (hclosed stream)
  have hlines : r.heard portions ++ (r.having portions).lastLine =
      linesIn (Text.Utf8.decode (portions r.jsonStream).chunks.flatten) := by
    rw [← htext, linesIn, List.map_append]
    rfl
  have hdrop : Took r (r.heard portions) e₀ (e.dropRun r.pid) effects := h.congr rfl
  have hlast := hdrop.takeLines (r.having portions).lastLine
  rw [hlines] at hlast
  have hstderr : (r.having portions).stderrText =
      Text.Utf8.decode (portions .stderr).chunks.flatten := htext .stderr
  obtain ⟨hcontext, hconclusion⟩ := conclude_context hlast.context r.number r.target r.name
    (.classify code (r.having portions).stderrText) (some (secondsBetween r.start stop))
  unfold Engine.finish verdict
  dsimp only
  rw [← hstderr]
  refine ⟨hcontext, ?_, congrArg Conclusion.ending hconclusion⟩
  rw [← List.append_assoc, ← hlast.effects]
  exact congrArg (_ ++ Conclusion.effects ·) hconclusion

end Took

end Engine

/-! ## What the time and the other stream matter for -/

/-- Effects that are the same but for the time that a run has taken. -/
inductive Effect.Alike : Effect → Effect → Prop
  | same (effect : Effect) : Effect.Alike effect effect
  | ended (crashed : Bool) (store : Store) (target : VerificationTarget) (name : Text)
      (seconds seconds' : Option Float) :
      Effect.Alike (.status (.ended crashed store target name seconds))
        (.status (.ended crashed store target name seconds'))

/-- Outcomes that are the same but for the time that the run has taken. -/
structure RunOutcome.Alike (o o' : RunOutcome) : Prop where
  run : o'.run = o.run
  status : o'.status = o.status
  text : ∃ crashed store target name, o.text = .ended crashed store target name o.seconds ∧
    o'.text = .ended crashed store target name o'.seconds
  counts : o'.counts = o.counts

inductive Ending.Alike : Ending → Ending → Prop
  | superseded : Ending.Alike .superseded .superseded
  | stuck (file : Text) : Ending.Alike (.stuck file) (.stuck file)
  | ended {o o' : RunOutcome} (outcome : o.Alike o') : Ending.Alike (.ended o) (.ended o')

/-- What shows findings, rather than says how a run fares. -/
def Effect.ofFindings : Effect → Bool
  | .diagnostics .. | .clearDiagnostics | .decorations .. => true
  | .status _ | .busy _ | .errorNotice _ | .refreshHints => false

/-- What a recorder shows are the findings. -/
theorem Recorder.shown_ofFindings (effects : List Effect) {sink sink' : Recorder}
    (h : sink.shown = sink'.shown) : (effects.foldl Recorder.note sink).shown =
      ((effects.filter Effect.ofFindings).foldl Recorder.note sink').shown := by
  induction effects generalizing sink sink' with
  | nil => exact h
  | cons effect rest ih =>
    cases effect with
    | diagnostics uri ds => exact ih (congrArg (Table.put · uri ds) h)
    | clearDiagnostics => exact ih rfl
    | _ => exact ih h

theorem forall₂_alike (effects : List Effect) : List.Forall₂ Effect.Alike effects effects :=
  List.forall₂_same.mpr fun effect _ => .same effect

namespace Engine

variable (e : Engine) (number : Nat) (target : VerificationTarget) (name : Text)

/-- The time that a run took matters for the text about it and nothing else. -/
theorem conclude_seconds (status : RunStatus) (seconds seconds' : Option Float) :
    List.Forall₂ Effect.Alike (e.conclude number target name status seconds).2.effects
        (e.conclude number target name status seconds').2.effects ∧
      (e.conclude number target name status seconds).2.ending.Alike
        (e.conclude number target name status seconds').2.ending := by
  unfold conclude
  split
  next =>
    dsimp only
    split
    next file _ => exact ⟨forall₂_alike _, .stuck file⟩
    next =>
      refine ⟨?_, .ended ⟨rfl, rfl, ⟨_, _, _, _, rfl, rfl⟩, rfl⟩⟩
      exact (List.rel_append (forall₂_alike _)) (.cons (.ended ..) .nil)
  next => exact ⟨.nil, .superseded⟩

/-- How a run fared matters neither for what is known nor for the findings that are shown. -/
theorem conclude_findings (status status' : RunStatus) (seconds seconds' : Option Float) :
    (e.conclude number target name status seconds).1 =
        (e.conclude number target name status' seconds').1 ∧
      (e.conclude number target name status seconds).2.effects.filter Effect.ofFindings =
        (e.conclude number target name status' seconds').2.effects.filter Effect.ofFindings := by
  have hnotice : ∀ crashed : Bool, (if crashed then [Effect.errorNotice crashMessage]
      else []).filter Effect.ofFindings = [] := by
    intro crashed
    cases crashed <;> rfl
  unfold conclude
  split
  next =>
    dsimp only
    split
    next => exact ⟨rfl, rfl⟩
    next =>
      refine ⟨rfl, ?_⟩
      simp only [List.filter_append, hnotice]
      rfl
  next => exact ⟨rfl, rfl⟩

/-- **The stream without messages tells nothing about findings.** What two runs of the same come to
agrees in all that is known and in the findings that are shown, if the bytes of the other stream
do. -/
theorem verdict_findings {e e' : Engine} {r r' : ActiveRun} {printed printed' : Stream → Text.Bytes}
    (hcontext : e.context = e'.context) (htwins : r.Twins r')
    (hjson : printed' r.jsonStream = printed r.jsonStream) (code code' : ExitCode)
    (seconds seconds' : Option Float) :
    let v := e.verdict r printed code seconds
    let v' := e'.verdict r' printed' code' seconds'
    v.1.context = v'.1.context ∧
      v.2.effects.filter Effect.ofFindings = v'.2.effects.filter Effect.ofFindings := by
  obtain ⟨hnumber, htarget, hname, horigin, hstream⟩ := htwins
  obtain ⟨hlines, heffects⟩ := takeLines_context hcontext r.number r.origin
    (linesIn (Text.Utf8.decode (printed r.jsonStream)))
  obtain ⟨hengine, hconclusion⟩ := conclude_context hlines r.number r.target r.name
    (.classify code (Text.Utf8.decode (printed .stderr))) seconds
  obtain ⟨hsame, hfindings⟩ := (e'.takeLines r.number r.origin
    (linesIn (Text.Utf8.decode (printed r.jsonStream)))).1.conclude_findings r.number r.target
      r.name (.classify code (Text.Utf8.decode (printed .stderr)))
      (.classify code' (Text.Utf8.decode (printed' .stderr))) seconds seconds'
  unfold verdict
  dsimp only
  rw [hnumber, htarget, hname, horigin, hstream, hjson, List.filter_append, List.filter_append,
    heffects, hconclusion, hfindings]
  exact ⟨hengine.trans (congrArg context hsame), rfl⟩

/-- **What two runs of the same come to** agrees but for the time that they took, if the bytes of
their streams and the codes of their processes do. -/
theorem verdict_alike {e e' : Engine} {r r' : ActiveRun} {printed printed' : Stream → Text.Bytes}
    (hcontext : e.context = e'.context) (htwins : r.Twins r')
    (hjson : printed' r.jsonStream = printed r.jsonStream)
    (hstderr : printed' .stderr = printed .stderr) (code : ExitCode)
    (seconds seconds' : Option Float) :
    let v := e.verdict r printed code seconds
    let v' := e'.verdict r' printed' code seconds'
    List.Forall₂ Effect.Alike v.2.effects v'.2.effects ∧ v.2.ending.Alike v'.2.ending := by
  obtain ⟨hnumber, htarget, hname, horigin, hstream⟩ := htwins
  obtain ⟨hlines, heffects⟩ := takeLines_context hcontext r.number r.origin
    (linesIn (Text.Utf8.decode (printed r.jsonStream)))
  obtain ⟨-, hconclusion⟩ := conclude_context hlines r.number r.target r.name
    (.classify code (Text.Utf8.decode (printed .stderr))) seconds
  obtain ⟨halike, hending⟩ := (e'.takeLines r.number r.origin
    (linesIn (Text.Utf8.decode (printed r.jsonStream)))).1.conclude_seconds r.number r.target r.name
      (.classify code (Text.Utf8.decode (printed .stderr))) seconds seconds'
  unfold verdict
  dsimp only
  rw [hnumber, htarget, hname, horigin, hstream, hjson, hstderr, heffects, hconclusion]
  exact ⟨List.rel_append (forall₂_alike _) halike, hending⟩

end Engine

end VerifierHost
