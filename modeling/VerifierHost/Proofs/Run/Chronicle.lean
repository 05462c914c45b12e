import VerifierHost.Run.Engine
import VerifierHost.Proofs.Table

/-! # What an engine goes through

A move is one thing that an engine is asked for: a run begins in one of three ways, a verifier
writes or exits, somebody looks at the findings. The chronicle of a list of moves keeps the engine
they lead to and all that was shown on the way. It also keeps the strays: ranges of methods which a
line recorded before it ran into a place off the map, so that its files were never noted. -/

namespace VerifierHost

open Wire

/-! ## Lines that stop halfway -/

/-- Whether all procedures have a place on the map. -/
def onMap (procedures : List Procedure) : Bool :=
  procedures.all fun p => p.span.callSite.range.toOption.isSome

/-- The ranges that procedures are recorded with, up to the first one whose place is off the map. -/
def procedureRows (o : Origin) : List Procedure → Table (Text × Text) Range
  | [] => []
  | p :: rest =>
    match p.span.callSite.range with
    | .error _ => []
    | .ok range => ((o.resolve p.span.callSite.fileName, p.name), range) :: procedureRows o rest

/-- The rows that a line records without noting their files. -/
def strayRows (o : Origin) (line : Text) : Table (Text × Text) Range :=
  match parseLine o line with
  | .ok (some (m, o')) =>
    match EventKind.ofText? m.message with
    | some (.compilerInfo, text) =>
      match payload? CompilerInfo.read text with
      | some info => if onMap info.procedures then [] else procedureRows o' info.procedures
      | none => []
    | _ => []
  | _ => []

/-! ## Moves -/

/-- What an engine is asked for. -/
inductive Move where
  /-- A run whose verifier is started. -/
  | launch (target : VerificationTarget) (name : Text) (invocation : Invocation) (pid : Pid)
      (moment : Millis)
  /-- A run whose verifier cannot be started. -/
  | refuse (target : VerificationTarget) (name : Text)
  /-- A run that comes to nothing before its verifier is started. -/
  | abort (target : VerificationTarget) (name : Text)
  | output (pid : Pid) (stream : Stream) (chunks : List Text.Bytes) (closed : Bool)
  | exit (pid : Pid) (code : ExitCode) (moment : Millis)
  | awaitNews (file : Text)
  | drawHints (file : Text)
  | takeChanged

/-- What comes of a move; it ends a run or not. -/
structure Turn where
  engine : Engine
  effects : List Effect
  ending : Option Ending

/-- A run is over and was not superseded. -/
def Turn.Completes (t : Turn) : Prop := ∃ outcome, t.ending = some (.ended outcome)

instance (t : Turn) : Decidable t.Completes :=
  match h : t.ending with
  | some (.ended outcome) => .isTrue ⟨outcome, h⟩
  | some .superseded | some (.stuck _) | none => .isFalse fun ⟨_, ho⟩ => by cases h.symm.trans ho

namespace Engine

def setFindings (e : Engine) (findings : Findings) : Engine :=
  { e with board := { e.board with findings } }

def play (e : Engine) : Move → Turn
  | .launch target name invocation pid moment =>
    let (e, effects) := e.startRun target name
    ⟨e.launched invocation target name pid moment, effects, none⟩
  | .refuse target name =>
    let (e, effects) := e.startRun target name
    let (e, c) := e.conclude e.runCount target name .crash none
    ⟨e, effects ++ c.effects, some c.ending⟩
  | .abort target name =>
    let (e, effects) := e.startRun target name
    ⟨e, effects, none⟩
  | .output pid stream chunks closed =>
    match e.run? pid with
    | some r =>
      if (r.tap stream).ended then ⟨e, [], none⟩
      else
        let (e, effects) := e.takeOutput r stream chunks closed
        ⟨e, effects, none⟩
    | none => ⟨e, [], none⟩
  | .exit pid code moment =>
    match e.run? pid with
    | some r =>
      let (e, c) := e.finish r code moment
      ⟨e, c.effects, some c.ending⟩
    | none => ⟨e, [], none⟩
  | .awaitNews file => ⟨{ e with updates := (e.updates.waitFor file).1 }, [], none⟩
  | .drawHints file =>
    ⟨e.setFindings { e.board.findings with
      instantiations := (e.board.findings.instantiations.render instantiationKind file).index },
      [], none⟩
  | .takeChanged =>
    let (changed, instantiations) := e.board.findings.instantiations.takeChanged
    ⟨e.setFindings { e.board.findings with instantiations },
      if changed then [.refreshHints] else [], none⟩

/-- The lines of the latest run that a move brings; nobody listens to the other runs. -/
def heard (e : Engine) : Move → List (Origin × Text)
  | .output pid stream chunks closed =>
    match e.run? pid with
    | some r =>
      if r.number = e.runCount ∧ (r.tap stream).ended = false then
        (r.read stream chunks closed).2.map (r.origin, ·)
      else []
    | none => []
  | .exit pid _ _ =>
    match e.run? pid with
    | some r => if r.number = e.runCount then r.lastLine.map (r.origin, ·) else []
    | none => []
  | _ => []

/-- The strays after a move: a new run forgets those in files that are known. -/
def straysAfter (e : Engine) (strays : Table (Text × Text) Range) : Move →
    Table (Text × Text) Range
  | .launch .. | .refuse .. | .abort .. => strays.filter fun row => row.1.1 ∉ e.knownFiles
  | m => (e.heard m).foldl (fun t line => t.putAll (strayRows line.1 line.2)) strays

end Engine

/-! ## Chronicles -/

structure Chronicle where
  engine : Engine
  shown : List Effect
  strays : Table (Text × Text) Range

namespace Chronicle

/-- Nothing has happened to an engine yet. -/
def start (e : Engine) : Chronicle := ⟨e, [], []⟩

def add (c : Chronicle) (m : Move) : Chronicle where
  engine := (c.engine.play m).engine
  shown := c.shown ++ (c.engine.play m).effects
  strays := c.engine.straysAfter c.strays m

def addAll (c : Chronicle) (moves : List Move) : Chronicle := moves.foldl add c

@[simp] theorem addAll_nil (c : Chronicle) : c.addAll [] = c := rfl

@[simp] theorem addAll_concat (c : Chronicle) (moves : List Move) (m : Move) :
    c.addAll (moves ++ [m]) = (c.addAll moves).add m := by
  simp [addAll]

/-- What holds at the start and survives every move holds after all moves. -/
theorem addAll_induction {P : Chronicle → Prop} (c : Chronicle) (start : P c)
    (step : ∀ c m, P c → P (c.add m)) (moves : List Move) : P (c.addAll moves) := by
  induction moves generalizing c with
  | nil => exact start
  | cons m rest ih => exact ih (c.add m) (step c m start)

end Chronicle

end VerifierHost
