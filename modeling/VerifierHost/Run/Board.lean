import VerifierHost.Run.Effect
import VerifierHost.Wire.Events
import VerifierHost.Json.Reader
import VerifierHost.Json.Printer

/-!
The board on which a run puts what its verifier prints. A line is noise, an event that goes into the
findings, or a message that becomes a diagnostic. A line that cannot be understood is passed over;
if a fault shows up in the middle of it, what was recorded before stays.
-/

namespace VerifierHost

open Wire

/-- The events inside messages, in the order in which their markers are tried. -/
inductive EventKind where
  | legacyInstantiations
  | instantiations
  | chosenTriggers
  | compilerInfo
  | methodResult
  deriving DecidableEq, Repr

namespace EventKind

/-- What the text of a message with such an event starts with. -/
def marker : EventKind → String
  | .legacyInstantiations => "quantifier_instantiations_message"
  | .instantiations => "quantifierInstantiationsMessage"
  | .chosenTriggers => "quantifierChosenTriggersMessage"
  | .compilerInfo => "compilerInfo"
  | .methodResult => "ideVerificationResult"

def all : List EventKind :=
  [.legacyInstantiations, .instantiations, .chosenTriggers, .compilerInfo, .methodResult]

/-- The kind of event in a text, and the text after its marker. -/
def ofText? (text : Text) : Option (EventKind × Text) :=
  all.findSome? fun kind => (afterWord? kind.marker text.points).map fun rest => (kind, ⟨rest⟩)

end EventKind

/--
The object on a line; a line that holds none is noise, except where a number is too long or values
nest too deep.
-/
def decodeLine (line : Text) : Except Json.ReadError (Option Json) :=
  if line.points.head? ≠ some (.char '{') then .ok none
  else
    match Json.read line with
    | .ok (.object fields) => .ok (some (.object fields))
    | .ok _ => .ok none
    | .error .malformed => .ok none
    | .error e => .error e

/-- The message in an object and what to read it against; build tools name the file they compile. -/
def parseMessage (o : Origin) (v : Json) : Option (Message × Origin) :=
  match o.mode with
  | .crate => (Envelope.read v).toOption.map fun e =>
      (e.message, { o with defaultFile := e.target.srcPath })
  | .standalone => (Message.read v).toOption.map (·, o)

def parseLine (o : Origin) (line : Text) : Except Json.ReadError (Option (Message × Origin)) :=
  (decodeLine line).map fun v => v.bind (parseMessage o)

/--
What is known so far. `touched` lists the files that this run said something about, `annotated`
those that have had events since the run started.
-/
structure Board where
  findings : Findings
  store : Store
  annotated : List Text
  touched : List Text

/-- Adds a name to a list of names, once. -/
def insertName (names : List Text) (name : Text) : List Text :=
  if name ∈ names then names else names ++ [name]

/-- The text that triggers are shown by: a string as it is, any other value as JSON. -/
def triggersText : Json → Text
  | .string s => s
  | v => v.text

/-- The value after an event's marker, read as the event asks for. -/
def payload? {α : Type} (read : Reader α) (text : Text) : Option α :=
  match Json.read text with
  | .ok v => (read v).toOption
  | .error _ => none

namespace Board

def touch (b : Board) (file : Text) : Board := { b with touched := insertName b.touched file }

/-- Notes that events about a file have come. -/
def annotate (b : Board) (file : Text) : Board :=
  { b.touch file with annotated := insertName b.annotated file }

def addInstantiations (b : Board) (file : Text) (range : Range) (method : Text) (n : Int) :
    Board :=
  { b.annotate file with
    findings := { b.findings with
      instantiations :=
        b.findings.instantiations.update instantiationKind file range (method, n) } }

def addTriggers (b : Board) (file : Text) (range : Range) (t : ChosenTriggers) : Board :=
  { b.annotate file with
    findings := { b.findings with
      triggers := b.findings.triggers.update triggerKind file range
        ⟨t.quantifier, triggersText t.triggers⟩ } }

/-- An event about a quantifier belongs to the first span of its message. -/
def readQuantifier (b : Board) (o : Origin) (kind : EventKind) (text : Text) (spans : List Span) :
    Board :=
  match spans with
  | [] => b
  | span :: _ =>
    match span.range with
    | .error _ => b
    | .ok range =>
      let file := o.resolve span.fileName
      match kind with
      | .chosenTriggers =>
        match payload? ChosenTriggers.read text with
        | some t => b.addTriggers file range t
        | none => b
      | .instantiations =>
        match payload? Instantiations.read text with
        | some i => b.addInstantiations file range i.method i.count
        | none => b
      | _ =>
        match payload? LegacyInstantiations.read text with
        | some i => b.addInstantiations file range i.quantifier i.count
        | none => b

/--
Records where methods are defined, up to the first one whose place is off the map. The files are
noted only if all places are good.
-/
def recordProcedures (o : Origin) : Findings → List Text → List Procedure →
    Findings × Option (List Text)
  | f, files, [] => (f, some files)
  | f, files, p :: rest =>
    let site := p.span.callSite
    match site.range with
    | .error _ => (f, none)
    | .ok range =>
      let file := o.resolve site.fileName
      recordProcedures o (f.recordMethod file p.name range) (files ++ [file]) rest

def readCompilerInfo (b : Board) (o : Origin) (info : CompilerInfo) : Board :=
  match recordProcedures o b.findings [] info.procedures with
  | (findings, some files) => files.foldl annotate { b with findings }
  | (findings, none) => { b with findings }

/-- The file of a method that was defined before, or else the one that is being compiled. -/
def fileOfResult (b : Board) (o : Origin) (method : Text) : Text :=
  match b.findings.fileOfMethod? method with
  | some file => if file.isEmpty then o.defaultFile else file
  | none => o.defaultFile

def readMethodResult (b : Board) (o : Origin) (r : MethodResult) : Board :=
  let file := b.fileOfResult o r.method
  { b.annotate file with
    findings := b.findings.recordVerdict ⟨file, r.method, r.success, r.timeMs, r.cached⟩ }

def readEvent (b : Board) (o : Origin) (kind : EventKind) (text : Text) (spans : List Span) :
    Board :=
  match kind with
  | .compilerInfo =>
    match payload? CompilerInfo.read text with
    | some info => b.readCompilerInfo o info
    | none => b
  | .methodResult =>
    match payload? MethodResult.read text with
    | some r => b.readMethodResult o r
    | none => b
  | _ => b.readQuantifier o kind text spans

/--
A message that is no event becomes a diagnostic, which is shown at once if it is kept. In a file
without a URI it is kept but cannot be shown, and goes no further.
-/
def readDiagnostic (b : Board) (directory : FilePath) (o : Origin) (m : Message) :
    Board × List Effect :=
  match m.locate directory o with
  | .error _ => (b, [])
  | .ok located =>
    if b.store.keeps located.diagnostic then
      let store := b.store.add located
      match Uri.ofFile? directory located.file with
      | none => ({ b with store }, [])
      | some uri =>
        ({ b.touch located.file with store },
          [.diagnostics uri (store.diagnosticsOf located.file)])
    else (b.touch located.file, [])

/-- Takes in one line of a verifier. -/
def readLine (b : Board) (directory : FilePath) (o : Origin) (line : Text) :
    Board × List Effect :=
  match parseLine o line with
  | .ok (some (m, o')) =>
    match EventKind.ofText? m.message with
    | some (kind, text) => (b.readEvent o' kind text m.spans, [])
    | none => b.readDiagnostic directory o' m
  | _ => (b, [])

end Board

end VerifierHost
