import VerifierHost.Session.Basic

/-!
The commands of an editor: their payloads and what is read out of them.
-/

namespace VerifierHost

/-- The kind of a value, as complaints name it. -/
def Json.kindName : Json → String
  | .null => "NoneType"
  | .bool _ => "bool"
  | .int _ => "int"
  | .float _ => "float"
  | .string _ => "str"
  | .array _ => "list"
  | .object _ => "dict"

def verifyCommand : Text := "prustiBridge.verify"

def showResultsCommand : Text := "prustiBridge.showResults"

/-- The fields of a payload, which has to be an object. -/
def requirePayload (command : Text) : Json → Except Violation (List (Text × Json))
  | .object fields => .ok fields
  | .null => .error ⟨"missing command payload", [("command", Text.quoted command)]⟩
  | payload => .error
    ⟨"invalid command payload type",
      [("command", Text.quoted command), ("payload_type", Text.quoted payload.kindName)]⟩

/-- The request in the payload of a verify command. -/
def Request.ofVerifyPayload (payload : Json) : Request :=
  match requirePayload verifyCommand payload with
  | .error v => .answered (.failed (.violation v))
  | .ok fields =>
    match Wire.VerifyRequest.read (.object fields) with
    | .invalid faults => .answered (.verified (.invalid faults))
    | .valid r =>
      match VerificationTarget.ofName? r.target with
      | none => .answered (.verified (.unknownTarget r.target))
      | some target => .verify r.path target r.serverAddress

/-- A request to verify a path as a target of some name, with a server that is known to run. -/
def Request.ofRun (path target address : Text) : Request :=
  match VerificationTarget.ofName? target with
  | none => .answered (.failed (.unknownTarget target))
  | some target => .run path target address

/-- A request about a document, if its URI makes sense. -/
def Request.about (uri : Text) (request : Text → Request) : Request :=
  match Uri.toPath uri with
  | .error e => .answered (.failed (.badUri e))
  | .ok path => request path.toText

/-- A request about a place in a document, given by its line and column. -/
def Request.ofHover (uri : Text) (line character : Int) : Request :=
  match Position.ofInts line character with
  | .error e => .answered (.failed (.badPosition e))
  | .ok position => .about uri fun file => .hover file position

def Request.ofHints (uri : Text) : Request := .about uri .hints

/-- A decoration as an editor gets it. -/
def Decoration.toRecord (file : Text) (d : Decoration) : Wire.DecorationRecord where
  fileName := file
  line := d.range.start.line.val
  character := d.range.start.character.val
  style := d.style.name
  timeMs := d.timeMs
  cached := d.cached

/-- The decorations of the path in a payload. -/
def Findings.showResults (f : Findings) (payload : Json) :
    Except Violation Wire.ShowResultsResponse :=
  (requirePayload showResultsCommand payload).map fun (fields : List (Text × Json)) =>
    match Table.get? fields "path" with
    | some (.string path) =>
      if path.isEmpty then ⟨[], ["path is required"]⟩
      else ⟨(f.decorations path).map (·.toRecord path), []⟩
    | _ => ⟨[], ["path is required"]⟩

end VerifierHost
