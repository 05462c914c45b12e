import VerifierHost.Session.Basic

/-!
The trace of a session as JSON: what happened and what is known. Positions and ranges are lists of
their numbers.
-/

namespace VerifierHost

def Position.toJson (p : Position) : Json := .array [.int p.line.val, .int p.character.val]

def Range.toJson (r : Range) : Json :=
  .array [.int r.start.line.val, .int r.start.character.val, .int r.stop.line.val,
    .int r.stop.character.val]

def Mode.name : Mode → String
  | .crate => "crate"
  | .standalone => "standalone"

def Origin.toJson (o : Origin) : Json :=
  .object [("root_path", .string o.rootPath), ("mode", .string o.mode.name),
    ("default_file_path", .string o.defaultFile),
    ("default_range", Json.optional Range.toJson o.defaultRange)]

def Related.toJson (r : Related) : Json :=
  .object [("uri", .string r.uri), ("range", r.range.toJson), ("message", .string r.message)]

def Diagnostic.toJson (d : Diagnostic) : Json :=
  .object [("range", d.range.toJson), ("message", .string d.message),
    ("severity", Json.optional (fun v : Severity => .string v.name) d.severity),
    ("source", Json.optional .string d.source),
    ("related", .array (d.related.map Related.toJson))]

def Located.toJson (l : Located) : Json :=
  .object [("file_path", .string l.file), ("diagnostic", l.diagnostic.toJson)]

def Decoration.toJson (d : Decoration) : Json :=
  .object [("range", d.range.toJson), ("style", .string d.style.name),
    ("time_ms", Json.optional .int d.timeMs), ("cached", Json.optional .bool d.cached)]

def Annotation.toJson (a : Annotation) : Json :=
  .object [("range", a.range.toJson), ("position", a.position.toJson),
    ("label", .string a.label), ("tooltip", .string a.tooltip)]

def Environment.toJson (e : Environment) : Json := .object (e.map fun (k, v) => (k, .string v))

def Settings.toJson (s : Settings) : Json :=
  .object [("report_errors_only", .bool s.errorsOnly),
    ("extra_cargo_prusti_args", Json.strings s.cargoArgs),
    ("extra_prusti_rustc_args", Json.strings s.rustcArgs),
    ("extra_prusti_env", Environment.toJson s.extraEnvironment),
    ("java_home", Json.optional .string s.javaHome),
    ("prusti_home", Json.optional .string s.verifierHome)]

/-- A process is always started in a session of its own, so that it can be killed as a whole. -/
def Call.toJson (c : Call) : Json :=
  .object [("command", .string c.command), ("args", Json.strings c.args),
    ("cwd", Json.optional .string c.directory),
    ("env", Json.optional Environment.toJson c.environment), ("new_session", .bool true)]

def Stream.name : Stream → String
  | .stdout => "stdout"
  | .stderr => "stderr"

def Invocation.toJson (i : Invocation) : Json :=
  .object [("command", .string i.command), ("args", Json.strings i.args),
    ("cwd", .string i.directory), ("env", Environment.toJson i.environment),
    ("json_stream", .string i.jsonStream.name), ("context", i.origin.toJson)]

def Toolchain.toJson (t : Toolchain) : Json :=
  .object [("cargo_prusti", .string t.cargo), ("prusti_rustc", .string t.rustc),
    ("prusti_server", .string t.server)]

def StatusText.toJson (t : StatusText) : Json :=
  .object [("text", .string t.text), ("command", Json.optional .string t.command)]

/-- Numbers of diagnostics by a name of their severity. -/
def countsToJson (name : Severity → String) (counts : List (Severity × Nat)) : Json :=
  .object (counts.map fun (v, n) => (name v, .int n))

def RunOutcome.toJson (o : RunOutcome) : Json :=
  .object [("run_id", .int o.run), ("status", .string o.status.name), ("text", .string o.text.text),
    ("command", Json.optional .string o.text.command), ("has_duration", .bool o.seconds.isSome),
    ("counts", countsToJson Severity.label o.counts)]

/-- An answer, unless the request came to nothing. -/
def Answer.toJson : Answer → Except Failure Json
  | .done | .outcome none | .hover none => .ok .null
  | .address a => .ok (.string a)
  | .hover (some text) => .ok (.array [.string "plaintext", .string text])
  | .hints annotations => .ok (.array (annotations.map fun a =>
      .array [a.position.toJson, .string a.label, .string a.tooltip]))
  | .outcome (some o) => .ok o.toJson
  | .verified reply => .ok reply.toJson
  | .failed why => .error why

/-- The payloads of a file by their ranges. -/
def payloadsToJson {π : Type} (encode : π → Json) (payloads : Table Range π) : Json :=
  .array (payloads.map fun (r, payload) => .array [r.toJson, encode payload])

def methodCountsToJson (counts : Table Text Int) : Json :=
  .object (counts.map fun (method, n) => (method, .int n))

def Triggers.toJson (t : Triggers) : Json := .array [.string t.quantifier, .string t.triggers]

def AnnotationIndex.toJson {π : Type} (encode : π → Json) (x : AnnotationIndex π) : Json :=
  .array (x.files.map fun file =>
    .array [.string file, payloadsToJson encode (x.entriesOf file)])

def Verdict.toJson (v : Verdict) : Json :=
  .object [("file", .string v.file), ("method", .string v.method), ("success", .bool v.success),
    ("time_ms", Json.optional .int v.timeMs), ("cached", .bool v.cached)]

def Findings.toFields (f : Findings) : List (Text × Json) :=
  [("instantiations", f.instantiations.toJson methodCountsToJson),
    ("triggers", f.triggers.toJson Triggers.toJson),
    ("results", .array (f.verdicts.map Verdict.toJson)),
    ("method_ranges", .array (f.methodRanges.map fun ((file, method), r) =>
      .array [.string file, .string method, r.toJson]))]

/-- The messages of a store by file. -/
def Store.toJson (s : Store) : Json :=
  .array (s.entries.map fun (file, ds) =>
    .array [.string file, Json.strings (ds.map Diagnostic.message)])

/-- What is known in a session, and how far it has come. -/
def Session.toFields (s : Session) : List (Text × Json) :=
  ("run_count", .int s.engine.runCount) :: ("in_progress", .int s.engine.inProgress) ::
    ("store", s.engine.board.store.toJson) ::
    ("annotated", Json.strings (Engine.sortedNames s.engine.board.annotated)) ::
    ("address", Json.optional .string s.server.address) ::
    ("server", .string s.server.supervisor.state.name) :: s.findings.toFields

def Effect.toJson : Effect → Json
  | .diagnostics uri ds =>
    .array [.string "diagnostics", .string uri, .array (ds.map Diagnostic.toJson)]
  | .clearDiagnostics => .array [.string "clear_diagnostics"]
  | .status t => .array [.string "status", .string t.text, Json.optional .string t.command]
  | .busy isBusy => .array [.string "busy", .bool isBusy]
  | .errorNotice text => .array [.string "notify_error", .string text]
  | .decorations file ds =>
    .array [.string "decorations", .string file, .array (ds.map Decoration.toJson)]
  | .refreshHints => .array [.string "refresh_inlay_hints"]

def WaitStatus.name : WaitStatus → String
  | .pending => "pending"
  | .released => "done"
  | .cancelled => "cancelled"

/-- Puts an event about a process in front of the neighbouring ones about later processes. -/
def insertByPid (pid : Pid) (event : Json) :
    List (Option Pid × Json) → List (Option Pid × Json)
  | [] => [(some pid, event)]
  | (some other, e) :: rest =>
    if other < pid then (some other, e) :: insertByPid pid event rest
    else (some pid, event) :: (some other, e) :: rest
  | rest => (some pid, event) :: rest

/-- Events in their order, but those about a process sorted among neighbours of their kind. -/
def sortByPid (events : List (Option Pid × Json)) : List Json :=
  (events.foldr (fun (pid, e) rest =>
    match pid with
    | some pid => insertByPid pid e rest
    | none => (none, e) :: rest) []).map Prod.snd

/-- A line of a supervised process by its stream. -/
def lineToJson (stream : Stream) (text : Text) : Json :=
  let name := match stream with
    | .stdout => "out"
    | .stderr => "err"
  .array [.string name, .string text]

end VerifierHost
