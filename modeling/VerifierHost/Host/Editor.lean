import VerifierHost.Session.Commands

/-!
An editor as a host: what is to be shown becomes notifications of the language server protocol, and
some of the protocol's notions of diagnostics are spelled out here.
-/

namespace VerifierHost

def Position.toProtocol (p : Position) : Json :=
  .object [("line", .int p.line.val), ("character", .int p.character.val)]

def Range.toProtocol (r : Range) : Json :=
  .object [("start", r.start.toProtocol), ("end", r.stop.toProtocol)]

def Related.toProtocol (r : Related) : Json :=
  .object
    [("location", .object [("uri", .string r.uri), ("range", r.range.toProtocol)]),
      ("message", .string r.message)]

/-- A field that is left out where there is no value for it. -/
def optionalField {α : Type} (name : Text) (toJson : α → Json) : Option α → List (Text × Json)
  | none => []
  | some a => [(name, toJson a)]

def Diagnostic.toProtocol (d : Diagnostic) : Json :=
  let related : Text × Json := ("relatedInformation", .array (d.related.map Related.toProtocol))
  .object <|
    ("range", d.range.toProtocol) :: ("message", .string d.message) ::
      (optionalField "severity" (fun v => .int v.number) d.severity ++
        optionalField "source" .string d.source ++ [related])

structure Notification where
  method : Text
  params : Json

namespace Notification

def toJson (n : Notification) : Json := .array [.string "notify", .string n.method, n.params]

def busy (isBusy : Bool) : Notification :=
  ⟨"prustiBridge/busy", .object [("busy", .bool isBusy)]⟩

def status (t : StatusText) : Notification :=
  ⟨"prustiBridge/status",
    .object [("text", .string t.text), ("command", Json.optional .string t.command)]⟩

/-- Messages of the protocol have a kind; this one is for errors. -/
def errorKind : Int := 1

def showError (text : Text) : Notification :=
  ⟨"window/showMessage", .object [("type", .int errorKind), ("message", .string text)]⟩

def publish (uri : Text) (shown : List Diagnostic) : Notification :=
  ⟨"textDocument/publishDiagnostics",
    .object [("uri", .string uri), ("diagnostics", .array (shown.map Diagnostic.toProtocol))]⟩

def decorations (file : Text) (shown : List Decoration) : Notification :=
  ⟨"prustiBridge/decorations",
    .object
      [("path", .string file),
        ("decorations", .array (shown.map fun d => (d.toRecord file).toJson))]⟩

def refreshHints : Notification := ⟨"workspace/inlayHint/refresh", .null⟩

end Notification

/-- An editor, as far as its host has to know it: the documents with published diagnostics. -/
structure Editor where
  published : List Text

namespace Editor

def start : Editor := ⟨[]⟩

/-- The notifications that show something; the protocol has to clear documents one by one. -/
def tell (e : Editor) : Effect → Editor × List Notification
  | .busy isBusy => (e, [.busy isBusy])
  | .status text => (e, [.status text])
  | .errorNotice text => (e, [.showError text])
  | .diagnostics uri shown => (⟨insertName e.published uri⟩, [.publish uri shown])
  | .clearDiagnostics =>
    (⟨[]⟩, (Engine.sortedNames e.published).map fun uri => .publish uri [])
  | .decorations file shown => (e, [.decorations file shown])
  | .refreshHints => (e, [.refreshHints])

end Editor

/-- The commands that an editor can call and the features of the protocol that are answered. -/
structure Offer where
  commands : List Text
  features : List Text

/-- The version that an editor is told. -/
def hostVersion : Text := "0.1.0"

def editorOffer : Offer where
  commands := [showResultsCommand, verifyCommand]
  features := ["textDocument/hover", "textDocument/inlayHint"]

end VerifierHost
