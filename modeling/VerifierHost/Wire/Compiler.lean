import VerifierHost.Wire.Checked

/-!
The messages of a compiler. A message has spans, which mark source text, and child messages. A span
inside a macro has an expansion: the span of the place that the macro was called from.
-/

namespace VerifierHost.Wire

/-- How deep messages and spans may nest, a span counted with the messages that hold it. -/
def maxNesting : Nat := 254

structure Span where
  fileName : Text
  lineStart : Int
  lineEnd : Int
  columnStart : Int
  columnEnd : Int
  isPrimary : Bool
  label : Option Text
  expansion : Option Span

namespace Span

/-- Reads a span; the first argument is how deep spans may nest from here on. -/
def readWithin : Nat → Reader Span
  | 0 => fun _ => .fault .tooDeep
  | n + 1 => record fun fs =>
    Span.mk <$> required fs "file_name" string
      <*> required fs "line_start" int
      <*> required fs "line_end" int
      <*> required fs "column_start" int
      <*> required fs "column_end" int
      <*> required fs "is_primary" bool
      <*> withDefault fs "label" none (nullable string)
      <*> withDefault fs "expansion" none
        (nullable (record fun es => required es "span" (readWithin n)))

def read : Reader Span := readWithin maxNesting

def toJson : Span → Json
  | ⟨fileName, lineStart, lineEnd, columnStart, columnEnd, isPrimary, label, expansion⟩ =>
    .object [("file_name", .string fileName), ("line_start", .int lineStart),
      ("line_end", .int lineEnd), ("column_start", .int columnStart),
      ("column_end", .int columnEnd), ("is_primary", .bool isPrimary),
      ("label", Json.optional .string label),
      ("expansion", match expansion with
        | none => .null
        | some s => .object [("span", s.toJson)])]

end Span

/-- The place that a macro was called from. -/
structure Expansion where
  span : Span

def Expansion.read : Reader Expansion := record fun fs =>
  Expansion.mk <$> required fs "span" Span.read

def Expansion.toJson (e : Expansion) : Json := .object [("span", e.span.toJson)]

/-- An error code of the compiler. -/
structure Code where
  code : Text
  explanation : Option Text

def Code.read : Reader Code := record fun fs =>
  Code.mk <$> required fs "code" string <*> withDefault fs "explanation" none (nullable string)

def Code.toJson (c : Code) : Json :=
  .object [("code", .string c.code), ("explanation", Json.optional .string c.explanation)]

structure Message where
  message : Text
  code : Option Code
  level : Text
  spans : List Span
  children : List Message

namespace Message

/-- Reads a message; the first argument is how deep messages and spans may nest from here on. -/
def readWithin : Nat → Reader Message
  | 0 => fun _ => .fault .tooDeep
  | n + 1 => record fun fs =>
    Message.mk <$> required fs "message" string
      <*> withDefault fs "code" none (nullable Code.read)
      <*> withDefault fs "level" "" string
      <*> withDefault fs "spans" [] (list (Span.readWithin n))
      <*> withDefault fs "children" [] (list (readWithin n))

def read : Reader Message := readWithin maxNesting

mutual

def toJson : Message → Json
  | ⟨message, code, level, spans, children⟩ =>
    .object [("message", .string message), ("code", Json.optional Code.toJson code),
      ("level", .string level), ("spans", .array (spans.map Span.toJson)),
      ("children", .array (childrenToJson children))]

def childrenToJson : List Message → List Json
  | [] => []
  | m :: rest => toJson m :: childrenToJson rest

end

end Message

/-- The source file that a build tool was compiling. -/
structure Target where
  srcPath : Text

def Target.read : Reader Target := record fun fs => Target.mk <$> required fs "src_path" string

def Target.toJson (t : Target) : Json := .object [("src_path", .string t.srcPath)]

/-- A message wrapped by a build tool. -/
structure Envelope where
  message : Message
  target : Target

def Envelope.read : Reader Envelope := record fun fs =>
  Envelope.mk <$> required fs "message" Message.read <*> required fs "target" Target.read

def Envelope.toJson (e : Envelope) : Json :=
  .object [("message", e.message.toJson), ("target", e.target.toJson)]

end VerifierHost.Wire
