import VerifierHost.Wire.Checked

/-!
The commands that an editor sends and the answers it gets.
-/

namespace VerifierHost.Wire

/-- A request to verify a path. -/
structure VerifyRequest where
  path : Text
  target : Text
  serverAddress : Option Text

def VerifyRequest.read : Reader VerifyRequest := record fun fs =>
  VerifyRequest.mk <$> required fs "path" string
    <*> withDefault fs "target" "file" string
    <*> withDefault fs "server_address" none (nullable string)

def VerifyRequest.toJson (r : VerifyRequest) : Json :=
  .object [("path", .string r.path), ("target", .string r.target),
    ("server_address", Json.optional .string r.serverAddress)]

/-- A decoration as an editor gets it. -/
structure DecorationRecord where
  fileName : Text
  line : Int
  character : Int
  style : Text
  timeMs : Option Int
  cached : Option Bool

def DecorationRecord.read : Reader DecorationRecord := record fun fs =>
  DecorationRecord.mk <$> required fs "file_name" string
    <*> required fs "line" int
    <*> required fs "character" int
    <*> required fs "style" string
    <*> withDefault fs "time_ms" none (nullable int)
    <*> withDefault fs "cached" none (nullable bool)

def DecorationRecord.toJson (d : DecorationRecord) : Json :=
  .object [("file_name", .string d.fileName), ("line", .int d.line),
    ("character", .int d.character), ("style", .string d.style),
    ("time_ms", Json.optional .int d.timeMs), ("cached", Json.optional .bool d.cached)]

structure ShowResultsResponse where
  decorations : List DecorationRecord
  errors : List Text

def ShowResultsResponse.read : Reader ShowResultsResponse := record fun fs =>
  ShowResultsResponse.mk <$> withDefault fs "decorations" [] (list DecorationRecord.read)
    <*> withDefault fs "errors" [] (list string)

def ShowResultsResponse.toJson (r : ShowResultsResponse) : Json :=
  .object [("decorations", .array (r.decorations.map DecorationRecord.toJson)),
    ("errors", Json.strings r.errors)]

structure VerifyResponse where
  status : Text
  text : Text
  counts : List (Text × Int)

def VerifyResponse.read : Reader VerifyResponse := record fun fs =>
  VerifyResponse.mk <$> required fs "status" string
    <*> required fs "text" string
    <*> withDefault fs "counts" [] (dictionary int)

def VerifyResponse.toJson (r : VerifyResponse) : Json :=
  .object [("status", .string r.status), ("text", .string r.text),
    ("counts", .object (r.counts.map fun (name, n) => (name, .int n)))]

end VerifierHost.Wire
