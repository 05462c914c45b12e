import VerifierHost.Json.Reader
import VerifierHost.Process.World

/-!
Recordings of processes as JSON: what a process wrote to its streams, how it ended, and how long
that took. From a recording a run of the program can be played again.
-/

namespace VerifierHost

/-- Bytes written as pairs of hexadecimal digits. -/
def bytesOfHex : List Char → Text.Bytes
  | high :: low :: rest =>
    UInt8.ofNat ((Json.hexDigit? high).getD 0 * 16 + (Json.hexDigit? low).getD 0) ::
      bytesOfHex rest
  | _ => []

/-- Bytes are given as a text or in hexadecimal digits, with or without blanks between them. -/
def bytesOfJson (v : Json) : Text.Bytes :=
  match v, v.get? "hex" with
  | .string s, _ => Text.utf8 s.chars
  | _, some (.string digits) => bytesOfHex (digits.chars.filter (!·.isWhitespace))
  | _, _ => []

/-- The chunks of a stream; a stream may be missing altogether. -/
def chunksOfJson (v : Json) (stream missing : Text) : Option (List Text.Bytes) :=
  match v.get? missing, v.get? stream with
  | some (.bool true), _ => none
  | _, some (.array chunks) => some (chunks.map bytesOfJson)
  | _, _ => some []

/-- A code may be unknown. -/
def ExitCode.ofJson : Json → ExitCode
  | .int n => some n
  | _ => none

/-- How long a process lasts; nothing is said if it takes no time. -/
def millisOfJson (v : Json) : Millis :=
  match v.get? "ms" with
  | some (.int n) => .whole n
  | some (.float x) => .fractional x
  | _ => .zero

/-- Whether a process ends when it is told to. -/
def diesWhenKilledOfJson (v : Json) : Bool :=
  match v.get? "on_kill" with
  | some (.string reaction) => reaction = "exit"
  | _ => false

/-- The recording of a process; without an exit it goes on. -/
def Script.ofJson (v : Json) : Script where
  stdout := chunksOfJson v "stdout" "no_stdout"
  stderr := chunksOfJson v "stderr" "no_stderr"
  exit := (v.get? "exit").map ExitCode.ofJson
  lasts := millisOfJson v
  diesWhenKilled := diesWhenKilledOfJson v

/-- The recording of a start, which may have failed with a fault of some name. -/
def Plan.ofJson (faultOfName : Text → Fault) (v : Json) : Plan :=
  match v.get? "fail" with
  | some (.string name) => .refused (faultOfName name)
  | _ => .started (.ofJson v)

end VerifierHost
