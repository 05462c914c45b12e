import VerifierHost.Diagnostic.Store
import VerifierHost.Server.Supervisor

/-!
The server that all verifications share. It chooses where to listen and prints the number; the line
with the number makes it ready. Its address is known only while it is ready.
-/

namespace VerifierHost

/-- The number that a line announces: the digits after its first mention of one. -/
def announcedIn? : List CodePoint → Option (List CodePoint)
  | [] => none
  | c :: rest =>
    match afterWord? "port: " (c :: rest) with
    | none => announcedIn? rest
    | some tail =>
      let digits := tail.takeWhile (·.isIn Text.isDigit)
      if digits.isEmpty then announcedIn? rest else some digits

/-- The server answers on this machine. -/
def localAddress (digits : List CodePoint) : Text := "localhost:" ++ Text.mk digits

structure SharedServer where
  supervisor : Supervisor
  announced : Option Text

namespace SharedServer

def idle (name : Text) : SharedServer := ⟨.idle name, none⟩

def address (s : SharedServer) : Option Text :=
  if s.supervisor.state = .ready then s.announced else none

/-- Takes in a line; besides the waits it releases, lines to hand on are returned. -/
def takeLine (s : SharedServer) (lineUse : LineUse) (line : Text) :
    Except ServerError (SharedServer × List WaitId) :=
  match lineUse, announcedIn? line.points with
  | .announced, some digits =>
    match s.supervisor.setReady with
    | .error e => .error e
    | .ok (supervisor, ended) => .ok (⟨supervisor, some (localAddress digits)⟩, ended)
  | _, _ => .ok (s, [])

/-- Takes in lines until one of them is at odds with the state of the server. -/
def takeLines (s : SharedServer) (lineUse : LineUse) : List Text → SharedServer × List WaitId
  | [] => (s, [])
  | line :: rest =>
    match s.takeLine lineUse line with
    | .error _ => (s, [])
    | .ok (s', ended) =>
      let (s'', more) := s'.takeLines lineUse rest
      (s'', ended ++ more)

end SharedServer

end VerifierHost
