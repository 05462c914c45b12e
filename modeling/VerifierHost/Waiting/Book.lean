/-!
One-shot waits. A book hands out numbered waits; each is pending until it is released or cancelled,
and stays as it is from then on.
-/

namespace VerifierHost

abbrev WaitId := Nat

inductive WaitStatus where
  | pending
  | released
  | cancelled
  deriving DecidableEq, Repr

/-- The status of every wait handed out so far; the next one gets the number after the last. -/
structure WaitBook where
  statuses : List WaitStatus
  deriving DecidableEq, Repr

namespace WaitBook

def empty : WaitBook := ⟨[]⟩

/-- Hands out a new wait. -/
def issue (b : WaitBook) (status : WaitStatus) : WaitBook × WaitId :=
  (⟨b.statuses ++ [status]⟩, b.statuses.length)

def status? (b : WaitBook) (id : WaitId) : Option WaitStatus := b.statuses[id]?

def isPending (b : WaitBook) (id : WaitId) : Bool := b.status? id = some .pending

/-- Ends a wait, unless it has ended before. -/
def finish (b : WaitBook) (id : WaitId) (status : WaitStatus) : WaitBook :=
  if b.isPending id then ⟨b.statuses.set id status⟩ else b

/-- Ends those of the waits that are pending; they are returned in order. -/
def finishAll (b : WaitBook) (ids : List WaitId) (status : WaitStatus) : WaitBook × List WaitId :=
  ids.foldl (fun (b, ended) id =>
    if b.isPending id then (b.finish id status, ended ++ [id]) else (b, ended)) (b, [])

end WaitBook

end VerifierHost
