import VerifierHost.Table
import VerifierHost.Violation
import VerifierHost.Waiting.Book

/-!
A variable with a fixed set of states that can be waited for. At most one wait per state is pending:
a newer one takes the place of the older, which is cancelled.
-/

namespace VerifierHost

structure Phases (σ : Type) where
  states : List σ
  current : σ
  waiting : Table σ WaitId
  book : WaitBook

namespace Phases

variable {σ : Type} [DecidableEq σ]

/-- The variable at the start, unless its first state is not one of its states. -/
def start? (states : List σ) (initial : σ) : Option (Phases σ) :=
  if initial ∈ states then some ⟨states, initial, [], .empty⟩ else none

/-- Moves to a state and releases the wait for it. Nothing happens if there is no such state. -/
def set? (p : Phases σ) (state : σ) : Option (Phases σ × List WaitId) :=
  if state ∈ p.states then
    match p.waiting.get? state with
    | none => some ({ p with current := state }, [])
    | some id =>
      let (book, ended) := p.book.finishAll [id] .released
      some ({ p with current := state, waiting := p.waiting.erase state, book }, ended)
  else none

/--
Starts to wait for a state; the wait for the current state is released at once. Besides the new wait
the one it replaces is returned. Nothing happens if there is no such state.
-/
def waitFor? (p : Phases σ) (state : σ) : Option (Phases σ × WaitId × List WaitId) :=
  if state ∈ p.states then
    if p.current = state then
      let (book, id) := p.book.issue .released
      some ({ p with book }, id, [])
    else
      let (book, ended) := p.book.finishAll (p.waiting.get? state).toList .cancelled
      let (book, id) := book.issue .pending
      some ({ p with waiting := p.waiting.put state id, book }, id, ended)
  else none

/-- Cancels one wait, which its owner has given up. -/
def cancel (p : Phases σ) (id : WaitId) : Phases σ :=
  { p with book := p.book.finish id .cancelled }

/-- Cancels all waits. -/
def cancelAll (p : Phases σ) : Phases σ × List WaitId :=
  let (book, ended) := p.book.finishAll (p.waiting.map Prod.snd) .cancelled
  ({ p with waiting := [], book }, ended)

end Phases

end VerifierHost
