import VerifierHost.Table
import VerifierHost.Text.Basic
import VerifierHost.Waiting.Book

/-!
Waits for the next news about a file. Any number of waits may stand for one file; news about it
releases them all.
-/

namespace VerifierHost

structure Updates where
  pending : Table Text (List WaitId)
  book : WaitBook
  deriving DecidableEq, Repr

namespace Updates

def empty : Updates := ⟨[], .empty⟩

def waitFor (u : Updates) (file : Text) : Updates × WaitId :=
  let (book, id) := u.book.issue .pending
  (⟨u.pending.put file ((u.pending.get? file).getD [] ++ [id]), book⟩, id)

/-- Releases the waits for a file; those released are returned. -/
def notify (u : Updates) (file : Text) : Updates × List WaitId :=
  let (book, ended) := u.book.finishAll ((u.pending.get? file).getD []) .released
  (⟨u.pending.erase file, book⟩, ended)

/-- Releases the waits for some files, one file after the other. -/
def notifyFiles (u : Updates) (files : List Text) : Updates × List WaitId :=
  files.foldl (fun (u, ended) file =>
    let (u, more) := u.notify file
    (u, ended ++ more)) (u, [])

/-- Releases all waits; after the end of a run there is no more news. -/
def notifyAll (u : Updates) : Updates × List WaitId := u.notifyFiles u.pending.keys

/-- Cancels one wait, which its owner has given up. -/
def cancel (u : Updates) (id : WaitId) : Updates := { u with book := u.book.finish id .cancelled }

def cancelAll (u : Updates) : Updates × List WaitId :=
  let (book, ended) := u.book.finishAll (u.pending.flatMap Prod.snd) .cancelled
  (⟨[], book⟩, ended)

end Updates

end VerifierHost
