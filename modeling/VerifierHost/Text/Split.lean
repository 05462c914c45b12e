/-!
Cutting a sequence at one of its members, and looking for a sequence in another.
-/

namespace VerifierHost.Text

variable {α : Type} [DecidableEq α]

/-- The pieces between the occurrences of a separator; there is always at least one. -/
def splitOn (separator : α) : List α → List (List α)
  | [] => [[]]
  | c :: rest =>
    if c = separator then [] :: splitOn separator rest
    else
      match splitOn separator rest with
      | [] => [[c]]
      | piece :: pieces => (c :: piece) :: pieces

/-- What stands before and after the first occurrence of a separator. -/
def cutAt? (separator : α) (cs : List α) : Option (List α × List α) :=
  match cs.span (· ≠ separator) with
  | (_, []) => none
  | (before, _ :: rest) => some (before, rest)

/-- Whether a sequence occurs in another. -/
def occursIn (needle : List α) : List α → Bool
  | [] => needle.isEmpty
  | c :: rest => needle.isPrefixOf (c :: rest) || occursIn needle rest

/-- What stands before the first occurrence of a separator, or all of it. -/
def before (separator : α) (cs : List α) : List α := cs.takeWhile (· ≠ separator)

/-- What follows a beginning, if the sequence starts with it. -/
def after? (beginning cs : List α) : Option (List α) :=
  if beginning.isPrefixOf cs then some (cs.drop beginning.length) else none

end VerifierHost.Text
