import VerifierHost.Config.Value

/-!
Tables inside tables. A path of keys leads from a table to one inside it, which is made where it is
missing; a list on the way stands for its last item.
-/

namespace VerifierHost.Toml

open Config (Value)

abbrev Rows := Table Text Value

abbrev Path := List Text

/--
Changes the table at a path. There is no result if something else than a table is in the way, or if
the change itself has none.
-/
def alter (throughLists : Bool) (change : Rows → Option Rows) : Path → Rows → Option Rows
  | [], rows => change rows
  | key :: path, rows =>
    match Table.get? rows key with
    | none => (alter throughLists change path []).map fun t => Table.put rows key (.table t)
    | some (.table t) =>
      (alter throughLists change path t).map fun t => Table.put rows key (.table t)
    | some (.list items) =>
      match throughLists, items.getLast? with
      | true, some (.table t) =>
        (alter throughLists change path t).map fun t =>
          Table.put rows key (.list (items.dropLast ++ [.table t]))
      | _, _ => none
    | some _ => none

/-- Adds a row with a new key. -/
def addRow (key : Text) (value : Value) (rows : Rows) : Option Rows :=
  if Table.has rows key then none else some (Table.put rows key value)

/-- Adds an empty table to the list at a key. -/
def addItem (key : Text) (rows : Rows) : Option Rows :=
  match Table.get? rows key with
  | none => some (Table.put rows key (.list [.table []]))
  | some (.list items) => some (Table.put rows key (.list (items ++ [.table []])))
  | some _ => none

/-- Whether a value holds others; nothing may be added to such a value later. -/
def isContainer : Value → Bool
  | .list _ | .table _ => true
  | _ => false

/-- Whether a path lies at or below one of some closed paths. -/
def isClosed (closed : List Path) (path : Path) : Bool :=
  closed.any fun c => c.isPrefixOf path

/-- A path as the path of its table and its last key. -/
def Path.cut? (path : Path) : Option (Path × Text) :=
  path.getLast?.map fun key => (path.dropLast, key)

end VerifierHost.Toml
