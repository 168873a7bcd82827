import ScriptBindings.Toml.Value

/-!
# Tables in the making

The lines of a document add to its tables one after the other.  A table is written out at one place: a
header must not name a table that is complete, and a dotted key only adds to tables that have no header
of their own.  A table that a dotted key adds to belongs to dotted keys from then on, so that no header
may name it later, though headers may still go through it.
-/

namespace ScriptBindings.Toml

/-- How a table has come about so far: by a header of its own, only on the way to other tables, or by
dotted keys. -/
inductive Origin where
  | header
  | onTheWay
  | dotted
deriving DecidableEq, Repr

/-- A value, a table that may still grow, or an array of tables of which the last one may grow. -/
inductive Draft where
  | value (v : Toml)
  | table (origin : Origin) (entries : List (String × Draft))
  | tables (done : List Toml) (current : List (String × Draft))

namespace Draft

/-- Entries of a table in the making. -/
abbrev Entries := List (String × Draft)

/-- Put a value in place of the one that a key has. -/
def replace (key : String) (d : Draft) (entries : Entries) : Entries :=
  entries.map fun (k, old) => if k = key then (k, d) else (k, old)

mutual

/-- The finished value. -/
def finish : Draft → Toml
  | .value v => v
  | .table _ entries => .table (finishEntries entries)
  | .tables done current => .array (done ++ [.table (finishEntries current)])

/-- The finished entries of a table. -/
def finishEntries : Entries → List (String × Toml)
  | [] => []
  | (key, d) :: rest => (key, d.finish) :: finishEntries rest

end

/-- Change the table at the end of a path, making the tables that are missing.  Dotted keys take over
the tables on their way, except that tables of arrays stay with their headers. -/
def within? (made : Origin) (change : Origin → Entries → Option Entries) :
    List String → Origin → Entries → Option Entries
  | [], origin, entries => change origin entries
  | key :: path, _, entries =>
      match entries.lookup key with
      | none => do
          let inner ← within? made change path made []
          return entries ++ [(key, .table made inner)]
      | some (.table origin inner) =>
          if made = .dotted ∧ origin = .header then none
          else do
            let origin := if made = .dotted then .dotted else origin
            let inner ← within? made change path origin inner
            return replace key (.table origin inner) entries
      | some (.tables done current) => do
          let current ← within? made change path .header current
          return replace key (.tables done current) entries
      | some (.value _) => none

/-- Give a value to a key, behind the dotted keys of a path.  The key must not have a value. -/
def assign? (path : List String) (key : String) (v : Toml) (entries : Entries) : Option Entries :=
  let add (origin : Origin) (entries : Entries) : Option Entries :=
    if origin = .dotted ↔ path = [] then none
    else if (entries.lookup key).isSome then none
    else some (entries ++ [(key, .value v)])
  within? .dotted add path .header entries

/-- Write a table out. -/
def openTable? (path : List String) (key : String) (entries : Entries) : Option Entries :=
  let add (_ : Origin) (entries : Entries) : Option Entries :=
    match entries.lookup key with
    | none => some (entries ++ [(key, .table .header [])])
    | some (.table .onTheWay inner) => some (replace key (.table .header inner) entries)
    | some _ => none
  within? .onTheWay add path .header entries

/-- Write one more table of an array out. -/
def openItem? (path : List String) (key : String) (entries : Entries) : Option Entries :=
  let add (_ : Origin) (entries : Entries) : Option Entries :=
    match entries.lookup key with
    | none => some (entries ++ [(key, .tables [] [])])
    | some (.tables done current) =>
        some (replace key (.tables (done ++ [.table (finishEntries current)]) []) entries)
    | some _ => none
  within? .onTheWay add path .header entries

end Draft

end ScriptBindings.Toml
