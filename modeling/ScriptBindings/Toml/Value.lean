/-!
# TOML values

The values of a configuration document.  Numbers with a fraction and points in time are not among
them.
-/

namespace ScriptBindings

/-- A value of a configuration document.  The keys of a table differ from each other.  A whole number may
be written in such a way that it has no value. -/
inductive Toml where
  | string (s : String)
  | integer (n : Option Int)
  | boolean (b : Bool)
  | array (items : List Toml)
  | table (entries : List (String × Toml))

namespace Toml

instance : Inhabited Toml := ⟨.table []⟩

/-- The text of a string. -/
def string? : Toml → Option String
  | .string s => some s
  | _ => none

/-- The items of an array. -/
def array? : Toml → Option (List Toml)
  | .array items => some items
  | _ => none

/-- The entries of a table. -/
def table? : Toml → Option (List (String × Toml))
  | .table entries => some entries
  | _ => none

/-- The texts of an array that holds nothing but strings. -/
def strings? (v : Toml) : Option (List String) :=
  v.array?.bind fun items => items.mapM string?

/-- Whole numbers are taken out of a document in 128 bits, with a sign or without. -/
def isNumber (n : Int) : Bool :=
  -170141183460469231731687303715884105728 ≤ n && n ≤ 340282366920938463463374607431768211455

mutual

/-- Can a value be taken out of a document?  A number may have no value, or be too great for that. -/
def isReadable : Toml → Bool
  | .integer n => n.any isNumber
  | .array items => areReadable items
  | .table entries => areReadableEntries entries
  | .string _ | .boolean _ => true

/-- Can all values be taken out? -/
def areReadable : List Toml → Bool
  | [] => true
  | v :: rest => v.isReadable && areReadable rest

/-- Can the values of all entries be taken out? -/
def areReadableEntries : List (String × Toml) → Bool
  | [] => true
  | (_, v) :: rest => v.isReadable && areReadableEntries rest

end

end Toml

end ScriptBindings
