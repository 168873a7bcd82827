import ScriptBindings.CppType.Printer
import ScriptBindings.Symbol.Index

/-!
# Qualifying the names of a type

Documentation writes the names of types as the program text does.  A name is completed with the
innermost enclosing scope in which it is a type, or else by the only type that ends with it.  Where
several types end with it nothing is guessed.
-/

namespace ScriptBindings.CppType

/-- The scopes that enclose a place, innermost first. -/
def enclosingScopes (context : String) : List String :=
  let parts := Name.scopes context
  (List.range parts.length).reverse.map fun k => Name.joinScopes (parts.take (k + 1))

/-- A name that is complete as it stands. -/
def isSettled (index : SymbolIndex) (name : String) : Bool :=
  name = "" || Text.startsWith "::" name || name.toList.contains '<' || isPrimitiveName name ||
    index.isType name

/-- The qualified form of a name that is used in a context. -/
def qualifyName (index : SymbolIndex) (context name : String) : Except Fault String :=
  if isSettled index name then .ok name
  else
    match ((enclosingScopes context).map fun s => s ++ "::" ++ name).find? index.isType with
    | some fqn => .ok fqn
    | none =>
        match index.typesEndingWith name with
        | [] => .ok name
        | [fqn] => .ok fqn
        | candidates => .error (.ambiguousName name context candidates)

/-- Qualify all names of a type except those to keep. -/
def repair (index : SymbolIndex) (context : String) (keep : List String) (t : CppType) :
    Except Fault CppType :=
  t.mapNames fun name =>
    if keep.contains name then .ok name else qualifyName index context name

end ScriptBindings.CppType
