import ScriptBindings.Binding.Strategy
import ScriptBindings.CppType.Printer
import ScriptBindings.Entity.Database

/-!
# Adapting parameters

Scripts cannot pass everything that a program takes.  A reference to an abstract class is passed as a
pointer, a reference to a temporary as a value that is moved, and a reference to a variable of a
built-in type as a value.
-/

namespace ScriptBindings.Binding

/-- Is it a type that names an abstract class? -/
def isAbstractType (db : Database) (t : CppType) : Bool :=
  (db.class? t.baseName).any (·.isAbstract)

/-- Is it a type that names a class whose objects cannot be copied? -/
def isNonCopyableType (db : Database) (t : CppType) : Bool :=
  (db.class? t.baseName).any (·.flags.nonCopyable)

/-- A parameter as a wrapper takes it and passes it on. -/
structure Adapted where
  ty : String
  name : String
  argument : String
  reason : Option WrapperReason
deriving DecidableEq, Repr

/-- The mark of a pointer in place of the mark of a reference. -/
def pointerMark (mark : String) : String :=
  if mark = "const&" then "const*" else "*"

/-- Change the outermost mark of a type. -/
def mapOutermost (f : String → List String) (t : CppType) : CppType :=
  match t.quals.trailing.getLast? with
  | none => t
  | some mark => t.withQuals ⟨t.quals.leading, t.quals.trailing.dropLast ++ f mark⟩

/-- Adapt a parameter of a type. -/
def adapt (db : Database) (t : CppType) (name : String) : Adapted :=
  let q := t.quals
  if q.isLvalueRef && isAbstractType db t then
    ⟨(mapOutermost (fun mark => [pointerMark mark]) t).text, name, "*" ++ name,
      some .abstractReference⟩
  else if q.isRvalueRef then
    ⟨(mapOutermost (fun _ => []) t).text, name, "std::move(" ++ name ++ ")",
      some .rvalueReference⟩
  else if q.isLvalueRef && !q.isConst && t.isPrimitive then
    ⟨t.unqualified.text, name, name, some .primitiveReference⟩
  else ⟨t.text, name, name, none⟩

/-- Adapt a declared parameter. -/
def adaptParameter (db : Database) (p : Parameter) : Adapted :=
  adapt db p.ty p.name

/-- Does a parameter have to be adapted? -/
def requiresProxy (db : Database) (f : Callable) : Bool :=
  f.params.any fun p => (adaptParameter db p).reason.isSome

/-- A result that must be returned as a pointer: a constant reference to what cannot be copied. -/
def returnsByPointer (db : Database) (f : Callable) : Bool :=
  f.result.any fun t => t.quals.isConstRef && isNonCopyableType db t

/-- A pointer to a constant of a type. -/
def constPointerText (t : CppType) : String :=
  (t.withQuals ⟨["const"], ["*"]⟩).text

end ScriptBindings.Binding
