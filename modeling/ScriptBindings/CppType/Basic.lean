/-!
# C++ types

A type is a name, a template with its arguments, or a function with its result and its arguments.
Each node carries the qualifiers written around it.  Words are kept as texts because a type can be
built from any words; which words the reader recognises is stated where types are read.
-/

namespace ScriptBindings

/-- The words in front of a type and the marks behind it, both in the order in which they are
written: `int* const` has the marks `*` and `const`. -/
structure Qualifiers where
  leading : List String := []
  trailing : List String := []
deriving DecidableEq, Repr, Inhabited

mutual

/-- A C++ type. -/
inductive CppType where
  | base (name : String) (quals : Qualifiers)
  | template (name : String) (quals : Qualifiers) (args : List CppType)
  | function (result : CppType) (quals : Qualifiers) (args : List FunctionArg)

/-- An argument of a function type.  An argument without a name of its own has a generated one,
which tells its position and is not written. -/
structure FunctionArg where
  ty : CppType
  quals : Qualifiers
  name : String
  generated : Bool

end

namespace Qualifiers

/-- Neither words nor marks. -/
def isEmpty (q : Qualifiers) : Bool :=
  q.leading.isEmpty && q.trailing.isEmpty

/-- `const` stands in front. -/
def leadsConst (q : Qualifiers) : Bool :=
  q.leading.contains "const"

/-- A reference to a constant, however the constness is written. -/
def isConstRef (q : Qualifiers) : Bool :=
  match q.trailing with
  | ["&"] => q.leadsConst
  | ["const&"] => true
  | ["const", "&"] => true
  | _ => false

/-- The outermost mark is a reference. -/
def isLvalueRef (q : Qualifiers) : Bool :=
  q.trailing.getLast?.any fun mark => mark = "&" || mark = "const&"

/-- The outermost mark is a reference to a temporary. -/
def isRvalueRef (q : Qualifiers) : Bool :=
  q.trailing.getLast?.any (· = "&&")

/-- The outermost mark is a pointer. -/
def isPointer (q : Qualifiers) : Bool :=
  q.trailing.getLast?.any fun mark => mark = "*" || mark = "const*"

/-- Something about the type is constant. -/
def isConst (q : Qualifiers) : Bool :=
  q.leadsConst || q.trailing.any fun mark => "const".toList.isPrefixOf mark.toList

/-- The qualifiers of a type put in place of a qualified one: the outer words come first and the
outer marks last. -/
def around (outer inner : Qualifiers) : Qualifiers :=
  ⟨outer.leading ++ inner.leading, inner.trailing ++ outer.trailing⟩

end Qualifiers

namespace CppType

instance : Inhabited CppType := ⟨.base "" {}⟩

/-- A bare name. -/
def named (name : String) : CppType := .base name {}

/-- The qualifiers of the whole type. -/
def quals : CppType → Qualifiers
  | .base _ q => q
  | .template _ q _ => q
  | .function _ q _ => q

/-- The type with other qualifiers. -/
def withQuals : CppType → Qualifiers → CppType
  | .base n _, q => .base n q
  | .template n _ args, q => .template n q args
  | .function r _ args, q => .function r q args

/-- The type without the qualifiers of the whole. -/
def unqualified (t : CppType) : CppType :=
  t.withQuals {}

/-- The outermost name; a function type has the name of its result. -/
def baseName : CppType → String
  | .base n _ => n
  | .template n _ _ => n
  | .function r _ _ => r.baseName

/-- `void` itself, and not a pointer to it. -/
def isVoid : CppType → Bool
  | .base n q => n = "void" && q.trailing.isEmpty
  | _ => false

mutual

/-- The names of the type, from left to right. -/
def names : CppType → List String
  | .base n _ => [n]
  | .template n _ args => n :: namesOfList args
  | .function r _ args => r.names ++ namesOfArgs args

/-- The names of several types. -/
def namesOfList : List CppType → List String
  | [] => []
  | t :: ts => t.names ++ namesOfList ts

/-- The names in the types of function arguments. -/
def namesOfArgs : List FunctionArg → List String
  | [] => []
  | ⟨ty, _, _, _⟩ :: rest => ty.names ++ namesOfArgs rest

end

mutual

/-- Change every name, from left to right, where a change may fail. -/
def mapNames {ε : Type} (f : String → Except ε String) : CppType → Except ε CppType
  | .base n q => do return .base (← f n) q
  | .template n q args => do
      let n ← f n
      return .template n q (← mapNamesOfList f args)
  | .function r q args => do
      let r ← r.mapNames f
      return .function r q (← mapNamesOfArgs f args)

/-- `mapNames` on several types. -/
def mapNamesOfList {ε : Type} (f : String → Except ε String) :
    List CppType → Except ε (List CppType)
  | [] => return []
  | t :: ts => do
      let t ← t.mapNames f
      return t :: (← mapNamesOfList f ts)

/-- `mapNames` on the types of function arguments. -/
def mapNamesOfArgs {ε : Type} (f : String → Except ε String) :
    List FunctionArg → Except ε (List FunctionArg)
  | [] => return []
  | ⟨ty, q, name, generated⟩ :: rest => do
      let ty ← ty.mapNames f
      return ⟨ty, q, name, generated⟩ :: (← mapNamesOfArgs f rest)

end

mutual

/-- Equality of types is decidable. -/
def decEq : (a b : CppType) → Decidable (a = b)
  | .base n q, .base m p =>
      if h : n = m ∧ q = p then isTrue (by rw [h.1, h.2])
      else isFalse fun e => h (by cases e; exact ⟨rfl, rfl⟩)
  | .template n q as, .template m p bs =>
      if h : n = m ∧ q = p then
        match decEqList as bs with
        | isTrue e => isTrue (by rw [h.1, h.2, e])
        | isFalse ne => isFalse fun e => ne (by cases e; rfl)
      else isFalse fun e => h (by cases e; exact ⟨rfl, rfl⟩)
  | .function r q as, .function s p bs =>
      if h : q = p then
        match decEq r s, decEqArgs as bs with
        | isTrue e, isTrue e' => isTrue (by rw [h, e, e'])
        | isFalse ne, _ => isFalse fun e => ne (by cases e; rfl)
        | _, isFalse ne => isFalse fun e => ne (by cases e; rfl)
      else isFalse fun e => h (by cases e; rfl)
  | .base .., .template .. => isFalse nofun
  | .base .., .function .. => isFalse nofun
  | .template .., .base .. => isFalse nofun
  | .template .., .function .. => isFalse nofun
  | .function .., .base .. => isFalse nofun
  | .function .., .template .. => isFalse nofun

/-- Equality of lists of types is decidable. -/
def decEqList : (as bs : List CppType) → Decidable (as = bs)
  | [], [] => isTrue rfl
  | a :: as, b :: bs =>
      match decEq a b, decEqList as bs with
      | isTrue e, isTrue e' => isTrue (by rw [e, e'])
      | isFalse ne, _ => isFalse fun e => ne (by cases e; rfl)
      | _, isFalse ne => isFalse fun e => ne (by cases e; rfl)
  | [], _ :: _ => isFalse nofun
  | _ :: _, [] => isFalse nofun

/-- Equality of lists of function arguments is decidable. -/
def decEqArgs : (as bs : List FunctionArg) → Decidable (as = bs)
  | [], [] => isTrue rfl
  | ⟨a, q, n, g⟩ :: as, ⟨b, p, m, h⟩ :: bs =>
      if e : q = p ∧ n = m ∧ g = h then
        match decEq a b, decEqArgs as bs with
        | isTrue e₁, isTrue e₂ => isTrue (by rw [e.1, e.2.1, e.2.2, e₁, e₂])
        | isFalse ne, _ => isFalse fun e => ne (by cases e; rfl)
        | _, isFalse ne => isFalse fun e => ne (by cases e; rfl)
      else isFalse fun e' => e (by cases e'; exact ⟨rfl, rfl, rfl⟩)
  | [], _ :: _ => isFalse nofun
  | _ :: _, [] => isFalse nofun

end

instance : DecidableEq CppType := decEq

end CppType

end ScriptBindings
