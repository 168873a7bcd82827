import ScriptBindings.Entity.Callable
import ScriptBindings.Name.Casing

/-!
# Binding keys

What a callable is called on the scripting side.  An ordinary callable keeps its name or is renamed.  An
operator becomes a metafunction where scripts have one, is dropped where another one covers it, and is
named after its operands and a verb otherwise.
-/

namespace ScriptBindings

/-- A name, or a metafunction. -/
inductive BindKey where
  | named (name : String)
  | metafunction (name : String)
deriving DecidableEq, Repr, Inhabited

namespace BindKey

/-- Operators that are metafunctions, whatever the number of operands. -/
def metafunctions : List (String × String) :=
  [("+", "addition"), ("*", "multiplication"), ("/", "division"), ("==", "equal_to"),
    ("()", "call"), ("<", "less_than"), ("<=", "less_than_or_equal_to"), ("[]", "index"),
    ("%", "modulus")]

/-- Operators that are not bound, because scripts derive them from others or have no use for them. -/
def dropped : List String := ["!=", "+=", "-=", "*=", "/=", "="]

/-- The verbs of operators, with an underscore between words. -/
def verbs : List (String × String) :=
  [("++", "increment"), ("--", "decrement"), ("+", "add"), ("-", "subtract"), ("*", "multiply"),
    ("/", "divide"), ("!", "negate"), ("~", "complement"), ("%", "modulus"), ("==", "equal"),
    ("!=", "not_equal"), (">", "greater"), ("<", "less"), (">=", "greater_equal"),
    ("<=", "less_equal"), ("<=>", "three_way_comparison"), ("&&", "logical_and"),
    ("||", "logical_or"), ("&", "bitwise_and"), ("|", "bitwise_or"), ("^", "bitwise_xor"),
    ("<<", "left_shift"), (">>", "right_shift"), ("%=", "modulus_assign"),
    (">>=", "right_shift_assign"), ("<<=", "left_shift_assign"), ("&=", "bitwise_and_assign"),
    ("|=", "bitwise_or_assign"), ("^=", "bitwise_xor_assign"), (",", "comma"),
    ("->*", "indirection_structure_dereference"), ("new", "allocate"), ("delete", "deallocate"),
    ("new[]", "allocate_array"), ("delete[]", "deallocate_array")]

/-- The operators that are spelled as words. -/
def wordOperators : List String := ["new", "delete", "new[]", "delete[]"]

/-- The symbol of an operator's name; a word such as `operatorCount` has none. -/
def operatorSymbol? (name : String) : Option String := do
  let rest ← Text.afterLead? "operator".toList name.toList
  let symbol := Text.trim rest
  let first ← symbol.head?
  let text := String.ofList symbol
  if first.isAlphanum || first == '_' then
    if text ∈ wordOperators then some text else none
  else some text

/-- The operands of an operator by their types, the receiver of a method first. -/
def operands (f : Callable) : List String :=
  let receiver := if f.quals.isStatic then [] else f.owner.toList
  receiver ++ f.params.map fun p => p.ty.baseName

/-- How an operand appears in a name. -/
def operandWord (type : String) : String :=
  Name.capitalize (Name.lastSegment (Name.withoutTemplateArgs type))

/-- How a verb appears in a name. -/
def verbWord (verb : String) : String :=
  String.join ((Text.pieces '_' verb).map Name.capitalize)

/-- The key of an operator with some operands. -/
def ofOperator? (symbol : String) (operands : List String) : Option BindKey :=
  if symbol ∈ dropped then none
  else if symbol = "-" then
    some (.metafunction (if operands.length ≤ 1 then "unary_minus" else "subtraction"))
  else
    match metafunctions.lookup symbol with
    | some name => some (.metafunction name)
    | none =>
        (verbs.lookup symbol).map fun verb =>
          let word (i : Nat) : String := (operands[i]?.map operandWord).getD ""
          .named (word 0 ++ verbWord verb ++ word 1)

/-- The key of a callable; nothing if it is an operator that is not bound. -/
def ofCallable? (f : Callable) : Option BindKey :=
  match operatorSymbol? f.name with
  | none => some (.named f.bindName)
  | some symbol =>
      if f.flags.rename.isSome then some (.named f.bindName)
      else ofOperator? symbol (operands f)

end BindKey

end ScriptBindings
