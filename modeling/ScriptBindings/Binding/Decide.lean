import ScriptBindings.Binding.Adapt

/-!
# Deciding how to bind

The first rule that applies decides: callables that are deleted or not to be bound are left out; a
replacement is bound instead; code of the author's own is taken as it is; parameters with defaults make
one wrapper for each number of arguments; what cannot be bound as declared is wrapped; constructors are
wrapped; an address that would be ambiguous is cast; any other callable is bound by its address.
-/

namespace ScriptBindings.Binding

/-- Does the callable have the name of its class? -/
def isConstructor (f : Callable) : Bool :=
  f.owner.any fun c => Name.withoutTemplateArgs c = f.name

/-- Is the callable called on an object? -/
def isMember (f : Callable) : Bool :=
  f.owner.isSome && !f.quals.isStatic && !isConstructor f

/-- The template arguments of a specialised function, as they are written behind its name. -/
def argumentList (f : Callable) : String :=
  if f.templateArgs = [] then "" else "<" ++ ", ".intercalate f.templateArgs ++ ">"

/-- The name by which a callable is called or its address is taken. -/
def callee (f : Callable) : String :=
  f.fqn ++ argumentList f

/-- The result as it is written; a constructor returns its class. -/
def returnText (f : Callable) : String :=
  match f.result with
  | some t => t.text
  | none => f.classFqn.getD "void"

/-- The class of the object that a member is called on. -/
def receiver? (f : Callable) : Option String :=
  if isMember f then f.classFqn else none

/-- The parameter that receives the object. -/
def receiverParameter (f : Callable) (cls : String) : String × String :=
  ((if f.quals.isConst then "const " else "") ++ cls ++ "*", "self")

/-- What a wrapper calls: the replacement if there is one, or else the callable. -/
def calledText (f : Callable) (replacement : Option String) : String :=
  match replacement, receiver? f with
  | some target, _ => target
  | none, some _ => "self->" ++ f.name ++ argumentList f
  | none, none => if isConstructor f then returnText f else callee f

/-- The wrapper that takes the first parameters of a callable. -/
def wrap (db : Database) (f : Callable) (arity : Nat) (replacement : Option String)
    (reason : WrapperReason) : CallWrapper :=
  let adapted := (f.params.take arity).map (adaptParameter db)
  let passed := if replacement.isSome && (receiver? f).isSome then ["self"] else []
  let byPointer := returnsByPointer db f
  { parameters := ((receiver? f).map (receiverParameter f)).toList ++
      adapted.map fun a => (a.ty, a.name)
    returnType :=
      if byPointer then (f.result.map constPointerText).getD "" else returnText f
    call := calledText f replacement
    arguments := passed ++ adapted.map (·.argument)
    callLead := if byPointer then "&" else ""
    reason := reason }

/-- The wrapper that takes all parameters. -/
def wrapAll (db : Database) (f : Callable) (replacement : Option String)
    (reason : WrapperReason) : Strategy :=
  .wrapper (wrap db f f.params.length replacement reason)

/-- The first reason for which a callable cannot be bound by its address. -/
def wrapperReason? (db : Database) (f : Callable) : Option WrapperReason :=
  (f.params.findSome? fun p => (adaptParameter db p).reason).or
    (if returnsByPointer db f then some .nonCopyableReturn else none)

/-- The cast that chooses a callable among others of its name. -/
def castTo (f : Callable) : AddressCast :=
  let owner := receiver? f
  { returnType := returnText f
    owner := owner
    parameters := f.params.map fun p => p.ty.text
    qualifiers :=
      (if owner.isSome && f.quals.isConst then ["const"] else []) ++
        (if owner.isSome && f.quals.isVolatile then ["volatile"] else [])
    target := "&" ++ callee f }

/-- The number of parameters before the first one with a default. -/
def mandatory (f : Callable) : Nat :=
  (f.params.takeWhile fun p => p.default.isNone).length

/-- The numbers of arguments that a callable may be called with. -/
def arities (f : Callable) : List Nat :=
  (List.range (f.params.length - mandatory f + 1)).map (mandatory f + ·)

/-- Does some parameter have a default? -/
def hasDefaults (f : Callable) : Bool :=
  f.params.any fun p => p.default.isSome

/-- Decide for a callable that is to be bound itself. -/
def boundStrategy (db : Database) (f : Callable) (overloaded : Bool) : Strategy :=
  if hasDefaults f then
    .overload ((arities f).map fun n => .wrapper (wrap db f n none .defaultParameters))
  else
    match wrapperReason? db f with
    | some reason => wrapAll db f none reason
    | none =>
        if isConstructor f then wrapAll db f none .constructor
        else if overloaded || f.forceCast then .cast (castTo f)
        else .direct ("&" ++ callee f)

/-- Decide how a callable is bound; an overloaded one shares its slot with others. -/
def strategyOf (db : Database) (f : Callable) (overloaded : Bool) : Strategy :=
  if f.deleted then .deleted "deleted"
  else if f.flags.noBind then .deleted "nobind"
  else
    match f.flags.proxy, f.flags.bindCode with
    | some target, _ =>
        if requiresProxy db f then wrapAll db f (some target) .proxy
        else .direct ("&" ++ target)
    | none, some code => .verbatim code
    | none, none => boundStrategy db f overloaded

end ScriptBindings.Binding
