import ScriptBindings.Binding.Key
import ScriptBindings.Binding.Strategy
import ScriptBindings.Template

/-!
# Flavours

A flavour spells bindings for one scripting library.  It is a template for each thing to spell, and a
few names; every one of them can be replaced on its own.
-/

namespace ScriptBindings

/-- The templates and names of a scripting library; those of `sol3` are the default. -/
structure Flavour where
  stateView : String := "sol::state_view"
  includeFile : String := "sol/sol.hpp"
  callConstructor : String := "sol::call_constructor"
  classBody : String :=
    "sol::usertype<\x7bcpp_class\x7d> bind_\x7blua_formatted_name\x7d = " ++
      "\x7bnamespace\x7d_namespace.new_usertype<\x7bcpp_class\x7d>" ++
      "(\"\x7blua_short_name\x7d\"\x7bclass_definition\x7d);\n" ++
      "\x7bbody\x7d\n\x7bhelpers\x7d\n\x7bhooks\x7d"
  staticAttrib : String := "sol::var(&\x7bname\x7d)"
  property : String := "sol::property(\x7baddress\x7d)"
  propertyRef : String :=
    "sol::property([](\x7bclass_name\x7d* self) -> \x7bproperty_type\x7d* " ++
      "\x7b\x7b return &self->\x7battribute_name\x7d; \x7d\x7d)"
  propertyReadonly : String := "sol::readonly(\x7baddress\x7d)"
  defaultConstructor : String := "sol::default_constructor"
  constructors : String := "sol::constructors<\x7bconstructors\x7d>()"
  baseClasses : String := "sol::base_classes, sol::bases<\x7bbases\x7d>()"
  scriptFile : String := "state.script_file(\"\x7bsource\x7d\"_fs);"
  method : String := "\x7baddress\x7d"
  metaFunction : String := "sol::meta_function::\x7bname\x7d"
  fetchTable : String :=
    "sol::table \x7bstore_in\x7d = state\x7bnamespace_path\x7d.get<sol::table>();"
  enumBody : String :=
    "\x7bnamespace\x7d_namespace.new_enum<\x7benum_type\x7d>" ++
      "(\"\x7benum_name\x7d\", \x7benum_fields\x7d);"
  functionBody : String :=
    "\x7bnamespace\x7d_namespace.set_function" ++
      "(\"\x7bfunction_name\x7d\", \x7bfunction_ptr\x7d);"
  functionOverload : String := "sol::overload(\x7boverloads\x7d)"
  globalBody : String :=
    "\x7bnamespace\x7d_namespace[\"\x7bglobal_name\x7d\"] = \x7bglobal_ptr\x7d;"
deriving DecidableEq, Repr, Inhabited

namespace Flavour

/-- The templates and names by the words that configurations use for them. -/
def slots (f : Flavour) : List (String × String) :=
  [("state_view", f.stateView), ("include_file", f.includeFile),
    ("call_constructor", f.callConstructor), ("class_body", f.classBody),
    ("static_attrib", f.staticAttrib), ("property", f.property),
    ("property_ref", f.propertyRef), ("property_readonly", f.propertyReadonly),
    ("default_constructor", f.defaultConstructor), ("constructors", f.constructors),
    ("base_classes", f.baseClasses), ("script_file", f.scriptFile), ("method", f.method),
    ("meta_function", f.metaFunction), ("fetch_table", f.fetchTable), ("enum_body", f.enumBody),
    ("function_body", f.functionBody), ("function_overload", f.functionOverload),
    ("global_body", f.globalBody)]

/-- Replace a template or name by the word for it; nothing if the word is unknown. -/
def set? (f : Flavour) (slot text : String) : Option Flavour :=
  match slot with
  | "state_view" => some { f with stateView := text }
  | "include_file" => some { f with includeFile := text }
  | "call_constructor" => some { f with callConstructor := text }
  | "class_body" => some { f with classBody := text }
  | "static_attrib" => some { f with staticAttrib := text }
  | "property" => some { f with property := text }
  | "property_ref" => some { f with propertyRef := text }
  | "property_readonly" => some { f with propertyReadonly := text }
  | "default_constructor" => some { f with defaultConstructor := text }
  | "constructors" => some { f with constructors := text }
  | "base_classes" => some { f with baseClasses := text }
  | "script_file" => some { f with scriptFile := text }
  | "method" => some { f with method := text }
  | "meta_function" => some { f with metaFunction := text }
  | "fetch_table" => some { f with fetchTable := text }
  | "enum_body" => some { f with enumBody := text }
  | "function_body" => some { f with functionBody := text }
  | "function_overload" => some { f with functionOverload := text }
  | "global_body" => some { f with globalBody := text }
  | _ => none

/-- The namespace and the name of the scripting state's class. -/
def stateViewParts (f : Flavour) : String × String :=
  match Text.cutLast? [':', ':'] f.stateView.toList with
  | some (space, name) => (String.ofList space, String.ofList name)
  | none => ("", f.stateView)

mutual

/-- Spell a strategy; nothing if nothing is bound. -/
def expression? (f : Flavour) : Strategy → Option String
  | .overload variants =>
      let spelled := f.expressions variants
      if spelled = [] then none
      else some (Template.render f.functionOverload [("overloads", ", ".intercalate spelled)])
  | .deleted _ => none
  | .direct target => (Strategy.direct target).text?
  | .cast c => (Strategy.cast c).text?
  | .wrapper w => (Strategy.wrapper w).text?
  | .verbatim code => (Strategy.verbatim code).text?

/-- Spell the strategies that bind something. -/
def expressions (f : Flavour) : List Strategy → List String
  | [] => []
  | s :: ss => (f.expression? s).toList ++ f.expressions ss

end

/-- The index under which a binding is stored. -/
def keyText (f : Flavour) : BindKey → String
  | .named name => "\"" ++ name ++ "\""
  | .metafunction name => Template.render f.metaFunction [("name", name)]

/-- A method by its address, as a property if asked for. -/
def methodText (f : Flavour) (address : String) (asProperty : Bool) : String :=
  Template.render (if asProperty then f.property else f.method) [("address", address)]

end Flavour

end ScriptBindings
