import ScriptBindings.Directive.Surrogate
import ScriptBindings.Text.Number
import ScriptBindings.Xml.Query

/-!
# Reading directives

Directives are links in the descriptions of a symbol, to `obidog.` followed by the name of the
directive and, behind a colon, its value.  A directive that makes no sense is passed over.
-/

namespace ScriptBindings

/-- A directive with its value, empty if it has none. -/
structure Directive where
  name : String
  value : String
deriving DecidableEq, Repr, Inhabited

namespace Directive

mutual

/-- The elements with a tag in an element, itself included, in document order. -/
def elementsTagged (tag : String) : Xml.Element → List Xml.Element
  | ⟨name, attrs, content⟩ =>
      let inner := contentTagged tag content
      if name = tag then ⟨name, attrs, content⟩ :: inner else inner

/-- The elements with a tag in some content. -/
def contentTagged (tag : String) : List Xml.Node → List Xml.Element
  | [] => []
  | .element e :: rest => elementsTagged tag e ++ contentTagged tag rest
  | .text _ :: rest => contentTagged tag rest

end

/-- The directive that a link stands for. -/
def ofLink? (link : Xml.Element) : Option Directive := do
  let url ← link.attr? "url"
  let body ← Text.afterLead? "obidog.".toList url.toList
  let body := String.ofList body
  match Text.cutAtChar? ':' body with
  | some (name, value) => return ⟨name, value⟩
  | none => return ⟨body, ""⟩

/-- The directives of a symbol, those of the brief description first. -/
def ofElement (e : Xml.Element) : List Directive :=
  let descriptions := ["briefdescription", "detaileddescription"].filterMap e.child?
  (descriptions.flatMap (elementsTagged "ulink")).filterMap ofLink?

/-- The visibility with a name. -/
def visibility? : String → Option Visibility
  | "public" => some .pub
  | "protected" => some .prot
  | "private" => some .priv
  | _ => none

/-- The hook that the value of a directive describes. -/
def hook? (value : String) : Option Hook :=
  match Text.cutAtChar? ':' value with
  | some ("bind", code) => some ⟨.bind, code⟩
  | some ("inherit", code) => some ⟨.inherit, code⟩
  | _ => none

/-- Add a hint; the combinations of a hint under a known bind name are appended to those known. -/
def addHint (hint : TemplateHint) : List TemplateHint → List TemplateHint
  | [] => [hint]
  | h :: rest =>
      if h.bindName = hint.bindName then
        { h with combinations := h.combinations ++ hint.combinations } :: rest
      else h :: addHint hint rest

/-- A value that must not be empty. -/
def present? (value : String) : Option String :=
  if value = "" then none else some value

/-- The flags with what a directive says. -/
def apply (sets : TypeSets) (flags : Flags) (d : Directive) : Flags :=
  match d.name with
  | "helper" => { flags with helpers := flags.helpers ++ [d.value] }
  | "template_hint" =>
      match TemplateHint.expand? sets d.value with
      | some hint => { flags with templateHints := addHint hint flags.templateHints }
      | none => flags
  | "nobind" => { flags with noBind := true }
  | "additional_include" =>
      { flags with additionalIncludes := flags.additionalIncludes ++ [d.value] }
  | "as_property" => { flags with asProperty := true }
  | "copy_parent_items" => { flags with copyParentItems := true }
  | "proxy" => { flags with proxy := (present? d.value).or flags.proxy }
  | "noconstructor" => { flags with noConstructor := true }
  | "load_priority" =>
      { flags with loadPriority := (Text.int32? d.value).getD flags.loadPriority }
  | "rename" => { flags with rename := (present? d.value).or flags.rename }
  | "rename_parameter" =>
      { flags with
        renameParameters := flags.renameParameters ++ (Text.cutAtChar? ':' d.value).toList }
  | "bind_code" => { flags with bindCode := (present? d.value).or flags.bindCode }
  | "meta" => { flags with nonCopyable := flags.nonCopyable || d.value = "NonCopyable" }
  | "hook" => { flags with hooks := flags.hooks ++ (hook? d.value).toList }
  | "merge_template_specialisations_as" =>
      { flags with
        mergeSpecialisationsAs := (present? d.value).or flags.mergeSpecialisationsAs }
  | "visibility" => { flags with visibility := (visibility? d.value).or flags.visibility }
  | "surrogate" =>
      { flags with surrogateFor := flags.surrogateFor ++ (present? d.value).toList }
  | _ => flags

/-- The flags that the directives of a symbol say by themselves. -/
def ownFlags (sets : TypeSets) (e : Xml.Element) : Flags :=
  (ofElement e).foldl (apply sets) {}

end Directive

namespace FlagContext

/-- Let the flags of a surrogate wait for each of its targets; the surrogate itself is not bound. -/
def redirect (ctx : FlagContext) (flags : Flags) : Flags × FlagContext :=
  if flags.surrogateFor = [] then (flags, ctx)
  else
    let carried := { flags with surrogateFor := [] }
    ({ flags with noBind := true },
      flags.surrogateFor.foldl (fun ctx target => ctx.buffer target carried) ctx)

/-- The flags of a documented symbol, those that wait for it included. -/
def flagsOf (ctx : FlagContext) (e : Xml.Element) (fqn : String) : Flags × FlagContext :=
  let (flags, ctx) := ctx.redirect (Directive.ownFlags ctx.typeSets e)
  ctx.apply fqn (e.attr "id") flags

end FlagContext

end ScriptBindings
