import ScriptBindings.CppType.Basic
import ScriptBindings.Docs.Search
import ScriptBindings.Json.Value

/-!
# Exporting entities

Entities as JSON values, each with its fields in a fixed order.  What is absent is null, except in the
search index, where it is left out.
-/

namespace ScriptBindings.Docs

/-- A dictionary of values. -/
def ofDict {α : Type} (f : α → Json) (d : Dict α) : Json :=
  .object (d.entries.map fun (k, v) => (k, f v))

/-- Qualifiers, the words before those behind. -/
def ofQualifiers (q : Qualifiers) : Json :=
  .object [("prefix", .strings q.leading), ("postfix", .strings q.trailing)]

mutual

/-- A type. -/
def ofType : CppType → Json
  | .base n q =>
      .object [("kind", .string "base"), ("name", .string n), ("qualifiers", ofQualifiers q)]
  | .template n q args =>
      .object [("kind", .string "template"), ("name", .string n), ("qualifiers", ofQualifiers q),
        ("args", .array (ofTypes args))]
  | .function r q args =>
      .object [("kind", .string "function"), ("return_type", ofType r),
        ("qualifiers", ofQualifiers q), ("args", .array (ofArgs args))]

/-- Several types. -/
def ofTypes : List CppType → List Json
  | [] => []
  | t :: ts => ofType t :: ofTypes ts

/-- Arguments of a function type. -/
def ofArgs : List FunctionArg → List Json
  | [] => []
  | ⟨ty, q, name, generated⟩ :: rest =>
      .object [("ty", ofType ty), ("qualifiers", ofQualifiers q), ("name", .string name),
        ("generated_name", .boolean generated)] :: ofArgs rest

end

/-- A visibility. -/
def ofVisibility : Visibility → Json
  | .pub => .string "public"
  | .prot => .string "protected"
  | .priv => .string "private"

/-- The word for a trigger. -/
def triggerWord : HookTrigger → String
  | .bind => "bind"
  | .inherit => "inherit"

/-- A pair of texts. -/
def ofPair (p : String × String) : Json :=
  .strings [p.1, p.2]

/-- A template hint. -/
def ofHint (h : TemplateHint) : Json :=
  .object [("bind_name", .string h.bindName),
    ("combinations", .array (h.combinations.map fun c => .array (c.map ofPair)))]

/-- A hook. -/
def ofHook (h : Hook) : Json :=
  .object [("trigger", .string (triggerWord h.trigger)), ("code", .string h.code)]

/-- Flags. -/
def ofFlags (f : Flags) : Json :=
  .object [
    ("helpers", .strings f.helpers),
    ("template_hints", .array (f.templateHints.map ofHint)),
    ("nobind", .boolean f.noBind),
    ("additional_includes", .strings f.additionalIncludes),
    ("as_property", .boolean f.asProperty),
    ("copy_parent_items", .boolean f.copyParentItems),
    ("proxy", .optional .string f.proxy),
    ("noconstructor", .boolean f.noConstructor),
    ("load_priority", .integer f.loadPriority),
    ("rename", .optional .string f.rename),
    ("rename_parameters", .array (f.renameParameters.map ofPair)),
    ("bind_code", .optional .string f.bindCode),
    ("meta", .strings (if f.nonCopyable then ["NonCopyable"] else [])),
    ("hooks", .array (f.hooks.map ofHook)),
    ("merge_template_specialisations_as", .optional .string f.mergeSpecialisationsAs),
    ("visibility", .optional ofVisibility f.visibility),
    ("surrogate_for", .strings f.surrogateFor)]

/-- A location. -/
def ofLocation (l : Location) : Json :=
  .object [("file", .string l.file), ("line", .integer l.line), ("column", .integer l.column)]

/-- The qualifiers of a member. -/
def ofMemberQuals (q : MemberQuals) : Json :=
  .object [("is_const", .boolean q.isConst), ("is_static", .boolean q.isStatic),
    ("is_volatile", .boolean q.isVolatile)]

/-- A parameter. -/
def ofParameter (p : Parameter) : Json :=
  .object [("name", .string p.name), ("ty", ofType p.ty), ("default", .optional .string p.default),
    ("description", .string p.description)]

/-- The fields of a callable. -/
def callableFields (f : Callable) : List (String × Json) :=
  [("id", .string f.id), ("name", .string f.name), ("namespace", .string f.scope),
    ("from_class", .optional .string f.owner), ("definition", .string f.definition),
    ("parameters", .array (f.params.map ofParameter)),
    ("return_type", .optional ofType f.result), ("template", .boolean f.isTemplate),
    ("template_params", .strings f.templateParams), ("template_args", .strings f.templateArgs),
    ("qualifiers", ofMemberQuals f.quals), ("flags", ofFlags f.flags),
    ("force_cast", .boolean f.forceCast), ("description", .string f.description),
    ("deleted", .boolean f.deleted), ("is_abstract", .boolean f.isAbstract),
    ("visibility", ofVisibility f.visibility), ("location", ofLocation f.location)]

/-- A callable. -/
def ofCallable (f : Callable) : Json := .object (callableFields f)

/-- The fields of a placeholder. -/
def placeholderFields (p : Placeholder) : List (String × Json) :=
  [("id", .string p.id), ("name", .string p.name), ("namespace", .string p.scope),
    ("from_class", .optional .string p.owner), ("visibility", ofVisibility p.visibility),
    ("reason", .string p.reason)]

/-- A placeholder. -/
def ofPlaceholder (p : Placeholder) : Json := .object (placeholderFields p)

/-- A slot, with its kind in front of its fields. -/
def ofSlot : Slot → Json
  | .concrete f => .object (("slot", .string "concrete") :: callableFields f)
  | .overload g =>
      .object [("slot", .string "overload"), ("name", .string g.name),
        ("namespace", .string g.scope), ("from_class", .optional .string g.owner),
        ("overloads", .array (g.overloads.map ofCallable)), ("flags", ofFlags g.flags),
        ("force_cast", .boolean g.forceCast)]
  | .placeholder p => .object (("slot", .string "placeholder") :: placeholderFields p)

/-- An attribute. -/
def ofAttribute (a : Attribute) : Json :=
  .object [("id", .string a.id), ("name", .string a.name), ("namespace", .string a.scope),
    ("from_class", .string a.owner), ("ty", ofType a.ty), ("qualifiers", ofMemberQuals a.quals),
    ("flags", ofFlags a.flags), ("description", .string a.description),
    ("visibility", ofVisibility a.visibility), ("location", ofLocation a.location)]

/-- A class. -/
def ofClass (c : Class) : Json :=
  .object [("id", .string c.id), ("name", .string c.name), ("namespace", .string c.scope),
    ("bases", .strings c.bases), ("constructors", .array (c.constructors.map ofCallable)),
    ("rejected_constructors", .array (c.rejectedConstructors.map ofPlaceholder)),
    ("destructor", .optional ofCallable c.destructor), ("methods", ofDict ofSlot c.methods),
    ("private_methods", ofDict ofSlot c.hiddenMethods),
    ("attributes", ofDict ofAttribute c.attributes), ("is_abstract", .boolean c.isAbstract),
    ("template", .boolean c.isTemplate), ("template_params", .strings c.templateParams),
    ("flags", ofFlags c.flags), ("description", .string c.description),
    ("visibility", ofVisibility c.visibility), ("location", ofLocation c.location)]

/-- An enumeration. -/
def ofEnum (e : Enumeration) : Json :=
  .object [("id", .string e.id), ("name", .string e.name), ("namespace", .string e.scope),
    ("values", .array (e.values.map fun v =>
      .object [("name", .string v.name), ("description", .string v.description)])),
    ("flags", ofFlags e.flags), ("description", .string e.description),
    ("location", ofLocation e.location)]

/-- A variable. -/
def ofGlobal (g : Global) : Json :=
  .object [("id", .string g.id), ("name", .string g.name), ("namespace", .string g.scope),
    ("ty", ofType g.ty), ("definition", .string g.definition),
    ("initializer", .optional .string g.initializer), ("qualifiers", ofMemberQuals g.quals),
    ("flags", ofFlags g.flags), ("description", .string g.description),
    ("location", ofLocation g.location)]

/-- Another name for a type. -/
def ofTypedef (t : Typedef) : Json :=
  .object [("id", .string t.id), ("name", .string t.name), ("namespace", .string t.scope),
    ("ty", ofType t.ty), ("definition", .string t.definition), ("flags", ofFlags t.flags),
    ("description", .string t.description), ("location", ofLocation t.location)]

/-- A namespace. -/
def ofNamespace (n : NamespaceInfo) : Json :=
  .object [("id", .string n.id), ("name", .string n.name), ("flags", ofFlags n.flags),
    ("description", .string n.description)]

/-- A database. -/
def ofDatabase (db : Database) : Json :=
  .object [("namespaces", ofDict ofNamespace db.namespaces), ("classes", ofDict ofClass db.classes),
    ("functions", ofDict ofSlot db.functions), ("enums", ofDict ofEnum db.enums),
    ("globals", ofDict ofGlobal db.globals), ("typedefs", ofDict ofTypedef db.typedefs)]

/-- The word for a kind of entity. -/
def kindWord : EntityKind → String
  | .scope => "namespace"
  | .cls => "class"
  | .function => "function"
  | .method => "method"
  | .attribute => "attribute"
  | .enumeration => "enum"
  | .variable => "global"
  | .typedef => "typedef"

/-- A line of the search index. -/
def ofSearchEntry (e : SearchEntry) : Json :=
  let optional (key : String) (value : Option String) : List (String × Json) :=
    value.toList.map fun s => (key, .string s)
  .object ([("kind", .string (kindWord e.kind)), ("name", .string e.name),
    ("namespace", .string e.scope)] ++ optional "from_class" e.owner ++
    [("url", .string e.url)] ++ optional "source_url" e.sourceUrl ++
    optional "doxygen_url" e.doxygenUrl)

/-- A search index. -/
def ofSearchIndex (entries : List SearchEntry) : Json :=
  .array (entries.map ofSearchEntry)

end ScriptBindings.Docs
