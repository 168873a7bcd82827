import ScriptBindings.Directive.Hint
import ScriptBindings.Flavour
import ScriptBindings.Toml.Reader

/-!
# Configuration

What a project asks for: where its sources and documentation are, where bindings go, and how they are
spelled.  A section that is left out has its defaults; sections and keys that are not known are passed
over, except in the flavour, but their values must be readable.
-/

namespace ScriptBindings

/-- A directory of sources, from the project's directory, and the namespace that it provides. -/
structure SourceRoot where
  path : String
  scope : String
deriving DecidableEq, Repr, Inhabited

/-- The configuration of a project.  Paths are as written. -/
structure Config where
  projectRoot : String := "."
  gitUrl : String := ""
  xmlDirectory : String := "docbuild/xml"
  doxygen : String := "doxygen"
  doxyfile : String := "Doxyfile"
  sources : List SourceRoot
  outputDirectory : String := "output"
  formatter : Option String := none
  websiteUrl : String := ""
  docPath : String := "doc/lua"
  doxygenPath : String := "doxygen"
  typeSets : TypeSets := .empty
  flavour : Flavour := {}
deriving DecidableEq, Repr

namespace Config

/-- Why a configuration is refused: it cannot be read, or it names no sources. -/
inductive Refusal where
  | malformed
  | noSources
deriving DecidableEq, Repr, Inhabited

/-- The wording of a refusal. -/
def Refusal.message : Refusal → String
  | .malformed => "malformed configuration"
  | .noSources => "at least one [[source]] entry is required"

/-- The namespaces of the sources, each once, in the order in which they first come. -/
def namespaces (c : Config) : List String :=
  (c.sources.map (·.scope)).eraseDups

/-- The directories of the sources. -/
def sourceRoots (c : Config) : List String :=
  c.sources.map (·.path)

/-- The entries of a table with some known keys; what other keys have is passed over. -/
def entries? (names : List String) (entries : List (String × Toml)) :
    Option (List (String × Toml)) :=
  if Toml.areReadableEntries (entries.filter fun (key, _) => !names.contains key) then some entries
  else none

/-- The fields of a section: the entries of a table, or the items of an array in the order of the
fields, where more items do not count. -/
def fields? (names : List String) : Toml → Option (List (String × Toml))
  | .table entries => entries? names entries
  | .array items => some (names.zip items)
  | _ => none

/-- The fields of a section that may be left out. -/
def section? (top : List (String × Toml)) (name : String) (names : List String) :
    Option (List (String × Toml)) :=
  match top.lookup name with
  | none => some []
  | some v => fields? names v

/-- A text field that may be left out. -/
def textOr? (fields : List (String × Toml)) (name default : String) : Option String :=
  match fields.lookup name with
  | none => some default
  | some v => v.string?

/-- A text field that must be there. -/
def text? (fields : List (String × Toml)) (name : String) : Option String :=
  (fields.lookup name).bind Toml.string?

/-- A directory of sources. -/
def sourceRoot? (v : Toml) : Option SourceRoot := do
  let fields ← fields? ["path", "namespace"] v
  return ⟨← text? fields "path", ← text? fields "namespace"⟩

/-- The type sets of a section. -/
def typeSets? (v : Toml) : Option TypeSets := do
  let sets ← (← v.table?).mapM fun (name, v) => do return (name, ← v.strings?)
  return .ofList sets

/-- The default flavour with the slots of a section in place of its own. -/
def flavour? (fields : List (String × Toml)) : Option Flavour :=
  fields.foldlM (fun f (slot, v) => v.string?.bind (f.set? slot)) {}

/-- The keys of the top table. -/
def sectionNames : List String :=
  ["project", "doxygen", "source", "output", "formatter", "documentation", "type_sets", "flavour"]

/-- Read a configuration from the top table of its document. -/
def ofTable? (top : List (String × Toml)) : Option Config := do
  let top ← entries? sectionNames top
  let project ← section? top "project" ["root", "git_url"]
  let doxygen ← section? top "doxygen" ["xml_dir", "executable", "doxyfile"]
  let sources ← (← (← top.lookup "source").array?).mapM sourceRoot?
  let output ← section? top "output" ["directory"]
  let formatter ← section? top "formatter" ["clang_format"]
  let documentation ← section? top "documentation" ["website_url", "doc_path", "doxygen_path"]
  let flavour ← section? top "flavour" (({} : Flavour).slots.map (·.1))
  return {
    projectRoot := ← textOr? project "root" "."
    gitUrl := ← textOr? project "git_url" ""
    xmlDirectory := ← textOr? doxygen "xml_dir" "docbuild/xml"
    doxygen := ← textOr? doxygen "executable" "doxygen"
    doxyfile := ← textOr? doxygen "doxyfile" "Doxyfile"
    sources := sources
    outputDirectory := ← textOr? output "directory" "output"
    formatter := ← (formatter.lookup "clang_format").mapM Toml.string?
    websiteUrl := ← textOr? documentation "website_url" ""
    docPath := ← textOr? documentation "doc_path" "doc/lua"
    doxygenPath := ← textOr? documentation "doxygen_path" "doxygen"
    typeSets := ← typeSets? ((top.lookup "type_sets").getD (.table []))
    flavour := ← flavour? flavour }

/-- Read a configuration from the text of its document. -/
def parse (text : String) : Except Refusal Config :=
  match (Toml.parse? text).bind ofTable? with
  | none => .error .malformed
  | some c => if c.sources.isEmpty then .error .noSources else .ok c

end Config

end ScriptBindings
