import ScriptBindings.Compound.Extraction
import ScriptBindings.Compound.Files
import ScriptBindings.Config
import ScriptBindings.Docs.Export
import ScriptBindings.Emit.Files
import ScriptBindings.Resolve.All
import ScriptBindings.Store.Basic

/-!
# The pipeline

From a configuration to bindings or documentation: the configuration is read, the documents that it
points to are extracted and resolved, and the results are written.  Each failure tells what was being
done when it came up.
-/

namespace ScriptBindings.Pipeline

/-- What is written. -/
inductive Mode where
  | bindings
  | documentation
deriving DecidableEq, Repr, Inhabited

/-- The ultimate cause of a failure. -/
inductive Cause where
  | store (e : StoreError)
  | config (e : Config.Refusal)
  | fault (f : Fault)
deriving DecidableEq, Repr, Inhabited

/-- The wording of a cause. -/
def Cause.message : Cause → String
  | .store e => e.message
  | .config e => e.message
  | .fault f => f.message

/-- A cause, and what was being done, outermost first. -/
structure Failure where
  context : List String
  cause : Cause
deriving DecidableEq, Repr, Inhabited

/-- The wording of a failure. -/
def Failure.message (f : Failure) : String :=
  ": ".intercalate (f.context ++ [f.cause.message])

/-- What to make, and from which configuration.  The output directory may replace the one of the
configuration, and the documentation tool may be asked to make its documents first. -/
structure Request where
  config : String
  mode : Mode
  output : Option String := none
  generateXml : Bool := false
deriving DecidableEq, Repr, Inhabited

/-- The branch that source addresses refer to. -/
def branch : String := "master"

section

variable {m : Type → Type} [Monad m]

/-- Run a step of a file store in a context. -/
def storing {α : Type} (context : List String) (step : m (Except StoreError α)) :
    ExceptT Failure m α :=
  ExceptT.mk do return (← step).mapError fun e => ⟨context, .store e⟩

/-- A result of reading documents, in a context. -/
def reading {α : Type} (context : List String) (result : Except Fault α) : ExceptT Failure m α :=
  ExceptT.mk (pure (result.mapError fun f => ⟨context, .fault f⟩))

/-- Read the configuration. -/
def loadConfig (store : FileStore m) (path : String) : ExceptT Failure m Config := do
  let lead := s!"loading config from {path}"
  let text ← storing [lead, s!"failed to read config file {path}"] (store.read path)
  ExceptT.mk (pure ((Config.parse text).mapError fun e =>
    ⟨[lead, s!"failed to parse config file {path}"], .config e⟩))

/-- Extract the documents of some files one after the other. -/
def addFiles (store : FileStore m) (s : Compound.Setting) (directory : String) :
    Compound.Extraction → List String → ExceptT Failure m Compound.Extraction
  | x, [] => pure x
  | x, name :: rest => do
      let path := FileStore.pathFrom directory name
      let text ← storing [s!"reading {path}"] (store.read path)
      let x ← reading [s!"parsing {path}"] (x.addText s text)
      addFiles store s directory x rest

/-- The index and the resolved database of the documents in a directory. -/
def build (store : FileStore m) (c : Config) (projectRoot xmlDirectory : String) :
    ExceptT Failure m (SymbolIndex × Database) := do
  let path := FileStore.pathFrom xmlDirectory "index.xml"
  let text ← storing [s!"reading {path}"] (store.read path)
  let index ← reading [s!"parsing {path}"] (SymbolIndex.ofText text)
  let names ← storing [s!"reading {xmlDirectory}"] (store.names xmlDirectory)
  let files := Compound.chooseFiles names c.namespaces
  let x ← addFiles store ⟨index, projectRoot⟩ xmlDirectory (.start c.typeSets)
    (files.namespaces ++ files.classes)
  return (index, x.finish.db.resolve c.namespaces)

/-- The files that bind a database. -/
def bindingFiles (c : Config) (db : Database) : List Emit.GeneratedFile :=
  (⟨db, c.flavour, c.sourceRoots⟩ : Emit.Style).files

/-- Make the bindings without writing them. -/
def generate (store : FileStore m) (configPath : String) :
    ExceptT Failure m (List Emit.GeneratedFile) := do
  let c ← loadConfig store configPath
  let base := FileStore.directoryOf configPath
  let (_, db) ← build store c (FileStore.pathFrom base c.projectRoot)
    (FileStore.pathFrom base c.xmlDirectory)
  return bindingFiles c db

/-- Write generated files below a directory. -/
def writeFiles (store : FileStore m) (directory : String) :
    List Emit.GeneratedFile → ExceptT Failure m Unit
  | [] => pure ()
  | file :: rest => do
      let path := FileStore.pathFrom directory file.path
      let above := FileStore.directoryOf path
      storing [s!"creating {above}"] (store.makeDirectory above)
      storing [s!"writing output to {path}"] (store.write path file.contents)
      writeFiles store directory rest

/-- Where the documentation of a project is published. -/
def sitesOf (c : Config) : Docs.Sites :=
  ⟨c.websiteUrl, c.docPath, c.doxygenPath, c.gitUrl, branch⟩

/-- Write the search index and the database to a directory. -/
def writeDocumentation (store : FileStore m) (c : Config) (index : SymbolIndex) (db : Database)
    (directory : String) : ExceptT Failure m Unit := do
  storing [s!"creating {directory}"] (store.makeDirectory directory)
  let search := FileStore.pathFrom directory "search.json"
  let entries := Docs.searchIndex db index (sitesOf c)
  storing [s!"writing {search}"] (store.write search (Docs.ofSearchIndex entries).text)
  let dump := FileStore.pathFrom directory "db.json"
  storing [s!"writing {dump}"] (store.write dump (Docs.ofDatabase db).text)

/-- The files of the fresh directory in which the documentation tool starts: its settings and its log. -/
def toolFiles : List String := ["Doxyfile", "out.log"]

/-- Why a program that is nowhere does not start: its name cannot be looked up, nothing has the name, or
what has it is a directory or one of the tool's own files.  A name without a slash is not looked for among
these files.  In any other name the first step that is not `.` or `..` decides. -/
def missingProgram (name : String) : StoreError :=
  let pieces := Text.pieces '/' name
  let inward := pieces.dropWhile fun s => s = "" ∨ s = "."
  if name.toList.contains '\x00' then .nulInProgram
  else if FileStore.maxPathBytes < name.utf8ByteSize then .nameTooLong
  else if name = "" then .notFound
  else if pieces.length ≠ 1 ∧ pieces.head? ≠ some "" ∧ inward.head?.any toolFiles.contains then
    if inward.length = 1 then .permissionDenied else .notADirectory
  else
    match pieces.find? fun s => s ≠ "" ∧ s ≠ "." ∧ s ≠ ".." with
    | none => .permissionDenied
    | some first => if FileStore.maxNameBytes < first.utf8ByteSize then .nameTooLong else .notFound

/-- Ask the documentation tool for its documents.  A file store runs no programs, so that this fails
once the tool's settings have been read. -/
def generateXml (store : FileStore m) (c : Config) (base : String) : ExceptT Failure m Unit := do
  let template := FileStore.pathFrom base c.doxyfile
  let _ ← storing [s!"reading Doxyfile template {template}"] (store.read template)
  let tool := c.doxygen
  throw ⟨[s!"spawning {tool}"], .store (missingProgram tool)⟩

/-- Run the pipeline, and tell the directory that was written to. -/
def run (store : FileStore m) (r : Request) : ExceptT Failure m String := do
  let c ← loadConfig store r.config
  let base := FileStore.directoryOf r.config
  if r.generateXml then generateXml store c base
  let output := r.output.getD (FileStore.pathFrom base c.outputDirectory)
  let (index, db) ← build store c (FileStore.pathFrom base c.projectRoot)
    (FileStore.pathFrom base c.xmlDirectory)
  match r.mode with
  | .bindings => writeFiles store output (bindingFiles c db)
  | .documentation => writeDocumentation store c index db output
  return output

end

end ScriptBindings.Pipeline
