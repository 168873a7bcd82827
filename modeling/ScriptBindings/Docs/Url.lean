import ScriptBindings.Location
import ScriptBindings.Symbol.Index

/-!
# Addresses of documentation

Where a symbol is documented: on a page of the project's site, in its repository, and on a page that
the documentation tool has made.
-/

namespace ScriptBindings.Docs

/-- Where pages and sources are published. -/
structure Sites where
  websiteUrl : String := ""
  docPath : String := ""
  doxygenPath : String := ""
  gitUrl : String := ""
  branch : String := ""
deriving DecidableEq, Repr, Inhabited

/-- The kinds of entities that are documented. -/
inductive EntityKind where
  | scope
  | cls
  | function
  | method
  | attribute
  | enumeration
  | variable
  | typedef
deriving DecidableEq, Repr, Inhabited

/-- A qualified name as a path. -/
def asPath (name : String) : String :=
  Text.replaced "::" "/" name

namespace Sites

/-- The directory of the project's own pages. -/
def base (s : Sites) : String :=
  "https://" ++ s.websiteUrl ++ "/" ++ s.docPath

/-- The page of an entity.  Namespaces and classes have pages; everything else has a place on the page
of its class or namespace. -/
def documentationUrl (s : Sites) (kind : EntityKind) (scope name : String)
    (owner : Option String) : String :=
  match kind, owner with
  | .scope, _ => s.base ++ "/" ++ asPath name
  | .cls, _ => s.base ++ "/" ++ asPath scope ++ "/" ++ name ++ ".html"
  | _, some cls => s.base ++ "/" ++ asPath scope ++ "/" ++ cls ++ ".html#doc_" ++ name
  | _, none => s.base ++ "/" ++ asPath scope ++ "#doc_" ++ name

/-- The place in the repository, if the file is known. -/
def sourceUrl (s : Sites) (location : Location) : Option String :=
  if location.file = "" then none
  else
    let repository := String.ofList (s.gitUrl.toList.reverse.dropWhile (· = '/')).reverse
    some (repository ++ "/blob/" ++ s.branch ++ "/" ++ location.file ++ "#L" ++
      location.line.repr)

/-- The page that the documentation tool has made for a name in the index. -/
def doxygenUrl (s : Sites) (index : SymbolIndex) (kind : EntityKind) (fqn : String) :
    Option String := do
  let symbol ← index.byName.get? fqn
  let root := "https://" ++ s.websiteUrl ++ "/" ++ s.doxygenPath ++ "/"
  if kind = .scope ∨ kind = .cls then return root ++ symbol.refid ++ ".html"
  let (page, anchor) ← Text.cutLast? ['_', '1'] symbol.refid.toList
  return root ++ String.ofList page ++ ".html#" ++ String.ofList anchor

end Sites

end ScriptBindings.Docs
