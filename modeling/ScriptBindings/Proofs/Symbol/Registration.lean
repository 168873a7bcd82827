import Mathlib
import ScriptBindings.Proofs.Dict
import ScriptBindings.Proofs.Name.Segments
import ScriptBindings.Symbol.Index

/-!
# An index is what was registered

An index is determined by the list of symbols that were registered, whatever the parts were in which it was
put together: registering one list after another is merging the indexes of the two.  Under an identifier, and
independently under a name, the last registration wins.  So an identifier and a name may lead to different
symbols; but no registration is lost altogether, because whatever is found under one of the two keys was
registered under the other one as well.

What a document registers is told by the tables and rules below: a class or a namespace is registered itself, and
then its members are, under its name and theirs; a file is registered by its members only.
-/

namespace ScriptBindings.SymbolIndex

/-! ## Merging -/

theorem merge_assoc (a b c : SymbolIndex) : (a.merge b).merge c = a.merge (b.merge c) := by
  simp only [merge, Dict.union_assoc]

theorem empty_merge (a : SymbolIndex) : empty.merge a = a := by
  simp only [merge, empty, Dict.empty_union]

theorem merge_empty (a : SymbolIndex) : a.merge empty = a := rfl

/-- A registration can be made before or after merging. -/
theorem merge_register (a b : SymbolIndex) (s : Symbol) :
    a.merge (b.register s) = (a.merge b).register s := by
  simp only [merge, register, Dict.union_insert]

theorem merge_registerAll (a b : SymbolIndex) (xs : List Symbol) :
    a.merge (b.registerAll xs) = (a.merge b).registerAll xs := by
  induction xs generalizing b with
  | nil => rfl
  | cons s xs ih =>
      show a.merge ((b.register s).registerAll xs) = ((a.merge b).register s).registerAll xs
      rw [ih, merge_register]

/-- To register symbols is to merge their index. -/
theorem registerAll_eq_merge (index : SymbolIndex) (xs : List Symbol) :
    index.registerAll xs = index.merge (ofSymbols xs) := by
  rw [ofSymbols, merge_registerAll, merge_empty]

theorem ofSymbols_append (xs ys : List Symbol) :
    ofSymbols (xs ++ ys) = (ofSymbols xs).merge (ofSymbols ys) := by
  rw [← registerAll_eq_merge, ofSymbols, ofSymbols, registerAll, List.foldl_append]
  rfl

/-- Indexes that are merged one after the other are the index of all their symbols. -/
theorem foldl_merge_ofSymbols {α : Type} (symbols : α → List Symbol) (parts : List α)
    (index : SymbolIndex) :
    parts.foldl (fun index part => index.merge (ofSymbols (symbols part))) index =
      index.registerAll (parts.flatMap symbols) := by
  induction parts generalizing index with
  | nil => rfl
  | cons part parts ih =>
      rw [List.foldl_cons, ih, ← registerAll_eq_merge, List.flatMap_cons]
      exact List.foldl_append.symm

/-! ## What is found -/

theorem find?_reverse_map (key : Symbol → String) (xs : List Symbol) (k : String) :
    Dict.find? k ((xs.map fun s => (key s, s)).reverse) = xs.reverse.find? fun s => key s = k := by
  rw [← List.map_reverse]
  induction xs.reverse with
  | nil => rfl
  | cons s xs ih =>
      rw [List.map_cons, Dict.find?, List.find?_cons]
      by_cases h : k = key s
      · simp [h]
      · simp [h, Ne.symm h, ih]

theorem byId_registerAll (index : SymbolIndex) (xs : List Symbol) :
    (index.registerAll xs).byId = index.byId.insertAll (xs.map fun s => (s.refid, s)) := by
  induction xs generalizing index with
  | nil => rfl
  | cons s xs ih => exact ih (index.register s)

theorem byName_registerAll (index : SymbolIndex) (xs : List Symbol) :
    (index.registerAll xs).byName = index.byName.insertAll (xs.map fun s => (s.fqn, s)) := by
  induction xs generalizing index with
  | nil => rfl
  | cons s xs ih => exact ih (index.register s)

/-- An identifier belongs to the last symbol that was registered under it. -/
theorem get?_byId_ofSymbols (xs : List Symbol) (id : String) :
    (ofSymbols xs).byId.get? id = xs.reverse.find? fun s => s.refid = id := by
  rw [ofSymbols, byId_registerAll, Dict.get?_insertAll, find?_reverse_map]
  exact Option.or_none

/-- A name belongs to the last symbol that was registered under it. -/
theorem get?_byName_ofSymbols (xs : List Symbol) (fqn : String) :
    (ofSymbols xs).byName.get? fqn = xs.reverse.find? fun s => s.fqn = fqn := by
  rw [ofSymbols, byName_registerAll, Dict.get?_insertAll, find?_reverse_map]
  exact Option.or_none

example :
    let old : Symbol := ⟨.cls, "classA", "ns::A", "A"⟩
    let new : Symbol := ⟨.cls, "classA", "other::A", "A"⟩
    (ofSymbols [old, new]).byId.get? "classA" = some new ∧
      (ofSymbols [old, new]).byName.get? "ns::A" = some old := by
  decide

/-- Whatever is found under an identifier has a name that is known, and whatever is found under a name has an
identifier that is known. -/
structure Closed (index : SymbolIndex) : Prop where
  names : ∀ id s, index.byId.get? id = some s → ∃ t, index.byName.get? s.fqn = some t ∧ t.fqn = s.fqn
  ids : ∀ fqn s, index.byName.get? fqn = some s →
    ∃ t, index.byId.get? s.refid = some t ∧ t.refid = s.refid

/-- A registered symbol is found under each of its keys, or a later one of the same key is. -/
theorem exists_find?_of_mem {key : Symbol → String} {xs : List Symbol} {s : Symbol} (h : s ∈ xs) :
    ∃ t, xs.reverse.find? (fun t => key t = key s) = some t ∧ key t = key s := by
  cases hfind : xs.reverse.find? fun t => key t = key s with
  | none =>
      have hnot := List.find?_eq_none.1 hfind s (List.mem_reverse.2 h)
      simp at hnot
  | some t => exact ⟨t, rfl, by simpa using List.find?_some hfind⟩

theorem closed_ofSymbols (xs : List Symbol) : Closed (ofSymbols xs) where
  names id s hs := by
    rw [get?_byId_ofSymbols] at hs
    rw [get?_byName_ofSymbols]
    exact exists_find?_of_mem (List.mem_reverse.1 (List.mem_of_find?_eq_some hs))
  ids fqn s hs := by
    rw [get?_byName_ofSymbols] at hs
    rw [get?_byId_ofSymbols]
    exact exists_find?_of_mem (List.mem_reverse.1 (List.mem_of_find?_eq_some hs))

/-! ## Parts -/

/-- How an index is put together: from nothing, by registrations, and from parts that are indexes
themselves. -/
inductive Assembly where
  | nothing
  | registered (part : Assembly) (s : Symbol)
  | merged (first second : Assembly)

namespace Assembly

/-- The index that is put together. -/
def index : Assembly → SymbolIndex
  | .nothing => empty
  | .registered part s => part.index.register s
  | .merged first second => first.index.merge second.index

/-- The symbols that are registered, from left to right. -/
def symbols : Assembly → List Symbol
  | .nothing => []
  | .registered part s => part.symbols ++ [s]
  | .merged first second => first.symbols ++ second.symbols

/-- The parts do not matter. -/
theorem index_eq (a : Assembly) : a.index = ofSymbols a.symbols := by
  induction a with
  | nothing => rfl
  | registered part s ih =>
      rw [index, symbols, ofSymbols_append, ← ih]
      exact registerAll_eq_merge part.index [s]
  | merged first second ihfirst ihsecond =>
      rw [index, symbols, ofSymbols_append, ihfirst, ihsecond]

end Assembly

/-! ## Documents -/

/-- The kinds of members that a class registers, and as what. -/
def classMembers : List (String × SymbolKind) :=
  [("function", .method), ("variable", .field), ("enum", .enumeration), ("typedef", .typedef)]

/-- The kinds of members that a namespace or a file registers, and as what. -/
def freeMembers : List (String × SymbolKind) :=
  [("function", .function), ("variable", .variable), ("enum", .enumeration), ("typedef", .typedef),
    ("define", .define)]

/-- A symbol that a member is registered as.  The names of members follow the name of the compound, except that
a macro is known by its name alone. -/
structure IsMember (kinds : List (String × SymbolKind)) (lead : String) (member : Xml.Element) (s : Symbol) :
    Prop where
  kind : (member.attr "kind", s.kind) ∈ kinds
  refid : s.refid = member.attr "refid"
  name : s.name = member.childText "name"
  fqn : s.fqn = if s.kind = .define then s.name else lead ++ s.name

/-- The symbols of members, in document order; members of other kinds are passed over. -/
inductive Members (kinds : List (String × SymbolKind)) (lead : String) : List Xml.Element → List Symbol → Prop where
  | nil : Members kinds lead [] []
  | registered {member : Xml.Element} {members : List Xml.Element} {s : Symbol} {symbols : List Symbol}
      (h : IsMember kinds lead member s) (hrest : Members kinds lead members symbols) :
      Members kinds lead (member :: members) (s :: symbols)
  | ignored {member : Xml.Element} {members : List Xml.Element} {symbols : List Symbol}
      (h : ∀ kind, (member.attr "kind", kind) ∉ kinds) (hrest : Members kinds lead members symbols) :
      Members kinds lead (member :: members) symbols

/-- The last segment of a name is what stands behind the last `::`. -/
inductive LastSegment : (name last : String) → Prop where
  | whole {name : String} (h : ¬ [':', ':'] <:+: name.toList) : LastSegment name name
  | behind {front last : String} (h : ¬ [':', ':'] <:+: ':' :: last.toList) :
      LastSegment (front ++ "::" ++ last) last

/-- The symbols that a compound of some kind registers. -/
inductive Registers (compound : Xml.Element) : (kind : String) → List Symbol → Prop where
  | ofClass {kind last : String} {symbols : List Symbol} (hkind : kind = "class" ∨ kind = "struct")
      (hlast : LastSegment (compound.childText "name") last)
      (hmembers : Members classMembers (compound.childText "name" ++ "::") (compound.children "member") symbols) :
      Registers compound kind (⟨.cls, compound.attr "refid", compound.childText "name", last⟩ :: symbols)
  | ofSpace {last : String} {symbols : List Symbol} (hlast : LastSegment (compound.childText "name") last)
      (hmembers : Members freeMembers (compound.childText "name" ++ "::") (compound.children "member") symbols) :
      Registers compound "namespace"
        (⟨.space, compound.attr "refid", compound.childText "name", last⟩ :: symbols)
  | ofFile {symbols : List Symbol} (hmembers : Members freeMembers "" (compound.children "member") symbols) :
      Registers compound "file" symbols

/-- The symbols that the compounds of some kinds register, in document order. -/
inductive Compounds (kinds : List String) : List Xml.Element → List Symbol → Prop where
  | nil : Compounds kinds [] []
  | registered {compound : Xml.Element} {compounds : List Xml.Element} {kind : String}
      {own symbols : List Symbol} (hattr : compound.attr? "kind" = some kind) (hkind : kind ∈ kinds)
      (h : Registers compound kind own) (hrest : Compounds kinds compounds symbols) :
      Compounds kinds (compound :: compounds) (own ++ symbols)
  | ignored {compound : Xml.Element} {compounds : List Xml.Element} {symbols : List Symbol}
      (h : ∀ kind ∈ kinds, compound.attr? "kind" ≠ some kind) (hrest : Compounds kinds compounds symbols) :
      Compounds kinds (compound :: compounds) symbols

theorem memberKind?_class_eq_some_iff {word : String} {kind : SymbolKind} :
    memberKind? true word = some kind ↔ (word, kind) ∈ classMembers := by
  unfold memberKind?
  split <;> simp_all [classMembers, eq_comm]

theorem memberKind?_free_eq_some_iff {word : String} {kind : SymbolKind} :
    memberKind? false word = some kind ↔ (word, kind) ∈ freeMembers := by
  unfold memberKind?
  split <;> simp_all [freeMembers, eq_comm]

section Reading

variable {kinds : List (String × SymbolKind)} {inClass : Bool} {lead : String} {member : Xml.Element}
  {members : List Xml.Element} {s : Symbol} {symbols : List Symbol}

theorem memberSymbol?_eq_some_iff
    (hkinds : ∀ {word kind}, memberKind? inClass word = some kind ↔ (word, kind) ∈ kinds) :
    memberSymbol? inClass lead member = some s ↔ IsMember kinds lead member s := by
  rw [memberSymbol?, Option.map_eq_some_iff]
  constructor
  · rintro ⟨kind, hkind, rfl⟩
    exact ⟨hkinds.1 hkind, rfl, rfl, rfl⟩
  · rintro ⟨hkind, hrefid, hname, hfqn⟩
    refine ⟨s.kind, hkinds.2 hkind, ?_⟩
    simp only [← hname, ← hrefid, ← hfqn]

theorem memberSymbol?_eq_none_iff
    (hkinds : ∀ {word kind}, memberKind? inClass word = some kind ↔ (word, kind) ∈ kinds) :
    memberSymbol? inClass lead member = none ↔ ∀ kind, (member.attr "kind", kind) ∉ kinds := by
  rw [memberSymbol?, Option.map_eq_none_iff, Option.eq_none_iff_forall_ne_some]
  exact forall_congr' fun kind => not_congr hkinds

/-- Members are looked at one by one, and those of a known kind are registered. -/
theorem members_iff (hkinds : ∀ {word kind}, memberKind? inClass word = some kind ↔ (word, kind) ∈ kinds) :
    Members kinds lead members symbols ↔ symbols = members.filterMap (memberSymbol? inClass lead) := by
  constructor
  · intro h
    induction h with
    | nil => rfl
    | registered h _ ih => rw [List.filterMap_cons_some ((memberSymbol?_eq_some_iff hkinds).2 h), ih]
    | ignored h _ ih => rw [List.filterMap_cons_none ((memberSymbol?_eq_none_iff hkinds).2 h), ih]
  · rintro rfl
    induction members with
    | nil => exact .nil
    | cons member members ih =>
        cases hsymbol : memberSymbol? inClass lead member with
        | none =>
            rw [List.filterMap_cons_none hsymbol]
            exact .ignored ((memberSymbol?_eq_none_iff hkinds).1 hsymbol) ih
        | some s =>
            rw [List.filterMap_cons_some hsymbol]
            exact .registered ((memberSymbol?_eq_some_iff hkinds).1 hsymbol) ih

end Reading

theorem lastSegment_iff {name last : String} : LastSegment name last ↔ last = Name.lastSegment name := by
  constructor
  · rintro (h | h)
    · rw [Name.lastSegment, (Text.cutLast?_eq_none_iff (List.cons_ne_nil _ _)).2 h]
    · exact (Name.parentScope_lastSegment_append h).2.symm
  · rintro rfl
    unfold Name.lastSegment
    cases hcut : Text.cutLast? [':', ':'] name.toList with
    | none => exact .whole ((Text.cutLast?_eq_none_iff (List.cons_ne_nil _ _)).1 hcut)
    | some parts =>
        obtain ⟨front, last⟩ := parts
        obtain ⟨hsplit, hlast⟩ := (Text.cutLast?_eq_some_iff (List.cons_ne_nil _ _)).1 hcut
        have hname : name = String.ofList front ++ "::" ++ String.ofList last :=
          String.toList_injective (by simpa using hsplit)
        have hbehind : LastSegment (String.ofList front ++ "::" ++ String.ofList last) (String.ofList last) :=
          .behind (by rwa [String.toList_ofList])
        rwa [← hname] at hbehind

section Compounds

variable {compound : Xml.Element} {compounds : List Xml.Element} {kind : String} {kinds : List String}
  {symbols : List Symbol}

/-- Compounds of the kinds that are asked for register what they should, and nothing else. -/
theorem registers_iff (hkind : kind ∈ ["class", "struct", "namespace", "file"]) :
    Registers compound kind symbols ↔ symbols = compoundSymbols kind compound := by
  constructor
  · rintro (⟨rfl | rfl, hlast, hmembers⟩ | ⟨hlast, hmembers⟩ | hmembers)
    · rw [lastSegment_iff.1 hlast, (members_iff memberKind?_class_eq_some_iff).1 hmembers]
      rfl
    · rw [lastSegment_iff.1 hlast, (members_iff memberKind?_class_eq_some_iff).1 hmembers]
      rfl
    · rw [lastSegment_iff.1 hlast, (members_iff memberKind?_free_eq_some_iff).1 hmembers]
      rfl
    · rw [(members_iff memberKind?_free_eq_some_iff).1 hmembers]
      rfl
  · rintro rfl
    have hclass (lead : String) : Members classMembers lead (compound.children "member") _ :=
      (members_iff memberKind?_class_eq_some_iff).2 rfl
    have hfree (lead : String) : Members freeMembers lead (compound.children "member") _ :=
      (members_iff memberKind?_free_eq_some_iff).2 rfl
    simp only [List.mem_cons, List.not_mem_nil, or_false] at hkind
    rcases hkind with rfl | rfl | rfl | rfl
    · exact .ofClass (.inl rfl) (lastSegment_iff.2 rfl) (hclass _)
    · exact .ofClass (.inr rfl) (lastSegment_iff.2 rfl) (hclass _)
    · exact .ofSpace (lastSegment_iff.2 rfl) (hfree _)
    · exact .ofFile (hfree _)

/-- The symbols of all compounds of some kinds, in document order. -/
def symbolsOfKinds (root : Xml.Element) (kinds : List String) : List Symbol :=
  (compoundsOf root kinds).flatMap fun (kind, c) => compoundSymbols kind c

theorem compounds_iff {root : Xml.Element} (hkinds : kinds ⊆ ["class", "struct", "namespace", "file"]) :
    Compounds kinds (root.children "compound") symbols ↔ symbols = symbolsOfKinds root kinds := by
  rw [symbolsOfKinds, compoundsOf]
  generalize root.children "compound" = compounds
  have hsome {c : Xml.Element} {kind : String} (hattr : c.attr? "kind" = some kind) (hmem : kind ∈ kinds) :
      ((c.attr? "kind").filter kinds.contains).map (fun kind => (kind, c)) = some (kind, c) := by
    simp [hattr, hmem]
  have hnone {c : Xml.Element} (h : ∀ kind ∈ kinds, c.attr? "kind" ≠ some kind) :
      ((c.attr? "kind").filter kinds.contains).map (fun kind => (kind, c)) = none := by
    rw [Option.map_eq_none_iff, Option.filter_eq_none_iff]
    exact fun kind hattr hmem => h kind (by simpa using hmem) hattr
  constructor
  · intro h
    induction h with
    | nil => rfl
    | registered hattr hkind h _ ih =>
        simp only [List.filterMap_cons, hsome hattr hkind, List.flatMap_cons, ← ih,
          (registers_iff (hkinds hkind)).1 h]
    | ignored h _ ih => simp only [List.filterMap_cons, hnone h, ← ih]
  · rintro rfl
    induction compounds with
    | nil => exact .nil
    | cons c cs ih =>
        by_cases hkind : ∃ kind ∈ kinds, c.attr? "kind" = some kind
        · obtain ⟨kind, hmem, hattr⟩ := hkind
          simp only [List.filterMap_cons, hsome hattr hmem, List.flatMap_cons]
          exact .registered hattr hmem ((registers_iff (hkinds hmem)).2 rfl) ih
        · have hother : ∀ kind ∈ kinds, c.attr? "kind" ≠ some kind := fun kind hmem hattr =>
            hkind ⟨kind, hmem, hattr⟩
          simp only [List.filterMap_cons, hnone hother]
          exact .ignored hother ih

end Compounds

theorem ofDocument_eq (root : Xml.Element) : ofDocument root = ofSymbols
    (symbolsOfKinds root ["class", "struct"] ++ symbolsOfKinds root ["namespace"] ++
      symbolsOfKinds root ["file"]) := by
  have hfold := foldl_merge_ofSymbols (fun (part : String × Xml.Element) =>
    compoundSymbols part.1 part.2) (compoundGroups.flatMap (compoundsOf root)) empty
  refine hfold.trans (congrArg ofSymbols ?_)
  simp only [compoundGroups, List.flatMap_cons, List.flatMap_nil, List.append_nil, List.flatMap_append,
    List.append_assoc, symbolsOfKinds]

/-- Indexes are a monoid under merging, and registering is a homomorphism to it.  So however an index is put
together, it is the index of the symbols that are registered, in their order: each key has the last symbol of
that key, and the keys of each symbol that is found are both known.  What the compounds of a document register is
determined, and the index of the document is that of what its classes register, then its namespaces and then its
files. -/
theorem registration_homomorphism :
    (∀ xs ys, ofSymbols (xs ++ ys) = (ofSymbols xs).merge (ofSymbols ys)) ∧
    (∀ a b c : SymbolIndex, (a.merge b).merge c = a.merge (b.merge c)) ∧
    (∀ a : SymbolIndex, empty.merge a = a ∧ a.merge empty = a) ∧
    (∀ text, Xml.parse? text = none → ofText text = .error .malformedDocument) ∧
    (∀ text root, Xml.parse? text = some root → ∃ classes spaces files,
      (∀ symbols, Compounds ["class", "struct"] (root.children "compound") symbols ↔ symbols = classes) ∧
      (∀ symbols, Compounds ["namespace"] (root.children "compound") symbols ↔ symbols = spaces) ∧
      (∀ symbols, Compounds ["file"] (root.children "compound") symbols ↔ symbols = files) ∧
      ofText text = .ok (ofSymbols (classes ++ spaces ++ files))) ∧
    (∀ a : Assembly, a.index = ofSymbols a.symbols) ∧
    ∀ xs, (∀ id, (ofSymbols xs).byId.get? id = xs.reverse.find? fun s => s.refid = id) ∧
      (∀ fqn, (ofSymbols xs).byName.get? fqn = xs.reverse.find? fun s => s.fqn = fqn) ∧
      Closed (ofSymbols xs) := by
  refine ⟨ofSymbols_append, merge_assoc, fun a => ⟨empty_merge a, merge_empty a⟩, fun text hnone => ?_,
    fun text root hroot => ?_, Assembly.index_eq,
    fun xs => ⟨get?_byId_ofSymbols xs, get?_byName_ofSymbols xs, closed_ofSymbols xs⟩⟩
  · rw [ofText, hnone]
  · refine ⟨_, _, _, fun _ => compounds_iff (by simp), fun _ => compounds_iff (by simp),
      fun _ => compounds_iff (by simp), ?_⟩
    rw [ofText, hroot, ← ofDocument_eq]

/-- The pieces of a document that lists a file first and a class last.  The class and a namespace have one name
and a member of one name, and the file repeats a function of the namespace. -/
def listing : List String := [
  "<doxygenindex>",
    "<compound refid=\"h\" kind=\"file\">", "<name>shape.h</name>",
      "<member refid=\"h1\" kind=\"define\">", "<name>SIDES</name></member>",
      "<member refid=\"n2\" kind=\"function\">", "<name>draw</name></member>", "</compound>",
    "<compound refid=\"n\" kind=\"namespace\">", "<name>ns::Shape</name>",
      "<member refid=\"n1\" kind=\"variable\">", "<name>sides</name></member>",
      "<member refid=\"n2\" kind=\"function\">", "<name>draw</name></member>", "</compound>",
    "<compound refid=\"p\" kind=\"page\">", "<name>intro</name>", "</compound>",
    "<compound refid=\"c\" kind=\"class\">", "<name>ns::Shape</name>",
      "<member refid=\"c1\" kind=\"variable\">", "<name>sides</name></member>",
      "<member refid=\"c2\" kind=\"friend\">", "<name>Side</name></member>",
      "<member refid=\"c3\" kind=\"function\">", "<name>area</name></member>", "</compound>",
  "</doxygenindex>"]

/-- What its class registers; a friend is passed over. -/
def listedClass : List Symbol :=
  [⟨.cls, "c", "ns::Shape", "Shape"⟩, ⟨.field, "c1", "ns::Shape::sides", "sides"⟩,
    ⟨.method, "c3", "ns::Shape::area", "area"⟩]

/-- What its namespace registers. -/
def listedSpace : List Symbol :=
  [⟨.space, "n", "ns::Shape", "Shape"⟩, ⟨.variable, "n1", "ns::Shape::sides", "sides"⟩,
    ⟨.function, "n2", "ns::Shape::draw", "draw"⟩]

/-- What its file registers. -/
def listedFile : List Symbol :=
  [⟨.define, "h1", "SIDES", "SIDES"⟩, ⟨.function, "n2", "draw", "draw"⟩]

theorem registration_homomorphism_listing : ∃ root index,
    Xml.parse? (String.join listing) = some root ∧
    Compounds ["class", "struct"] (root.children "compound") listedClass ∧
    Compounds ["namespace"] (root.children "compound") listedSpace ∧
    Compounds ["file"] (root.children "compound") listedFile ∧
    ofText (String.join listing) = .ok index ∧
    index = ofSymbols (listedClass ++ listedSpace ++ listedFile) ∧
    index.byId.get? "c" = some ⟨.cls, "c", "ns::Shape", "Shape"⟩ ∧
    index.byName.get? "ns::Shape" = some ⟨.space, "n", "ns::Shape", "Shape"⟩ ∧
    index.byId.get? "n2" = some ⟨.function, "n2", "draw", "draw"⟩ ∧
    index.byName.get? "ns::Shape::draw" = some ⟨.function, "n2", "ns::Shape::draw", "draw"⟩ ∧
    Closed index := by
  obtain ⟨-, -, -, -, hread, -, hfound⟩ := registration_homomorphism
  have hlisted : (Xml.parse? (String.join listing)).map (fun root =>
      (symbolsOfKinds root ["class", "struct"], symbolsOfKinds root ["namespace"],
        symbolsOfKinds root ["file"])) = some (listedClass, listedSpace, listedFile) := by
    -- The characters of the document are those of its pieces.
    rw [Xml.parse?, String.toList_join]
    decide +kernel
  obtain ⟨root, hroot, hlisted⟩ := Option.map_eq_some_iff.1 hlisted
  obtain ⟨hclass, hlisted⟩ := Prod.mk.inj hlisted
  obtain ⟨hspace, hfile⟩ := Prod.mk.inj hlisted
  have hclasses := (compounds_iff (by simp)).2 hclass.symm
  have hspaces := (compounds_iff (by simp)).2 hspace.symm
  have hfiles := (compounds_iff (by simp)).2 hfile.symm
  obtain ⟨classes, spaces, files, honlyClasses, honlySpaces, honlyFiles, hindex⟩ := hread _ root hroot
  rw [← (honlyClasses _).1 hclasses, ← (honlySpaces _).1 hspaces, ← (honlyFiles _).1 hfiles] at hindex
  exact ⟨root, _, hroot, hclasses, hspaces, hfiles, hindex, rfl, by decide, by decide, by decide, by decide,
    (hfound _).2.2⟩

end ScriptBindings.SymbolIndex
