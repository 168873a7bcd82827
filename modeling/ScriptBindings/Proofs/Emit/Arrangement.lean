import Mathlib
import ScriptBindings.Emit.Files
import ScriptBindings.Proofs.Binding.Spelling
import ScriptBindings.Proofs.Dict
import ScriptBindings.Proofs.Except
import ScriptBindings.Proofs.Name.RunTogether
import ScriptBindings.Proofs.Text.Cutting

/-!
# Loaders and their order

Every entity that is bound has one loader, in the namespace of the entity, and no other entity has one.  The
files of a namespace declare and define the loaders of its entities in one and the same order: by priority,
highest first, and then by the place of the entity.  There are files for the namespaces that have loaders, in
the order of their names, and for no others; the global namespace never has any.

What a header and a source file say is spelled out here character by character.  Only the text of a loader is not
looked into, except that it defines what the header declares.
-/

namespace ScriptBindings.Emit

/-! ## The order of loaders -/

/-- What decides the place of a loader: its priority, highest first, then file, line and name. -/
def Loader.sortKey (l : Loader) : Intᵒᵈ ×ₗ String ×ₗ Nat ×ₗ String :=
  toLex (OrderDual.toDual l.priority, toLex (l.location.file, toLex (l.location.line, l.name)))

theorem thenBy_eq_true_iff {α : Type} [DecidableEq α] {less : α → α → Bool} {a b : α} {next : Bool}
    (h : less a a = false) : thenBy less a b next = true ↔ less a b = true ∨ a = b ∧ next = true := by
  unfold thenBy
  by_cases heq : a = b
  · subst heq
    simp [h]
  · simp [heq]

theorem Loader.before_iff (a b : Loader) : a.before b = true ↔ a.sortKey ≤ b.sortKey := by
  rw [before, thenBy_eq_true_iff (by simp), thenBy_eq_true_iff (by simp), thenBy_eq_true_iff (by simp),
    sortKey, sortKey, Prod.Lex.toLex_le_toLex, Prod.Lex.toLex_le_toLex, Prod.Lex.toLex_le_toLex]
  simp only [decide_eq_true_eq, OrderDual.toDual_lt_toDual, OrderDual.toDual_inj]

theorem arrange_perm (loaders : List Loader) : (arrange loaders).Perm loaders :=
  List.mergeSort_perm loaders Loader.before

theorem pairwise_arrange (loaders : List Loader) :
    (arrange loaders).Pairwise fun a b => a.sortKey ≤ b.sortKey := by
  have hsorted : (arrange loaders).Pairwise fun a b => a.before b = true := by
    refine List.pairwise_mergeSort (fun a b c hab hbc => ?_) (fun a b => ?_) loaders
    · rw [Loader.before_iff] at hab hbc ⊢
      exact hab.trans hbc
    · rw [Bool.or_eq_true, Loader.before_iff, Loader.before_iff]
      exact le_total a.sortKey b.sortKey
  exact hsorted.imp fun h => (Loader.before_iff _ _).1 h

/-- Loaders with different keys have one order. -/
theorem arrange_eq_of_perm {loaders others : List Loader} (hperm : loaders.Perm others)
    (hothers : others.Pairwise fun a b => b.before a = false) : arrange loaders = others := by
  have hstrict : others.Pairwise fun a b => a.sortKey < b.sortKey :=
    hothers.imp fun h => by rwa [← not_le, ← Loader.before_iff, Bool.not_eq_true]
  have hnodup : (others.map Loader.sortKey).Nodup :=
    List.pairwise_map.2 (hstrict.imp fun hlt => hlt.ne)
  have hsame : (arrange loaders).Perm others := (arrange_perm loaders).trans hperm
  refine hsame.eq_of_pairwise (fun a b ha hb hab hba => ?_) (pairwise_arrange loaders)
    (hstrict.imp fun hlt => hlt.le)
  exact List.inj_on_of_nodup_map hnodup (hsame.mem_iff.1 ha) hb (le_antisymm hab hba)

/-! ## Grouping by namespace -/

/-- The loaders that were found for a namespace, in the order in which they were found. -/
def loadersIn (found : List (String × Loader)) (scope : String) : List Loader :=
  (found.filter fun e => e.1 = scope).map (·.2)

theorem get?_foldl_group (d : Dict (List Loader)) (found : List (String × Loader)) (scope : String) :
    (found.foldl (fun d (scope, l) => d.insert scope ((d.get? scope).getD [] ++ [l])) d).get? scope =
      if loadersIn found scope = [] then d.get? scope
      else some ((d.get? scope).getD [] ++ loadersIn found scope) := by
  induction found generalizing d with
  | nil => rfl
  | cons e found ih =>
      obtain ⟨other, l⟩ := e
      rw [List.foldl_cons, ih, Dict.get?_insert]
      by_cases heq : scope = other
      · subst heq
        have hfound : loadersIn ((scope, l) :: found) scope = l :: loadersIn found scope := by
          simp [loadersIn]
        rw [hfound, if_pos rfl, if_neg (List.cons_ne_nil _ _)]
        split
        · rename_i hnone
          rw [hnone]
        · rw [Option.getD_some, List.append_assoc, List.singleton_append]
      · have hfound : loadersIn ((other, l) :: found) scope = loadersIn found scope := by
          simp [loadersIn, Ne.symm heq]
        rw [hfound, if_neg heq]

/-- A namespace is there if a loader was found for it, with all loaders that were found for it. -/
theorem get?_groupLoaders_eq_some_iff {found : List (String × Loader)} {scope : String}
    {loaders : List Loader} : (groupLoaders found).get? scope = some loaders ↔
      loaders ≠ [] ∧ loaders = loadersIn found scope := by
  rw [groupLoaders, get?_foldl_group, Dict.get?_empty]
  split
  · rename_i hnone
    rw [hnone]
    simp
  · rename_i hsome
    rw [Option.getD_none, List.nil_append, Option.some.injEq]
    constructor
    · rintro rfl
      exact ⟨hsome, rfl⟩
    · exact fun h => h.2.symm

/-! ## What has a loader -/

/-- What loaders are for. -/
inductive Entity where
  | ofClass (c : Class)
  | ofEnum (e : Enumeration)
  | ofSlot (slot : Slot)
  | ofGlobal (g : Global)

/-- The entities of a database: its classes, enumerations, slots of functions and variables. -/
def entities (db : Database) : List Entity :=
  db.classes.values.map .ofClass ++ db.enums.values.map .ofEnum ++ db.functions.values.map .ofSlot ++
    db.globals.values.map .ofGlobal

/-- The namespace and the loader of an entity. -/
def Style.loaderOf? (s : Style) : Entity → Option (String × Loader)
  | .ofClass c => (s.classLoader? c).map (c.scope, ·)
  | .ofEnum e => (s.enumLoader? e).map (e.scope, ·)
  | .ofSlot slot => s.functionLoader? slot
  | .ofGlobal g => (s.globalLoader? g).map (g.scope, ·)

theorem Style.loaders_eq (s : Style) : s.loaders = (entities s.db).filterMap s.loaderOf? := by
  simp only [entities, List.filterMap_append, List.filterMap_map]
  rfl

/-- The entity is bound in a namespace: it lies there and is not excluded; templates are never bound, and
functions are bound in the namespace of the first one if something is planned for one of them. -/
def Style.BoundIn (s : Style) (scope : String) : Entity → Prop
  | .ofClass c => c.scope = scope ∧ c.flags.noBind = false ∧ c.isTemplate = false
  | .ofEnum e => e.scope = scope ∧ e.flags.noBind = false
  | .ofSlot slot => slot.callables.head?.map (·.scope) = some scope ∧ Binding.planSlot s.db slot ≠ []
  | .ofGlobal g => g.scope = scope ∧ g.flags.noBind = false

/-- What decides the place of the entity's loader: its flags and where it is declared.  For functions it
is the flags of the slot and the place of the first one. -/
def Entity.mark? : Entity → Option (Flags × Location)
  | .ofClass c => some (c.flags, c.location)
  | .ofEnum e => some (e.flags, e.location)
  | .ofSlot slot => do return (← slot.flags?, (← slot.callables.head?).location)
  | .ofGlobal g => some (g.flags, g.location)

/-- The name that a key is, unless it is a metafunction. -/
def keyName? : BindKey → Option String
  | .named name => some name
  | .metafunction _ => none

/-- What kind of entity it is, and what scripts call it.  Functions are called by the first name under which one
of them is bound, or by the name of the slot if there is none. -/
def Entity.title (db : Database) : Entity → String × String
  | .ofClass c => ("Class", c.flags.rename.getD c.name)
  | .ofEnum e => ("Enum", e.flags.rename.getD e.name)
  | .ofSlot slot =>
      ("Function", ((Binding.planSlot db slot).findSome? fun e => keyName? e.key).getD slot.name)
  | .ofGlobal g => ("Global", g.flags.rename.getD g.name)

/-- The name of the entity's loader: the kind, and the letters and digits of the name, with the first letter of
each word in upper case. -/
def Style.nameOf (s : Style) (e : Entity) : String :=
  (e.title s.db).1 ++
    String.ofList (Name.runTogether (fun c => !c.isAlphanum) false (e.title s.db).2.toList)

instance (s : Style) (scope : String) : (e : Entity) → Decidable (s.BoundIn scope e)
  | .ofClass _ => inferInstanceAs (Decidable (_ ∧ _ ∧ _))
  | .ofEnum _ => inferInstanceAs (Decidable (_ ∧ _))
  | .ofSlot _ => inferInstanceAs (Decidable (_ ∧ _))
  | .ofGlobal _ => inferInstanceAs (Decidable (_ ∧ _))

/-- How a loader is declared and where its definition begins. -/
def Style.signature (s : Style) (name : String) : String :=
  "void Load" ++ name ++ "(" ++ s.flavour.stateView ++ " state)"

/-- A loader of an entity, in a namespace: it has the entity's name, priority and place, and its text
defines what its name declares. -/
structure Style.Loads (s : Style) (scope : String) (e : Entity) (l : Loader) : Prop where
  loaded : s.loaderOf? e = some (scope, l)
  name_eq : l.name = s.nameOf e
  mark : ∃ flags, e.mark? = some (flags, l.location) ∧ l.priority = flags.loadPriority
  body : ∃ text, l.body = s.signature l.name ++ "\n\x7b\n" ++ text ++ "\n\x7d"

variable {s : Style} {scope : String} {e : Entity} {l : Loader} {loaders : List Loader}

/-- Loaders are all made in one way, from the name and the mark of the entity. -/
theorem Style.loads_of_eq {flags : Flags} {location : Location} {name body : String} {includes : List String}
    (h : s.loaderOf? e = some (scope, s.loader name scope body flags location includes))
    (hname : name = s.nameOf e) (hmark : e.mark? = some (flags, location)) :
    s.Loads scope e (s.loader name scope body flags location includes) where
  loaded := h
  name_eq := hname
  mark := ⟨flags, hmark, rfl⟩
  body := by
    refine ⟨s.fetchTable scope ++ "\n" ++ body, ?_⟩
    simp only [Style.loader, Style.loaderText, Style.signature, String.append_assoc]
    rfl

/-- A loader that is made unless the entity is left out. -/
theorem Style.loads_or_not_of_guard {guard : Bool} {own name body : String} {flags : Flags}
    {location : Location} {includes : List String}
    (hloaded : s.loaderOf? e = (if guard then none
      else some (s.loader name own body flags location includes)).map (own, ·))
    (hname : name = s.nameOf e) (hmark : e.mark? = some (flags, location))
    (hbound : s.BoundIn scope e ↔ own = scope ∧ guard = false) :
    (s.BoundIn scope e ∧ ∃ l, s.Loads scope e l) ∨
      (¬ s.BoundIn scope e ∧ ∀ l, s.loaderOf? e ≠ some (scope, l)) := by
  cases guard with
  | true => exact .inr ⟨fun h => Bool.false_ne_true (hbound.1 h).2.symm, fun l => by simp [hloaded]⟩
  | false =>
      by_cases heq : own = scope
      · subst heq
        exact .inl ⟨hbound.2 ⟨rfl, rfl⟩, _, loads_of_eq hloaded hname hmark⟩
      · exact .inr ⟨fun h => heq (hbound.1 h).1, fun l => by simp [hloaded, heq]⟩

/-- No entry of a plan is left out. -/
theorem Style.lines_eq_nil_iff (s : Style) (scope : String) (slot : Slot) :
    (Binding.planSlot s.db slot).filterMap (s.functionLine? scope) = [] ↔
      Binding.planSlot s.db slot = [] := by
  rw [List.filterMap_eq_nil_iff, List.eq_nil_iff_forall_not_mem]
  refine forall₂_congr fun e he => ?_
  obtain ⟨text, htext⟩ := Option.isSome_iff_exists.1
    (Binding.isSome_expression_of_mem_planSlot s.flavour he)
  rw [functionLine?, htext]
  simp

/-- The first name is that of the first entry with a name, if every entry is spelled. -/
theorem Style.firstName?_eq (s : Style) {entries : List Binding.Entry}
    (h : ∀ e ∈ entries, (s.flavour.expression? e.strategy).isSome = true) :
    s.firstName? entries = entries.findSome? fun e => keyName? e.key := by
  induction entries with
  | nil => rfl
  | cons e entries ih =>
      obtain ⟨he, hentries⟩ := List.forall_mem_cons.1 h
      obtain ⟨text, htext⟩ := Option.isSome_iff_exists.1 he
      rw [firstName?, List.findSome?_cons, List.findSome?_cons, htext, ← ih hentries]
      cases e.key <;> rfl

theorem Style.functionName_eq (s : Style) (slot : Slot) :
    loaderName "Function" ((s.firstName? (Binding.planSlot s.db slot)).getD slot.name) =
      s.nameOf (.ofSlot slot) := by
  rw [Name.loaderName_eq,
    s.firstName?_eq fun _ he => Binding.isSome_expression_of_mem_planSlot s.flavour he]
  rfl

theorem Style.functionLoader?_eq_some_iff {slot : Slot} :
    s.functionLoader? slot = some (scope, l) ↔
      ∃ first flags, slot.callables.head? = some first ∧ slot.flags? = some flags ∧
        first.scope = scope ∧ Binding.planSlot s.db slot ≠ [] ∧
        l = s.loader (loaderName "Function" ((s.firstName? (Binding.planSlot s.db slot)).getD slot.name)) scope
          ("\n".intercalate ((Binding.planSlot s.db slot).filterMap (s.functionLine? scope))) flags
          first.location (slot.callables.map (fun f => s.includeFor f.location) ++
            flags.additionalIncludes.map includeLine) := by
  unfold functionLoader?
  cases hfirst : slot.callables.head? with
  | none => simp
  | some first =>
      cases hflags : slot.flags? with
      | none => simp
      | some flags =>
          simp only [Option.bind_eq_bind, Option.bind_some, lines_eq_nil_iff]
          split
          · rename_i hnil
            simp [hnil]
          · rename_i hplan
            constructor
            · intro h
              obtain ⟨rfl, rfl⟩ := Prod.mk.inj (Option.some.inj h)
              exact ⟨first, flags, rfl, rfl, rfl, hplan, rfl⟩
            · rintro ⟨_, _, hf, hg, rfl, -, rfl⟩
              obtain rfl := Option.some.inj hf
              obtain rfl := Option.some.inj hg
              rfl

theorem flags?_of_head? {slot : Slot} {first : Callable} (h : slot.callables.head? = some first) :
    ∃ flags, slot.flags? = some flags := by
  cases slot with
  | concrete f => exact ⟨f.flags, rfl⟩
  | overload g => exact ⟨g.flags, rfl⟩
  | placeholder p => cases h

/-- In a namespace, an entity is bound and has a loader, or it is not bound and has none. -/
theorem Style.loads_or_not (s : Style) (scope : String) (e : Entity) :
    (s.BoundIn scope e ∧ ∃ l, s.Loads scope e l) ∨
      (¬ s.BoundIn scope e ∧ ∀ l, s.loaderOf? e ≠ some (scope, l)) := by
  cases e with
  | ofClass c => exact loads_or_not_of_guard rfl (Name.loaderName_eq _ _) rfl (by simp [BoundIn])
  | ofEnum e => exact loads_or_not_of_guard rfl (Name.loaderName_eq _ _) rfl Iff.rfl
  | ofSlot slot =>
      by_cases hbound : s.BoundIn scope (.ofSlot slot)
      · obtain ⟨first, hfirst, rfl⟩ := Option.map_eq_some_iff.1 hbound.1
        obtain ⟨flags, hflags⟩ := flags?_of_head? hfirst
        refine .inl ⟨hbound, _, loads_of_eq
          (functionLoader?_eq_some_iff.2 ⟨first, flags, hfirst, hflags, rfl, hbound.2, rfl⟩)
          (s.functionName_eq slot) ?_⟩
        rw [Entity.mark?, hflags, hfirst]
        rfl
      · refine .inr ⟨hbound, fun l hl => hbound ?_⟩
        obtain ⟨first, -, hfirst, -, hscope, hplan, -⟩ := functionLoader?_eq_some_iff.1 hl
        exact ⟨by rw [hfirst, Option.map_some, hscope], hplan⟩
  | ofGlobal g => exact loads_or_not_of_guard rfl (Name.loaderName_eq _ _) rfl Iff.rfl

/-! ## The loaders of a namespace -/

/-- The entities that are bound in a namespace have one loader each, and these are all loaders that are
found for the namespace. -/
theorem Style.forall₂_loads (s : Style) (scope : String) (es : List Entity) :
    List.Forall₂ (s.Loads scope) (es.filter fun e => s.BoundIn scope e)
      (loadersIn (es.filterMap s.loaderOf?) scope) := by
  induction es with
  | nil => exact .nil
  | cons e es ih =>
      rcases s.loads_or_not scope e with ⟨hbound, l, hloads⟩ | ⟨hbound, hnone⟩
      · have hfound : loadersIn ((e :: es).filterMap s.loaderOf?) scope =
            l :: loadersIn (es.filterMap s.loaderOf?) scope := by
          rw [List.filterMap_cons_some hloads.loaded]
          simp [loadersIn]
        rw [List.filter_cons_of_pos (by simpa using hbound), hfound]
        exact .cons hloads ih
      · have hfound : loadersIn ((e :: es).filterMap s.loaderOf?) scope =
            loadersIn (es.filterMap s.loaderOf?) scope := by
          -- An entity that is not bound here may still have a loader in another namespace.
          cases hl : s.loaderOf? e with
          | none => rw [List.filterMap_cons_none hl]
          | some found =>
              obtain ⟨other, l⟩ := found
              have hne : other ≠ scope := fun heq => hnone l (heq ▸ hl)
              rw [List.filterMap_cons_some hl]
              simp [loadersIn, hne]
        rw [List.filter_cons_of_neg (by simpa using hbound), hfound]
        exact ih

/-- Something is bound in the namespace, and it is not the global one. -/
def Style.Emits (s : Style) (scope : String) : Prop :=
  scope ≠ "" ∧ ∃ e ∈ entities s.db, s.BoundIn scope e

/-- The namespaces that have files, in the order of their names. -/
def Style.spaces (s : Style) : List String :=
  (groupLoaders s.loaders).keys.filter (· ≠ "")

/-- The loaders of a namespace in the order of its files. -/
def Style.ordered (s : Style) (scope : String) : List Loader :=
  arrange (loadersIn s.loaders scope)

theorem Style.pairwise_spaces (s : Style) : s.spaces.Pairwise (· < ·) := by
  refine List.Pairwise.filter _ ?_
  rw [Dict.keys, List.pairwise_map]
  exact (groupLoaders s.loaders).sorted

theorem Style.mem_spaces_iff : scope ∈ s.spaces ↔ s.Emits scope := by
  have hkey : scope ∈ (groupLoaders s.loaders).keys ↔ loadersIn s.loaders scope ≠ [] := by
    rw [Dict.keys, List.mem_map]
    constructor
    · rintro ⟨⟨key, loaders⟩, he, rfl⟩
      obtain ⟨hne, heq⟩ := get?_groupLoaders_eq_some_iff.1 (Dict.get?_eq_some_iff.2 he)
      rw [← heq]
      exact hne
    · intro hne
      exact ⟨(scope, loadersIn s.loaders scope),
        Dict.get?_eq_some_iff.1 (get?_groupLoaders_eq_some_iff.2 ⟨hne, rfl⟩), rfl⟩
  have hloads := s.forall₂_loads scope (entities s.db)
  rw [← loaders_eq] at hloads
  rw [spaces, List.mem_filter, hkey, Emits, and_comm, decide_eq_true_eq]
  refine and_congr_right fun _ => ?_
  rw [← List.length_pos_iff, ← hloads.length_eq, List.length_pos_iff_exists_mem]
  simp only [List.mem_filter, decide_eq_true_eq]

/-- Every namespace has its two files, next to each other. -/
theorem Style.files_eq (s : Style) : s.files = s.spaces.flatMap fun scope =>
    [s.header scope (s.ordered scope), s.source scope (s.ordered scope)] := by
  have hfiles : ∀ e ∈ (groupLoaders s.loaders).entries,
      (if e.1 = "" then [] else s.namespaceFiles e.1 e.2) =
        if e.1 = "" then [] else
          [s.header e.1 (s.ordered e.1), s.source e.1 (s.ordered e.1)] := by
    rintro ⟨key, loaders⟩ he
    obtain ⟨-, heq⟩ := get?_groupLoaders_eq_some_iff.1 (Dict.get?_eq_some_iff.2 he)
    rw [heq]
    rfl
  -- What is left is that the global namespace can be skipped before or behind.
  rw [files, List.flatMap_congr hfiles, spaces, Dict.keys]
  generalize (groupLoaders s.loaders).entries = entries
  induction entries with
  | nil => rfl
  | cons e entries ih =>
      rw [List.flatMap_cons, ih, List.map_cons]
      by_cases hglobal : e.1 = ""
      · rw [if_pos hglobal, List.filter_cons_of_neg (by simpa using hglobal), List.nil_append]
      · rw [if_neg hglobal, List.filter_cons_of_pos (by simpa using hglobal), List.flatMap_cons]

/-! ## What the files of a namespace say -/

/-- How the class of the scripting state is declared ahead.  Its name stands behind the last `::`, and what
stands before it is the namespace, if it is not empty. -/
inductive ForwardText : (view text : String) → Prop where
  | bare {name : String} (h : ¬ [':', ':'] <:+: name.toList) : ForwardText name ("class " ++ name ++ ";")
  | global {name : String} (h : ¬ [':', ':'] <:+: ':' :: name.toList) :
      ForwardText ("::" ++ name) ("class " ++ name ++ ";")
  | nested {space name : String} (hspace : space ≠ "") (h : ¬ [':', ':'] <:+: ':' :: name.toList) :
      ForwardText (space ++ "::" ++ name) ("namespace " ++ space ++ " \x7b class " ++ name ++ "; \x7d;")

/-- A header that declares some loaders, in their order, and nothing else but the class of their argument. -/
def Style.Declares (s : Style) (scope : String) (loaders : List Loader) (header : GeneratedFile) : Prop :=
  ∃ forward, ForwardText s.flavour.stateView forward ∧
    header.contents = "#pragma once\n\n" ++ forward ++ "\nnamespace " ++ scope ++ "::Bindings\n\x7b\n" ++
      "\n".intercalate (loaders.map fun l => s.signature l.name ++ ";") ++ "\n\x7d;\n"

/-- A source file that defines some loaders, in their order.  It includes the header, under the path that leads
to it from the directory of headers, and what the loaders include, each line once and in ascending order. -/
structure Style.Defines (s : Style) (scope : String) (loaders : List Loader)
    (header source : GeneratedFile) : Prop where
  defined : ∀ l ∈ loaders, ∃ text, l.body = s.signature l.name ++ "\n\x7b\n" ++ text ++ "\n\x7d"
  contents : ∃ (path : String) (lines : List String), header.path = "include/" ++ path ∧
    lines.Pairwise (· < ·) ∧ (∀ line, line ∈ lines ↔ ∃ l ∈ loaders, line ∈ l.includes) ∧
    source.contents = "#include <" ++ path ++ ">\n#include <" ++ s.flavour.includeFile ++ ">\n\n" ++
      "\n".intercalate lines ++ "\n\nnamespace " ++ scope ++ "::Bindings\n\x7b\n" ++
      "\n".intercalate (loaders.map (·.body)) ++ "\n\x7d;\n"

theorem Style.forwardText (s : Style) : ForwardText s.flavour.stateView s.forward := by
  unfold forward Flavour.stateViewParts
  cases hcut : Text.cutLast? [':', ':'] s.flavour.stateView.toList with
  | none => exact .bare ((Text.cutLast?_eq_none_iff (List.cons_ne_nil _ _)).1 hcut)
  | some parts =>
      obtain ⟨space, name⟩ := parts
      obtain ⟨hsplit, hlast⟩ := (Text.cutLast?_eq_some_iff (List.cons_ne_nil _ _)).1 hcut
      have hview : s.flavour.stateView = String.ofList space ++ "::" ++ String.ofList name :=
        String.toList_injective (by simpa using hsplit)
      have hname : ¬ [':', ':'] <:+: ':' :: (String.ofList name).toList := by
        rwa [String.toList_ofList]
      rw [hview]
      dsimp only
      split
      · rename_i heq
        obtain ⟨hspace, rfl⟩ := Prod.mk.inj heq
        rw [hspace]
        exact .global hname
      · rename_i space' name' hspace heq
        obtain ⟨rfl, rfl⟩ := Prod.mk.inj heq
        exact .nested hspace hname

theorem Style.declares_header (s : Style) (scope : String) (loaders : List Loader) :
    s.Declares scope loaders (s.header scope loaders) := by
  have hline : s.declaration = fun l => s.signature l.name ++ ";" := by
    funext l
    simp only [declaration, signature, String.append_assoc]
    rfl
  refine ⟨s.forward, s.forwardText, ?_⟩
  rw [← hline]
  simp only [header, inBindings, String.append_assoc]
  rfl

theorem mem_includeLines_iff {line : String} :
    line ∈ includeLines loaders ↔ ∃ l ∈ loaders, line ∈ l.includes := by
  rw [includeLines, Dict.mem_keys_ofList_iff]
  simp

theorem Style.defines_source (h : ∀ l ∈ loaders, ∃ text,
      l.body = s.signature l.name ++ "\n\x7b\n" ++ text ++ "\n\x7d") :
    s.Defines scope loaders (s.header scope loaders) (s.source scope loaders) where
  defined := h
  contents := by
    refine ⟨fileStem scope ++ ".hpp", includeLines loaders, ?_, ?_, fun line => mem_includeLines_iff, ?_⟩
    · simp only [header, String.append_assoc]
    · rw [includeLines, Dict.keys, List.pairwise_map]
      exact (Dict.ofList _).sorted
    · simp only [source, inBindings, String.append_assoc]
      rfl

/-- The files are those of the namespaces in which something is bound, in the order of their names.  The
header of a namespace declares and its source file defines the same loaders in the same order, which is that
of priority, file, line and name; and these are exactly the loaders of the entities that are bound in the
namespace, one for each. -/
structure Style.Arranged (s : Style) (spaces : List String) (loaders : String → List Loader)
    (header source : String → GeneratedFile) : Prop where
  ascending : spaces.Pairwise (· < ·)
  mem_iff : ∀ scope, scope ∈ spaces ↔ s.Emits scope
  files_eq : s.files = spaces.flatMap fun scope => [header scope, source scope]
  declares : ∀ scope ∈ spaces, s.Declares scope (loaders scope) (header scope)
  defines : ∀ scope ∈ spaces, s.Defines scope (loaders scope) (header scope) (source scope)
  sorted : ∀ scope ∈ spaces, (loaders scope).Pairwise fun a b => a.sortKey ≤ b.sortKey
  complete : ∀ scope ∈ spaces, ∃ found, List.Forall₂ (s.Loads scope)
    ((entities s.db).filter fun e => s.BoundIn scope e) found ∧ (loaders scope).Perm found

/-- The files of every database are arranged by namespace. -/
theorem Style.files_arranged (s : Style) :
    ∃ spaces loaders header source, s.Arranged spaces loaders header source := by
  have hloads (scope : String) : List.Forall₂ (s.Loads scope)
      ((entities s.db).filter fun e => s.BoundIn scope e) (loadersIn s.loaders scope) := by
    rw [loaders_eq]
    exact s.forall₂_loads scope (entities s.db)
  have hperm (scope : String) : (s.ordered scope).Perm (loadersIn s.loaders scope) := arrange_perm _
  refine ⟨s.spaces, s.ordered, fun scope => s.header scope (s.ordered scope),
    fun scope => s.source scope (s.ordered scope), ⟨s.pairwise_spaces, fun scope => mem_spaces_iff, s.files_eq,
      fun scope _ => s.declares_header scope _, fun scope _ => defines_source fun l hl => ?_,
      fun scope _ => pairwise_arrange _, fun scope _ => ⟨_, hloads scope, hperm scope⟩⟩⟩
  obtain ⟨e, -, he⟩ := exists_of_mem_right (hloads scope) ((hperm scope).mem_iff.1 hl)
  exact he.body

/-- Entities of all kinds in one namespace, among them a template and functions that are deleted.  Of another
namespace nothing is bound, and one enumeration lies in no namespace. -/
def mixed : Style where
  db := {
    classes := .ofList [
      ("ns::Box", { name := "Box", scope := "ns", isTemplate := true }),
      ("ns::Circle", {
        name := "Circle", scope := "ns"
        location := { file := "/project/shape.h", line := 8 } })]
    enums := .ofList [
      ("Answer", { name := "Answer" }),
      ("ns::Kind", {
        name := "Kind", scope := "ns", values := [{ name := "Round" }]
        flags := { loadPriority := 1 }
        location := { file := "/project/shape.h", line := 9 } }),
      ("ns::inner::Secret", { name := "Secret", scope := "ns::inner", flags := { noBind := true } })]
    functions := .ofList [
      ("ns::area", .overload {
        name := "area"
        overloads := [
          { name := "area", scope := "ns", deleted := true
            location := { file := "/project/shape.h", line := 5 } },
          { name := "area", scope := "ns", location := { file := "/project/area.h", line := 2 } }] }),
      ("ns::drop", .concrete { name := "drop", scope := "ns", deleted := true })]
    globals := .ofList [
      ("ns::unit_circle", {
        name := "unit_circle", scope := "ns"
        location := { file := "/project/shape.h", line := 8 } })] }
  flavour := {
    fetchTable := "auto \x7bstore_in\x7d = state\x7bnamespace_path\x7d;"
    classBody := "add<\x7bcpp_class\x7d>(\"\x7blua_short_name\x7d\"\x7bclass_definition\x7d);"
    enumBody := "add<\x7benum_type\x7d>(\"\x7benum_name\x7d\", \x7benum_fields\x7d);"
    functionBody := "set(\"\x7bfunction_name\x7d\", \x7bfunction_ptr\x7d);"
    globalBody := "set(\"\x7bglobal_name\x7d\", \x7bglobal_ptr\x7d);" }
  roots := ["/project"]

theorem Style.files_arranged_mixed : (∃ loaders header source, mixed.Arranged ["ns"] loaders header source) ∧
    mixed.files = [
      ⟨"include/Bindings/Ns/ns.hpp", "\n".intercalate [
        "#pragma once",
        "",
        "namespace sol \x7b class state_view; \x7d;",
        "namespace ns::Bindings",
        "\x7b",
        "void LoadEnumKind(sol::state_view state);",
        "void LoadFunctionArea(sol::state_view state);",
        "void LoadClassCircle(sol::state_view state);",
        "void LoadGlobalUnitCircle(sol::state_view state);",
        "\x7d;",
        ""]⟩,
      ⟨"src/Bindings/Ns/ns.cpp", "\n".intercalate [
        "#include <Bindings/Ns/ns.hpp>",
        "#include <sol/sol.hpp>",
        "",
        "#include <area.h>",
        "#include <shape.h>",
        "",
        "namespace ns::Bindings",
        "\x7b",
        "void LoadEnumKind(sol::state_view state)",
        "\x7b",
        "auto ns_namespace = state[\"ns\"];",
        "add<ns::Kind>(\"Kind\", \x7b\x7b\"Round\", ns::Kind::Round\x7d\x7d);",
        "\x7d",
        "void LoadFunctionArea(sol::state_view state)",
        "\x7b",
        "auto ns_namespace = state[\"ns\"];",
        "set(\"area\", static_cast<void (*)()>(&ns::area));",
        "\x7d",
        "void LoadClassCircle(sol::state_view state)",
        "\x7b",
        "auto ns_namespace = state[\"ns\"];",
        "add<ns::Circle>(\"Circle\", sol::call_constructor, sol::default_constructor);",
        "\x7d",
        "void LoadGlobalUnitCircle(sol::state_view state)",
        "\x7b",
        "auto ns_namespace = state[\"ns\"];",
        "set(\"unit_circle\", ns::unit_circle);",
        "\x7d",
        "\x7d;",
        ""]⟩] := by
  have hspaces : mixed.spaces = ["ns"] := by decide +kernel
  constructor
  · obtain ⟨spaces, loaders, header, source, h⟩ := mixed.files_arranged
    have hsame : spaces = ["ns"] := by
      rw [← hspaces]
      exact h.ascending.eq_of_mem_iff mixed.pairwise_spaces fun scope =>
        (h.mem_iff scope).trans mem_spaces_iff.symm
    exact ⟨loaders, header, source, hsame ▸ h⟩
  · -- The loaders are sorted in a way that can be worked out.
    have hordered : mixed.ordered "ns" =
        (loadersIn mixed.loaders "ns").insertionSort fun a b => a.before b :=
      arrange_eq_of_perm (List.perm_insertionSort _ _).symm (by decide +kernel)
    rw [files_eq, hspaces, List.flatMap_singleton, hordered]
    decide +kernel

end ScriptBindings.Emit
