import Mathlib
import ScriptBindings.Compound.Extraction
import ScriptBindings.Proofs.Directive.Receiving
import ScriptBindings.Proofs.Except

/-!
# Documents without their flags

Whether a document can be read, which symbols it declares and what it says about them does not depend on
the flags that wait.  So a document is first read as a draft, in which no symbol has flags, and the flags
are given to the symbols of the draft one after the other.  Every reader is proved equal to its draft with
the flags given.
-/

namespace ScriptBindings

/-! ## Giving flags -/

/-- A callable without flags, with some: flags rename parameters and may ask for a visibility. -/
def Callable.endow (flags : Flags) (f : Callable) : Callable :=
  { f with
    params := Compound.renameParameters f.params flags.renameParameters
    flags := flags
    visibility := flags.visibility.getD f.visibility }

/-- A placeholder has no flags, but they may ask for its visibility. -/
def Placeholder.endow (flags : Flags) (p : Placeholder) : Placeholder :=
  { p with visibility := flags.visibility.getD p.visibility }

/-- Give flags to what a single declaration stands for. -/
def Slot.endow (flags : Flags) : Slot → Slot
  | .concrete f => .concrete (f.endow flags)
  | .overload g => .overload { g with overloads := g.overloads.map (Callable.endow flags) }
  | .placeholder p => .placeholder (p.endow flags)

@[simp]
theorem Slot.name_endow (flags : Flags) (s : Slot) : (s.endow flags).name = s.name := by
  cases s <;> rfl

@[simp]
theorem Slot.callables_endow (flags : Flags) (s : Slot) :
    (s.endow flags).callables = s.callables.map (Callable.endow flags) := by
  cases s <;> rfl

/-- Give flags to an attribute. -/
def Attribute.endow (flags : Flags) (a : Attribute) : Attribute :=
  { a with flags := flags }

/-- Give flags to an enumeration. -/
def Enumeration.endow (flags : Flags) (e : Enumeration) : Enumeration :=
  { e with flags := flags }

/-- Give flags to a variable. -/
def Global.endow (flags : Flags) (g : Global) : Global :=
  { g with flags := flags }

/-- Give flags to another name for a type. -/
def Typedef.endow (flags : Flags) (t : Typedef) : Typedef :=
  { t with flags := flags }

/-- Give flags to a namespace. -/
def NamespaceInfo.endow (flags : Flags) (n : NamespaceInfo) : NamespaceInfo :=
  { n with flags := flags }

/-- Give flags to a class, apart from its members. -/
def Class.endow (flags : Flags) (c : Class) : Class :=
  { c with flags := flags }

namespace Compound

/-- Give flags to a member of a class. -/
def ClassMember.endow (flags : Flags) : ClassMember → ClassMember
  | .constructor f => .constructor (f.endow flags)
  | .rejected p => .rejected (p.endow flags)
  | .destructor f => .destructor (f.endow flags)
  | .method slot => .method (slot.endow flags)
  | .hidden slot => .hidden (slot.endow flags)
  | .attribute a => .attribute (a.endow flags)
  | .enumeration e => .enumeration (e.endow flags)
  | .typedef t => .typedef (t.endow flags)

/-- Give flags to a member of a namespace. -/
def NamespaceMember.endow (flags : Flags) : NamespaceMember → NamespaceMember
  | .function slot => .function (slot.endow flags)
  | .enumeration e => .enumeration (e.endow flags)
  | .typedef t => .typedef (t.endow flags)
  | .variable g => .variable (g.endow flags)

/-! ## Drafts -/

/-- A symbol that has been read, with what it declares while its flags are left out. -/
structure Draft (α : Type) extends Documented where
  content : α

namespace Draft

variable {α β : Type}

/-- Change what is declared. -/
def map (f : α → β) (d : Draft α) : Draft β :=
  { d with content := f d.content }

/-- Read the flags of a symbol and give them to what it declares. -/
def complete (endow : Flags → α → α) (ctx : FlagContext) (d : Draft α) : α × FlagContext :=
  (endow (ctx.flagsOf d.element d.fqn).1 d.content, (ctx.flagsOf d.element d.fqn).2)

/-- The same for a symbol that may have been left out. -/
def complete? (endow : Flags → α → α) (ctx : FlagContext) :
    Option (Draft α) → Option α × FlagContext
  | none => (none, ctx)
  | some d => (some (d.complete endow ctx).1, (d.complete endow ctx).2)

/-- The same for symbols one after the other. -/
def completeAll (endow : Flags → α → α) : FlagContext → List (Draft α) → List α × FlagContext
  | ctx, [] => ([], ctx)
  | ctx, d :: rest =>
      let (a, ctx) := d.complete endow ctx
      let (as, ctx) := completeAll endow ctx rest
      (a :: as, ctx)

theorem completeAll_toList_append (endow : Flags → α → α) (ctx : FlagContext)
    (here : Option (Draft α)) (later : List (Draft α)) :
    completeAll endow ctx (here.toList ++ later) =
      ((complete? endow ctx here).1.toList ++
          (completeAll endow (complete? endow ctx here).2 later).1,
        (completeAll endow (complete? endow ctx here).2 later).2) := by
  cases here <;> rfl

theorem completeAll_cons (endow : Flags → α → α) (ctx : FlagContext) (d : Draft α)
    (rest : List (Draft α)) : completeAll endow ctx (d :: rest) =
      ((d.complete endow ctx).1 :: (completeAll endow (d.complete endow ctx).2 rest).1,
        (completeAll endow (d.complete endow ctx).2 rest).2) := rfl

theorem completeAll_append (endow : Flags → α → α) (ctx : FlagContext) (front back : List (Draft α)) :
    completeAll endow ctx (front ++ back) =
      ((completeAll endow ctx front).1 ++ (completeAll endow (completeAll endow ctx front).2 back).1,
        (completeAll endow (completeAll endow ctx front).2 back).2) := by
  induction front generalizing ctx with
  | nil => rfl
  | cons d front ih =>
      rw [List.cons_append, completeAll_cons, completeAll_cons, ih]
      rfl

end Draft

/-! ## Drafts of members -/

/-- The drafts of members one after the other, without those that are left out. -/
def draftAll {α : Type} (draft : Xml.Element → Except Fault (Option (Draft α))) :
    List Xml.Element → Except Fault (List (Draft α))
  | [] => .ok []
  | member :: rest => do
      let here ← draft member
      let later ← draftAll draft rest
      return here.toList ++ later

/-- Every draft is the draft of a member. -/
theorem exists_of_mem_draftAll {α : Type} {draft : Xml.Element → Except Fault (Option (Draft α))}
    {members : List Xml.Element} {ds : List (Draft α)} (h : draftAll draft members = .ok ds)
    {d : Draft α} (hd : d ∈ ds) : ∃ member ∈ members, draft member = .ok (some d) := by
  induction members generalizing ds with
  | nil =>
      cases h
      cases hd
  | cons member rest ih =>
      simp only [draftAll, bind_eq_ok_iff, pure_eq_ok_iff] at h
      obtain ⟨here, hhere, later, hlater, rfl⟩ := h
      rcases List.mem_append.1 hd with hd | hd
      · exact ⟨member, List.mem_cons_self, by rw [hhere, Option.mem_toList.1 hd]⟩
      · obtain ⟨other, hother, hdraft⟩ := ih hlater hd
        exact ⟨other, List.mem_cons_of_mem _ hother, hdraft⟩

theorem draftAll_append_eq_ok_iff {α : Type} {draft : Xml.Element → Except Fault (Option (Draft α))}
    {first second : List Xml.Element} {ds : List (Draft α)} :
    draftAll draft (first ++ second) = .ok ds ↔ ∃ front back, draftAll draft first = .ok front ∧
      draftAll draft second = .ok back ∧ ds = front ++ back := by
  induction first generalizing ds with
  | nil => simp [draftAll]
  | cons member first ih =>
      simp only [List.cons_append, draftAll, bind_eq_ok_iff, pure_eq_ok_iff, ih]
      constructor
      · rintro ⟨here, hhere, _, ⟨front, back, hfront, hback, rfl⟩, rfl⟩
        exact ⟨here.toList ++ front, back, ⟨here, hhere, front, hfront, rfl⟩, hback,
          (List.append_assoc _ _ _).symm⟩
      · rintro ⟨_, back, ⟨here, hhere, front, hfront, rfl⟩, hback, rfl⟩
        exact ⟨here, hhere, front ++ back, ⟨front, back, hfront, hback, rfl⟩,
          (List.append_assoc _ _ _).symm⟩

/-- The draft of a callable. -/
def draftCallable (s : Setting) (place : Place) (member : Xml.Element) :
    Except Fault (Draft Slot) := do
  let slot ← callableSlot s place member {}
  return ⟨⟨place.fqn (member.childText "name"), member⟩, slot⟩

/-- The draft of a symbol that must have a type; nothing if it is left out. -/
def draftTyped {α : Type} (s : Setting) (place : Place) (member : Xml.Element) (fqn : String)
    (make : CppType → Flags → Location → α) : Except Fault (Option (Draft α)) := do
  match ← memberType s place member with
  | some (.read ty) =>
      let location ← Location.ofElement member fqn s.root
      return some ⟨⟨fqn, member⟩, make ty {} location⟩
  | _ => return none

/-- The draft of an enumeration. -/
def draftEnum (s : Setting) (scope : String) (member : Xml.Element) :
    Except Fault (Draft Enumeration) := do
  let fqn := Name.qualify scope none (member.childText "name")
  let location ← Location.ofElement member fqn s.root
  return ⟨⟨fqn, member⟩, enumerationOf scope member {} location⟩

/-- Flags do not decide whether a callable can be read, nor which kind of slot it takes. -/
theorem callableSlot_eq (s : Setting) (place : Place) (member : Xml.Element) (flags : Flags) :
    callableSlot s place member flags = (callableSlot s place member {}).map (Slot.endow flags) := by
  obtain ⟨inner, hinner⟩ : ∃ inner : Place, inner =
    { place with templateParams := place.templateParams ++ templateParams member } := ⟨_, rfl⟩
  -- Along the checks of the reader: whatever the flags are, it stops at the same one.
  by_cases hspecialised : isSpecialisationName (member.childText "name") = true
  · simp only [callableSlot, if_pos hspecialised]
    rfl
  by_cases hoperator :
      (Text.startsWith "operator" (member.childText "name") && place.owner.isNone) = true
  · simp only [callableSlot, if_neg hspecialised, if_pos hoperator]
    rfl
  simp only [callableSlot, if_neg hspecialised, if_neg hoperator, ← hinner]
  cases readResult s inner member (isSpecialName place (member.childText "name")) with
  | error fault => rfl
  | ok result =>
      rcases result with ⟨result⟩ | ⟨reason⟩
      · simp only [bind, Except.bind]
        cases readParameters s inner member (member.children "param").zipIdx with
        | error fault => rfl
        | ok parameters =>
            rcases parameters with ⟨parameters⟩ | ⟨reason⟩
            · simp only
              cases Location.ofElement member (place.fqn (member.childText "name")) s.root <;> rfl
            · rfl
      · rfl

theorem readCallable_eq (s : Setting) (place : Place) (ctx : FlagContext) (member : Xml.Element) :
    readCallable s place ctx member =
      (draftCallable s place member).map (Draft.complete Slot.endow ctx) := by
  rcases hgiven : ctx.flagsOf member (place.fqn (member.childText "name")) with ⟨flags, after⟩
  simp only [readCallable, draftCallable, hgiven]
  rw [callableSlot_eq]
  cases callableSlot s place member {} with
  | error fault => rfl
  | ok slot =>
      simp only [bind, Except.bind, pure, Except.pure, Except.map, Draft.complete, hgiven]

theorem readEnum_eq (s : Setting) (scope : String) (ctx : FlagContext) (member : Xml.Element) :
    readEnum s scope ctx member = (draftEnum s scope member).map
      (Draft.complete Enumeration.endow ctx) := by
  obtain ⟨fqn, hfqn⟩ : ∃ fqn, fqn = Name.qualify scope none (member.childText "name") := ⟨_, rfl⟩
  rcases hgiven : ctx.flagsOf member fqn with ⟨flags, after⟩
  simp only [readEnum, draftEnum, ← hfqn, hgiven]
  cases Location.ofElement member fqn s.root with
  | error fault => rfl
  | ok location =>
      simp only [bind, Except.bind, pure, Except.pure, Except.map, Draft.complete, hgiven]
      rfl

/-- A symbol that is left out does not receive anything. -/
theorem readTyped_eq {α : Type} (s : Setting) (place : Place) (ctx : FlagContext)
    (member : Xml.Element) (fqn : String) {make : CppType → Flags → Location → α}
    (endow : Flags → α → α)
    (hmake : ∀ ty flags location, endow flags (make ty {} location) = make ty flags location) :
    readTyped s place ctx member fqn make =
      (draftTyped s place member fqn make).map (Draft.complete? endow ctx) := by
  rcases hgiven : ctx.flagsOf member fqn with ⟨flags, after⟩
  simp only [readTyped, draftTyped, hgiven]
  cases memberType s place member with
  | error fault => rfl
  | ok type =>
      rcases type with _ | ⟨ty⟩ | ⟨reason⟩
      · rfl
      · cases Location.ofElement member fqn s.root with
        | error fault => rfl
        | ok location =>
            simp only [bind, Except.bind, pure, Except.pure, Except.map, Draft.complete?,
              Draft.complete, hgiven, hmake]
      · rfl

/-! ## Drafts of classes -/

/-- The draft of a member of a class; nothing if it is not read. -/
def draftClassMember (s : Setting) (place : Place) (fqn : String) (member : Xml.Element) :
    Except Fault (Option (Draft (List ClassMember))) := do
  let visibility := visibilityOf (member.attr? "prot")
  let shortName := Name.withoutTemplateArgs (place.owner.getD "")
  let name := member.childText "name"
  match member.attr? "kind" with
  | some "function" =>
      let d ← draftCallable s place member
      return some (d.map (placeCallable shortName visibility))
  | some kind =>
      if visibility ≠ .pub then return none
      else if kind = "variable" then
        let d ← draftTyped s place member (place.fqn name) (attributeOf place member)
        return d.map (Draft.map fun a => [.attribute a])
      else if kind = "enum" then
        let d ← draftEnum s fqn member
        return some (d.map fun e => [.enumeration e])
      else if kind = "typedef" then
        let d ← draftTyped s place member (Name.qualify place.context none name)
          (typedefOf place member)
        return d.map (Draft.map fun t => [.typedef t])
      else return none
  | none => return none

/-- Give flags to all that a single declaration stands for. -/
def endowMembers (flags : Flags) : List ClassMember → List ClassMember :=
  List.map (ClassMember.endow flags)

theorem placeCallable_endow (shortName : String) (visibility : Visibility) (flags : Flags)
    (slot : Slot) : placeCallable shortName visibility (slot.endow flags) =
      endowMembers flags (placeCallable shortName visibility slot) := by
  unfold placeCallable endowMembers
  rw [Slot.name_endow]
  split
  · cases slot <;> simp [Slot.endow, Slot.callables, ClassMember.endow]
  · split
    · cases slot <;> rfl
    · split <;> rfl

theorem Draft.complete_map {α β : Type} {endow : Flags → α → α} {endow' : Flags → β → β}
    {f : α → β} (h : ∀ flags a, endow' flags (f a) = f (endow flags a)) (ctx : FlagContext)
    (d : Draft α) : (d.map f).complete endow' ctx =
      (f (d.complete endow ctx).1, (d.complete endow ctx).2) := by
  unfold Draft.complete Draft.map
  rw [h]

theorem readClassMember_eq (s : Setting) (place : Place) (fqn : String) (ctx : FlagContext)
    (member : Xml.Element) : readClassMember s place fqn ctx member =
      (draftClassMember s place fqn member).map fun d =>
        ((Draft.complete? endowMembers ctx d).1.getD [], (Draft.complete? endowMembers ctx d).2) := by
  simp only [readClassMember, draftClassMember]
  -- Both sides look at the kind and the visibility before there are any flags.
  cases member.attr? "kind" with
  | none => rfl
  | some kind =>
      by_cases hfunction : kind = "function"
      · subst hfunction
        simp only [readCallable_eq]
        cases draftCallable s place member with
        | error fault => rfl
        | ok d =>
            simp only [bind, Except.bind, pure, Except.pure, Except.map, Draft.complete?,
              Draft.complete_map fun flags a => (placeCallable_endow _ _ flags a).symm,
              Option.getD_some]
      · simp only
        by_cases hpublic : visibilityOf (member.attr? "prot") ≠ .pub
        · simp only [if_pos hpublic]
          rfl
        simp only [if_neg hpublic]
        by_cases hvariable : kind = "variable"
        · simp only [if_pos hvariable, readAttribute]
          rw [readTyped_eq s place ctx member _ Attribute.endow fun _ _ _ => rfl]
          cases draftTyped s place member _ (attributeOf place member) with
          | error fault => rfl
          | ok d => cases d <;> rfl
        simp only [if_neg hvariable]
        by_cases henum : kind = "enum"
        · simp only [if_pos henum, readEnum_eq]
          cases draftEnum s fqn member <;> rfl
        simp only [if_neg henum]
        by_cases htypedef : kind = "typedef"
        · simp only [if_pos htypedef, readTypedef]
          rw [readTyped_eq s place ctx member _ Typedef.endow fun _ _ _ => rfl]
          cases draftTyped s place member _ (typedefOf place member) with
          | error fault => rfl
          | ok d => cases d <;> rfl
        · simp only [if_neg htypedef]
          rfl

theorem readClassMembers_eq (s : Setting) (place : Place) (fqn : String) (ctx : FlagContext)
    (members : List Xml.Element) : readClassMembers s place fqn ctx members =
      (draftAll (draftClassMember s place fqn) members).map fun ds =>
        ((Draft.completeAll endowMembers ctx ds).1.flatten,
          (Draft.completeAll endowMembers ctx ds).2) := by
  induction members generalizing ctx with
  | nil => rfl
  | cons member rest ih =>
      simp only [readClassMembers, draftAll, readClassMember_eq]
      cases draftClassMember s place fqn member with
      | error fault => rfl
      | ok here =>
          simp only [bind, Except.bind, pure, Except.pure, Except.map, ih]
          cases draftAll (draftClassMember s place fqn) rest with
          | error fault => rfl
          | ok later =>
              simp only [Draft.completeAll_toList_append, List.flatten_append]
              cases here <;> simp [Draft.complete?]

/-- The draft of a class document. -/
structure ClassDraft where
  header : Draft Class
  members : List (Draft (List ClassMember))

/-- The place of the members of a class. -/
def memberPlace (header : Class) : Place :=
  ⟨header.scope, some header.name, header.templateParams⟩

/-- Read the draft of a class. -/
def draftClass (s : Setting) (compound : Xml.Element) : Except Fault ClassDraft := do
  let fqn := compound.childText "compoundname"
  let header ← readClassHeader s fqn {} compound
  let found ← draftAll (draftClassMember s (memberPlace header) fqn) (members compound)
  return ⟨⟨⟨fqn, compound⟩, header⟩, found⟩

/-- All symbols of a class document, in the order in which they are read. -/
def ClassDraft.documented (d : ClassDraft) : List Documented :=
  d.header.toDocumented :: d.members.map Draft.toDocumented

/-- Add a class with all its members to a database. -/
def addFound (fqn : String) (header : Class) (found : List ClassMember) (db : Database) : Database :=
  let db := found.foldl (addBesideClass fqn) db
  { db with classes := db.classes.insert fqn (assembleClass header found) }

/-- Add a class with all its members to a database, with flags for the symbols. -/
def ClassDraft.addTo (given : Documented → Flags) (db : Database) (d : ClassDraft) : Database :=
  let found := d.members.flatMap fun m => endowMembers (given m.toDocumented) m.content
  addFound d.header.fqn (d.header.content.endow (given d.header.toDocumented)) found db

theorem readClassHeader_eq (s : Setting) (fqn : String) (flags : Flags) (compound : Xml.Element) :
    readClassHeader s fqn flags compound =
      (readClassHeader s fqn {} compound).map (Class.endow flags) := by
  simp only [readClassHeader]
  cases Location.ofElement compound fqn s.root with
  | error fault => rfl
  | ok location =>
      cases (compound.children "basecompoundref").mapM (readBase s (Name.parentScope fqn)) <;> rfl

theorem readClass_eq (s : Setting) (db : Database) (ctx : FlagContext) (compound : Xml.Element) :
    readClass s db ctx compound = (draftClass s compound).map fun d =>
      let header := d.header.complete Class.endow ctx
      let found := Draft.completeAll endowMembers header.2 d.members
      (addFound d.header.fqn header.1 found.1.flatten db, found.2) := by
  obtain ⟨fqn, hfqn⟩ : ∃ fqn, fqn = compound.childText "compoundname" := ⟨_, rfl⟩
  rcases hgiven : ctx.flagsOf compound fqn with ⟨flags, after⟩
  simp only [readClass, draftClass, ← hfqn, hgiven]
  rw [readClassHeader_eq]
  cases readClassHeader s fqn {} compound with
  | error fault => rfl
  | ok header =>
      have hplace : (⟨(header.endow flags).scope, some (header.endow flags).name,
        (header.endow flags).templateParams⟩ : Place) = memberPlace header := rfl
      simp only [bind, Except.bind, pure, Except.pure, Except.map, readClassMembers_eq, hplace]
      cases draftAll (draftClassMember s (memberPlace header) fqn) (members compound) with
      | error fault => rfl
      | ok found =>
          simp only [Draft.complete, hgiven]
          rfl

/-! ## Drafts of namespaces -/

/-- The draft of a member of a namespace; nothing if it is not read. -/
def draftNamespaceMember (s : Setting) (name : String) (member : Xml.Element) :
    Except Fault (Option (Draft NamespaceMember)) := do
  let place : Place := { scope := name }
  match member.attr? "kind" with
  | some "function" =>
      let d ← draftCallable s place member
      return some (d.map .function)
  | some "enum" =>
      let d ← draftEnum s name member
      return some (d.map .enumeration)
  | some "typedef" =>
      let d ← draftTyped s place member (Name.qualify place.context none (member.childText "name"))
        (typedefOf place member)
      return d.map (Draft.map .typedef)
  | some "variable" =>
      let d ← draftTyped s place member (Name.qualify place.scope none (member.childText "name"))
        (globalOf place member)
      return d.map (Draft.map .variable)
  | _ => return none

theorem readNamespaceMember_eq (s : Setting) (name : String) (ctx : FlagContext)
    (member : Xml.Element) : readNamespaceMember s name ctx member =
      (draftNamespaceMember s name member).map (Draft.complete? NamespaceMember.endow ctx) := by
  simp only [readNamespaceMember, draftNamespaceMember]
  generalize member.attr? "kind" = kind
  split
  · rw [readCallable_eq]
    cases draftCallable s { scope := name } member <;> rfl
  · rw [readEnum_eq]
    cases draftEnum s name member <;> rfl
  · rw [readTypedef, readTyped_eq s _ ctx member _ Typedef.endow fun _ _ _ => rfl]
    cases draftTyped s { scope := name } member _ (typedefOf { scope := name } member) with
    | error fault => rfl
    | ok d => cases d <;> rfl
  · rw [readGlobal, readTyped_eq s _ ctx member _ Global.endow fun _ _ _ => rfl]
    cases draftTyped s { scope := name } member _ (globalOf { scope := name } member) with
    | error fault => rfl
    | ok d => cases d <;> rfl
  · simp [pure, Except.pure, Except.map, Draft.complete?]

theorem readNamespaceMembers_eq (s : Setting) (name : String) (ctx : FlagContext)
    (members : List Xml.Element) : readNamespaceMembers s name ctx members =
      (draftAll (draftNamespaceMember s name) members).map
        (Draft.completeAll NamespaceMember.endow ctx) := by
  induction members generalizing ctx with
  | nil => rfl
  | cons member rest ih =>
      simp only [readNamespaceMembers, draftAll, readNamespaceMember_eq]
      cases draftNamespaceMember s name member with
      | error fault => rfl
      | ok here =>
          simp only [bind, Except.bind, pure, Except.pure, Except.map, ih]
          cases draftAll (draftNamespaceMember s name) rest with
          | error fault => rfl
          | ok later => simp only [Draft.completeAll_toList_append]

/-- The draft of a namespace document. -/
structure NamespaceDraft where
  info : Draft NamespaceInfo
  members : List (Draft NamespaceMember)

/-- Read the draft of a namespace. -/
def draftNamespace (s : Setting) (compound : Xml.Element) : Except Fault NamespaceDraft := do
  let name := compound.childText "compoundname"
  let found ← draftAll (draftNamespaceMember s name) (members compound)
  return ⟨⟨⟨name, compound⟩,
    ⟨compound.attr "id", name, {}, compound.childText "briefdescription"⟩⟩, found⟩

/-- All symbols of a namespace document, in the order in which they are read. -/
def NamespaceDraft.documented (d : NamespaceDraft) : List Documented :=
  d.info.toDocumented :: d.members.map Draft.toDocumented

/-- Record a namespace, with its flags. -/
def NamespaceDraft.addInfo (given : Documented → Flags) (db : Database) (d : NamespaceDraft) :
    Database :=
  { db with
    namespaces := db.namespaces.insert d.info.fqn
      (d.info.content.endow (given d.info.toDocumented)) }

/-- Add a namespace with all its members to a database, with flags for the symbols. -/
def NamespaceDraft.addTo (given : Documented → Flags) (db : Database) (d : NamespaceDraft) :
    Database :=
  let found := d.members.map fun m => m.content.endow (given m.toDocumented)
  found.foldl (addNamespaceMember d.info.fqn) (d.addInfo given db)

theorem addNamespace_eq {s : Setting} {db : Database} {ctx : FlagContext} {compound : Xml.Element}
    (hbound : (ctx.flagsOf compound (compound.childText "compoundname")).1.noBind = false) :
    addNamespace s db ctx compound = (draftNamespace s compound).map fun d =>
      let info := d.info.complete NamespaceInfo.endow ctx
      let found := Draft.completeAll NamespaceMember.endow info.2 d.members
      (found.1.foldl (addNamespaceMember d.info.fqn)
        { db with namespaces := db.namespaces.insert d.info.fqn info.1 }, found.2) := by
  obtain ⟨name, hname⟩ : ∃ name, name = compound.childText "compoundname" := ⟨_, rfl⟩
  rw [← hname] at hbound
  rcases hgiven : ctx.flagsOf compound name with ⟨flags, after⟩
  rw [hgiven] at hbound
  have hnot : ¬ flags.noBind = true := by simpa using hbound
  simp only [addNamespace, draftNamespace, ← hname, hgiven, if_neg hnot]
  rw [readNamespaceMembers_eq]
  cases draftAll (draftNamespaceMember s name) (members compound) with
  | error fault => rfl
  | ok found =>
      simp only [bind, Except.bind, pure, Except.pure, Except.map, Draft.complete, hgiven]
      rfl

/-! ## Adding compounds -/

section Adding

variable {s : Setting} {x : Extraction} {compound : Xml.Element}

theorem addCompound_class (hkind : compound.attr? "kind" = some "class" ∨
    compound.attr? "kind" = some "struct") : x.addCompound s compound =
      (addClass s x.db x.ctx compound).map fun r => ⟨r.1, r.2⟩ := by
  rcases hkind with hkind | hkind
  · simp only [Extraction.addCompound, hkind]
    cases addClass s x.db x.ctx compound <;> rfl
  · simp only [Extraction.addCompound, hkind]
    cases addClass s x.db x.ctx compound <;> rfl

theorem addCompound_namespace (hkind : compound.attr? "kind" = some "namespace") :
    x.addCompound s compound =
      (addNamespace s x.db x.ctx compound).map fun r => ⟨r.1, r.2⟩ := by
  simp only [Extraction.addCompound, hkind]
  cases addNamespace s x.db x.ctx compound <;> rfl

end Adding

/-! ## The flags that a document is given -/

section Accounts

open FlagContext (Accounts)

variable {s : Setting} {compound : Xml.Element} {sets : TypeSets} {read : List Documented}
  {given : Documented → Flags} {ctx ctx' : FlagContext} {db db' : Database}

/-- A symbol that is read is given flags, and the others keep theirs. -/
theorem exists_given_complete (h : Accounts sets read given ctx) (d : Documented)
    (hnew : d.key ∉ read.map Documented.key) :
    ∃ given', (∀ e ∈ read, given' e = given e) ∧ given' d = (ctx.flagsOf d.element d.fqn).1 ∧
      Accounts sets (read ++ [d]) given' (ctx.flagsOf d.element d.fqn).2 := by
  have hkept : ∀ e ∈ read,
      (if e.key = d.key then (ctx.flagsOf d.element d.fqn).1 else given e) = given e :=
    fun e he => by
      rw [if_neg]
      intro heq
      exact hnew (heq ▸ List.mem_map_of_mem he)
  have hself : (if d.key = d.key then (ctx.flagsOf d.element d.fqn).1 else given d) =
      (ctx.flagsOf d.element d.fqn).1 := if_pos rfl
  exact ⟨fun e => if e.key = d.key then (ctx.flagsOf d.element d.fqn).1 else given e, hkept, hself,
    (h.congr hkept).flagsOf d hnew hself⟩

theorem not_mem_of_nodup {d : Documented} {more : List Documented}
    (h : ((read ++ [d] ++ more).map Documented.key).Nodup) : d.key ∉ read.map Documented.key := by
  rw [List.map_append, List.map_append] at h
  have hdisjoint := List.disjoint_of_nodup_append (List.Nodup.of_append_left h)
  exact fun hmem => hdisjoint hmem (by simp)

/-- Symbols with counters of their own are given flags one after the other. -/
theorem exists_given_completeAll {α : Type} (endow : Flags → α → α) (ds : List (Draft α))
    (h : Accounts sets read given ctx)
    (hkeys : ((read ++ ds.map Draft.toDocumented).map Documented.key).Nodup) :
    ∃ given', (∀ e ∈ read, given' e = given e) ∧
      (Draft.completeAll endow ctx ds).1 =
        ds.map (fun d => endow (given' d.toDocumented) d.content) ∧
      Accounts sets (read ++ ds.map Draft.toDocumented) given'
        (Draft.completeAll endow ctx ds).2 := by
  induction ds generalizing read given ctx with
  | nil => exact ⟨given, fun _ _ => rfl, rfl, by simpa [Draft.completeAll] using h⟩
  | cons d ds ih =>
      have hsplit : read ++ (d :: ds).map Draft.toDocumented =
          read ++ [d.toDocumented] ++ ds.map Draft.toDocumented := by simp
      rw [hsplit] at hkeys ⊢
      obtain ⟨given₁, hkept₁, hself, hread₁⟩ :=
        exists_given_complete h d.toDocumented (not_mem_of_nodup hkeys)
      obtain ⟨given₂, hkept₂, hall, hread₂⟩ := ih hread₁ hkeys
      refine ⟨given₂, fun e he => ?_, ?_, hread₂⟩
      · rw [hkept₂ e (List.mem_append_left _ he), hkept₁ e he]
      · have hd : given₂ d.toDocumented = (ctx.flagsOf d.element d.fqn).1 := by
          rw [hkept₂ _ (by simp), hself]
        rw [List.map_cons, hd, ← hall]
        rfl

/-- The same for the symbol of a document and the symbols of its members. -/
theorem exists_given_document {α β : Type} {endow : Flags → α → α} {endow' : Flags → β → β}
    (d : Draft α) (ds : List (Draft β)) (h : Accounts sets read given ctx)
    (hkeys : ((read ++ d.toDocumented :: ds.map Draft.toDocumented).map Documented.key).Nodup) :
    ∃ given', (∀ e ∈ read, given' e = given e) ∧
      (d.complete endow ctx).1 = endow (given' d.toDocumented) d.content ∧
      (Draft.completeAll endow' (d.complete endow ctx).2 ds).1 =
        ds.map (fun d => endow' (given' d.toDocumented) d.content) ∧
      Accounts sets (read ++ d.toDocumented :: ds.map Draft.toDocumented) given'
        (Draft.completeAll endow' (d.complete endow ctx).2 ds).2 := by
  have hsplit : read ++ d.toDocumented :: ds.map Draft.toDocumented =
      read ++ [d.toDocumented] ++ ds.map Draft.toDocumented := by simp
  rw [hsplit] at hkeys ⊢
  obtain ⟨given₁, hkept₁, hself, hread₁⟩ :=
    exists_given_complete h d.toDocumented (not_mem_of_nodup hkeys)
  obtain ⟨given₂, hkept₂, hall, hread₂⟩ := exists_given_completeAll endow' ds hread₁ hkeys
  refine ⟨given₂, fun e he => ?_, ?_, hall, hread₂⟩
  · rw [hkept₂ e (List.mem_append_left _ he), hkept₁ e he]
  · rw [hkept₂ _ (by simp), hself, Draft.complete]

/-- A class that is read adds its draft to the database, with the flags that its symbols are given. -/
theorem exists_draft_of_readClass (hread : readClass s db ctx compound = .ok (db', ctx')) :
    ∃ d, draftClass s compound = .ok d ∧ ∀ {sets : TypeSets} {read : List Documented}
      {given : Documented → Flags}, Accounts sets read given ctx →
        ((read ++ d.documented).map Documented.key).Nodup →
          ∃ given', (∀ e ∈ read, given' e = given e) ∧ db' = d.addTo given' db ∧
            Accounts sets (read ++ d.documented) given' ctx' := by
  rw [readClass_eq, map_eq_ok_iff] at hread
  obtain ⟨d, hdraft, hd⟩ := hread
  cases hd
  refine ⟨d, hdraft, fun {sets read given} h hkeys => ?_⟩
  obtain ⟨given', hkept, hheader, hall, hread'⟩ :=
    exists_given_document d.header d.members h hkeys
  refine ⟨given', hkept, ?_, hread'⟩
  simp only [ClassDraft.addTo, hheader, hall, List.flatMap_def]

/-- A namespace that is read, and bound, adds its draft to the database in the same way. -/
theorem exists_draft_of_addNamespace (hread : addNamespace s db ctx compound = .ok (db', ctx'))
    (hbound : (ctx.flagsOf compound (compound.childText "compoundname")).1.noBind = false) :
    ∃ d, draftNamespace s compound = .ok d ∧ ∀ {sets : TypeSets} {read : List Documented}
      {given : Documented → Flags}, Accounts sets read given ctx →
        ((read ++ d.documented).map Documented.key).Nodup →
          ∃ given', (∀ e ∈ read, given' e = given e) ∧ db' = d.addTo given' db ∧
            Accounts sets (read ++ d.documented) given' ctx' := by
  rw [addNamespace_eq hbound, map_eq_ok_iff] at hread
  obtain ⟨d, hdraft, hd⟩ := hread
  cases hd
  refine ⟨d, hdraft, fun {sets read given} h hkeys => ?_⟩
  obtain ⟨given', hkept, hinfo, hall, hread'⟩ :=
    exists_given_document d.info d.members h hkeys
  refine ⟨given', hkept, ?_, hread'⟩
  simp only [NamespaceDraft.addTo, NamespaceDraft.addInfo, hinfo, hall]

end Accounts

end Compound

end ScriptBindings
