import Mathlib
import ScriptBindings.Proofs.CppType.Repair
import ScriptBindings.Proofs.Compound.Callables
import ScriptBindings.Proofs.Compound.Faults
import ScriptBindings.Proofs.Compound.Visibility

/-!
# Template parameters in scope

A template parameter hides every symbol of its name, so that it must not be completed to a qualified name.
The types of all members of a class template are read with its parameters in scope: a parameter stays what it
is, and never stops the reading as an ambiguous name.  The bases are read without the parameters: a parameter
stays what it is in a base only if it would do so in any other name's place.
-/

namespace ScriptBindings

namespace CppType

/-- A type that is read from a text, with the names in `keep` as they are written. -/
def KeepsNames (keep : List String) (text : String) (ty : CppType) : Prop :=
  ∃ t, parse text = .ok t ∧ ty.nameless = t.nameless ∧
    List.Forall₂ (fun n m => n ∈ keep → m = n) t.names ty.names

variable {index : SymbolIndex} {context n m : String} {keep : List String}

theorem Becomes.eq_of_mem (h : Becomes index context keep n m) (hn : n ∈ keep) : m = n := by
  cases h with
  | settled => rfl
  | enclosed hsettled => exact absurd (Or.inl hn) hsettled
  | suffix hsettled => exact absurd (Or.inl hn) hsettled
  | unknown => rfl

theorem Ambiguous.not_mem (h : Ambiguous index context keep n) : n ∉ keep :=
  fun hn => h.unsettled (Or.inl hn)

end CppType

/-- A class has a callable, wherever it keeps it. -/
def Class.Has (c : Class) (f : Callable) : Prop :=
  f ∈ c.constructors ∨ c.destructor = some f ∨ c.methods.Holds f ∨ c.hiddenMethods.Holds f

namespace Compound

open CppType (KeepsNames Becomes Ambiguous)

variable {s : Setting} {place : Place} {fqn : String} {ctx ctx' : FlagContext} {member : Xml.Element}
  {ty : CppType}

/-! ## Texts without references -/

/-- A type in which nothing refers to a symbol by its identifier. -/
def IsUnreferenced (type : Xml.Element) : Prop :=
  ∀ ref ∈ type.children "ref", ref.attr? "refid" = none

instance (type : Xml.Element) : Decidable (IsUnreferenced type) :=
  inferInstanceAs (Decidable (∀ ref ∈ type.children "ref", _))

/-- A class document in which no type and no base refers to a symbol by its identifier. -/
@[mk_iff]
structure Unreferenced (compound : Xml.Element) : Prop where
  types : ∀ member ∈ members compound, ∀ e ∈ member :: member.children "param",
    ∀ type ∈ e.child? "type", IsUnreferenced type
  bases : ∀ e ∈ compound.children "basecompoundref", e.attr? "refid" = none

instance (compound : Xml.Element) : Decidable (Unreferenced compound) :=
  decidable_of_iff' _ (unreferenced_iff compound)

/-- The text of a type without references is its plain text. -/
theorem typeText_of_isUnreferenced {type : Xml.Element} (h : IsUnreferenced type) :
    typeText s.index type = Text.collapsed type.text := by
  obtain ⟨tag, attrs, content⟩ := type
  have hplain : ∀ e, .element e ∈ content → e.tag = "ref" → e.attr? "refid" = none := fun e he htag =>
    h e (List.mem_filter.2 ⟨List.mem_filterMap.2 ⟨.element e, he, rfl⟩, decide_eq_true htag⟩)
  -- A reference without an identifier stands for its own text, as any other part does.
  have hjoin : String.join (content.map (partText s.index)) = Xml.textOfContent content := by
    clear h
    induction content with
    | nil => rfl
    | cons part rest ih =>
        have hpart : partText s.index part = part.allText := by
          cases part with
          | text s => rfl
          | element e =>
              simp only [partText]
              split
              · rename_i htag
                simp only [referenceText, hplain e List.mem_cons_self htag]
                rfl
              · rfl
        rw [List.map_cons, String.join_cons, hpart, ih fun e he => hplain e (List.mem_cons_of_mem _ he)]
        rfl
  exact congrArg Text.collapsed hjoin

/-! ## Types -/

/-- An element has a type that is read with the names in `keep` as they are written. -/
def HasType (keep : List String) (e : Xml.Element) (ty : CppType) : Prop :=
  ∃ type, e.child? "type" = some type ∧ KeepsNames keep (Text.collapsed type.text) ty

/-- A type is read by repairing what its text says. -/
theorem readType_eq_read_iff {text : String} : readType s place text = .ok (.read ty) ↔
    ∃ t, CppType.parse text = .ok t ∧ t.repair s.index place.context place.templateParams = .ok ty := by
  unfold readType
  cases CppType.parse text with
  | error cause => simp
  | ok t =>
      simp only [Except.ok.injEq, exists_eq_left']
      cases t.repair s.index place.context place.templateParams with
      | ok t' => simp
      | error fault => cases fault <;> simp

/-- A type cannot be read only if its text is no type. -/
theorem readType_eq_unreadable {text reason : String}
    (h : readType s place text = .ok (.unreadable reason)) :
    ∃ cause, CppType.parse text = .error cause := by
  unfold readType at h
  split at h
  · rename_i cause hparse
    exact ⟨cause, hparse⟩
  · split at h
    · cases h
    · rename_i t _ _ cause hrepair
      obtain ⟨_, _, _, _, -, -, -, -, hfault⟩ := CppType.repair_eq_error_iff.1 hrepair
      cases hfault
    · cases h

/-- Reading a type stops only at an ambiguous name of it that is not in scope as a template parameter. -/
theorem readType_eq_error {text : String} {fault : Fault} (h : readType s place text = .error fault) :
    ∃ t n candidates, CppType.parse text = .ok t ∧ n ∈ t.names ∧
      Ambiguous s.index place.context place.templateParams n ∧
      fault = .ambiguousName n place.context candidates := by
  unfold readType at h
  split at h
  · cases h
  · rename_i t hparse
    split at h
    · cases h
    · cases h
    · rename_i fault' _ hrepair
      obtain rfl := Except.error.inj h
      obtain ⟨before, n, after, candidates, hnames, -, hambiguous, -, rfl⟩ :=
        CppType.repair_eq_error_iff.1 hrepair
      exact ⟨t, n, candidates, hparse, by simp [hnames], hambiguous, rfl⟩

/-- The parameters in scope are as they are written. -/
theorem hasType_of_memberType {e : Xml.Element}
    (hplain : ∀ type ∈ e.child? "type", IsUnreferenced type)
    (h : memberType s place e = .ok (some (.read ty))) : HasType place.templateParams e ty := by
  unfold memberType at h
  cases htype : e.child? "type" with
  | none =>
      rw [htype] at h
      cases h
  | some type =>
      rw [htype] at h
      simp only at h
      split at h
      · cases h
      obtain ⟨reading, hread, hsome⟩ := map_eq_ok_iff.1 h
      obtain rfl := Option.some.inj hsome
      obtain ⟨t, hparse, hrepair⟩ := readType_eq_read_iff.1 hread
      obtain ⟨hshape, hnames⟩ := CppType.repair_eq_ok_iff.1 hrepair
      rw [typeText_of_isUnreferenced (hplain type htype)] at hparse
      exact ⟨type, htype, t, hparse, hshape, hnames.imp fun _ _ hbecomes => hbecomes.eq_of_mem⟩

/-! ## Callables -/

/-- A callable of a member: its result and its parameters have the types of the member, in which the names in
`params` and the member's own template parameters are as they are written. -/
structure ReadFrom (params : List String) (member : Xml.Element) (f : Callable) : Prop where
  result : ∀ ty ∈ f.result, HasType (params ++ templateParams member) member ty
  params : List.Forall₂ (HasType (params ++ templateParams member)) (member.children "param")
    (f.params.map Parameter.ty)

/-- New names do not change types. -/
theorem map_ty_renameParameters (params : List Parameter) (renamings : List (String × String)) :
    (renameParameters params renamings).map Parameter.ty = params.map Parameter.ty := by
  have hone : ∀ (old new : String) (params : List Parameter),
      (renameParameter old new params).map Parameter.ty = params.map Parameter.ty := by
    intro old new params
    induction params with
    | nil => rfl
    | cons p rest ih =>
        unfold renameParameter
        split
        · rfl
        · rw [List.map_cons, ih, List.map_cons]
  unfold renameParameters
  induction renamings generalizing params with
  | nil => rfl
  | cons first rest ih => rw [List.foldl_cons, ih, hone]

theorem readFrom_of_callableSlot {flags : Flags} {f : Callable}
    (hplain : ∀ e ∈ member :: member.children "param", ∀ type ∈ e.child? "type", IsUnreferenced type)
    (h : callableSlot s place member flags = .ok (.concrete f)) :
    ReadFrom place.templateParams member f := by
  obtain ⟨-, -, result, parameters, location, hresult, hparameters, rfl⟩ := read_of_callableSlot h
  obtain ⟨htype, -⟩ := readResult_eq_read_iff.1 hresult
  constructor
  · intro ty hty
    obtain rfl : result = some ty := hty
    exact hasType_of_memberType (hplain member List.mem_cons_self) htype
  · -- Parameters are read one by one, each with its number, and renamed afterwards.
    show List.Forall₂ _ _ ((renameParameters parameters flags.renameParameters).map Parameter.ty)
    have hread := readParameters_eq_read_iff.1 hparameters
    have hmember : ∀ entry ∈ (member.children "param").zipIdx, entry.1 ∈ member.children "param" :=
      fun entry hentry => List.zipIdx_map_fst 0 (member.children "param") ▸ List.mem_map_of_mem hentry
    rw [map_ty_renameParameters, List.forall₂_map_right_iff]
    conv => arg 2; rw [← List.zipIdx_map_fst 0 (member.children "param")]
    rw [List.forall₂_map_left_iff]
    refine ((List.forall₂_and_left _ _).2 ⟨hmember, hread⟩).imp fun entry p hp => ?_
    exact hasType_of_memberType (hplain entry.1 (List.mem_cons_of_mem _ hp.1)) (type_of_readParameter hp.2)

/-- The names of parameters and results have nothing to do with casts. -/
theorem ReadFrom.of_uncast {params : List String} {f g : Callable} (heq : f.uncast = g.uncast)
    (h : ReadFrom params member f) : ReadFrom params member g := by
  have hresult : f.result = g.result :=
    (congrArg Callable.result heq : f.uncast.result = g.uncast.result)
  have hparams : f.params = g.params :=
    (congrArg Callable.params heq : f.uncast.params = g.uncast.params)
  exact ⟨hresult ▸ h.result, hparams ▸ h.params⟩

/-- What is true of all callables that are declared is true of all callables of the class. -/
theorem Shelves.forall_has {c : Class} {short : String} {ds : List Declared} {P : Callable → Prop}
    (h : Shelves c short ds) (hP : ∀ f g : Callable, f.uncast = g.uncast → P f → P g)
    (hds : ∀ d ∈ ds, P d.callable) (f : Callable) (hf : c.Has f) : P f := by
  have hshelved : ∀ shelf, ∀ f ∈ shelved short shelf ds, P f :=
    fun shelf => forall_mem_shelved.2 fun d hd _ => hds d hd
  rcases hf with hf | hf | hf | hf
  · exact hshelved .constructors f (h.constructors ▸ hf)
  · exact hshelved .destructor f (List.mem_of_getLast? (h.destructor ▸ hf))
  · exact (forall_holds_iff hP h.methods).2 (hshelved .methods) f hf
  · exact (forall_holds_iff hP h.hidden).2 (hshelved .hidden) f hf

/-! ## Entities of other kinds -/

variable {found : List ClassMember}

/-- The type of a data member, or of another name for a type. -/
def ClassMember.ty? : ClassMember → Option CppType
  | .attribute a => some a.ty
  | .typedef t => some t.ty
  | _ => none

/-- A callable brings no entities of other kinds. -/
theorem ty?_of_mem_placeCallable {short : String} {visibility : Visibility} {slot : Slot} {m : ClassMember}
    (hm : m ∈ placeCallable short visibility slot) : m.ty? = none := by
  rcases placeCallable_inv hm with ⟨p, rfl⟩ | ⟨f, rfl⟩ | ⟨f, rfl⟩ | rfl | rfl <;> rfl

/-- The types of data members and of other names for types are those of the members that they are read from. -/
theorem memberType_of_mem_found {members : List Xml.Element} {m : ClassMember}
    (h : readClassMembers s place fqn ctx members = .ok (found, ctx')) (hm : m ∈ found)
    (hty : m.ty? = some ty) :
    ∃ member ∈ members, memberType s place member = .ok (some (.read ty)) := by
  obtain ⟨member, hmember, _, here, _, hread, hm⟩ := exists_of_mem_readClassMembers h hm
  refine ⟨member, hmember, ?_⟩
  rcases readClassMember_inv hread with ⟨-, _, -, rfl⟩ | ⟨-, rfl | ⟨a, rfl, htype⟩ | ⟨e, rfl, -⟩ | ⟨t, rfl, -, htype⟩⟩
  · rw [ty?_of_mem_placeCallable hm] at hty
    cases hty
  · cases hm
  · cases List.mem_singleton.1 hm
    cases hty
    exact htype
  · cases List.mem_singleton.1 hm
    cases hty
  · cases List.mem_singleton.1 hm
    cases hty
    exact htype

theorem get?_attributes_foldl {c : Class} {name : String} {a : Attribute}
    (h : (found.foldl addToClass c).attributes.get? name = some a) :
    c.attributes.get? name = some a ∨ .attribute a ∈ found := by
  refine mem_of_foldl (f := fun c : Class => c.attributes.get? name) (fun c m a ha => ?_) h
  cases m with
  | «attribute» b =>
      rw [addToClass, Dict.get?_insert] at ha
      split at ha
      · rw [Option.some.inj ha]
        exact Or.inr rfl
      · exact Or.inl ha
  | _ => exact Or.inl ha

theorem get?_typedefs_foldl {db : Database} {name : String} {t : Typedef}
    (h : (found.foldl (addBesideClass fqn) db).typedefs.get? name = some t) :
    db.typedefs.get? name = some t ∨ .typedef t ∈ found := by
  refine mem_of_foldl (f := fun db : Database => db.typedefs.get? name) (fun db m t ht => ?_) h
  cases m with
  | typedef u =>
      rw [addBesideClass, Dict.get?_insert] at ht
      split at ht
      · rw [Option.some.inj ht]
        exact Or.inr rfl
      · exact Or.inl ht
  | _ => exact Or.inl ht

/-! ## Bases -/

/-- A base as it is read in a scope: the text if it is no type, and otherwise the type with its names repaired.
The names in `params` are as they are written exactly if they would be so without being parameters. -/
def IsBase (index : SymbolIndex) (scope : String) (params : List String) (e : Xml.Element) (base : String) :
    Prop :=
  (∃ cause, CppType.parse (Text.trimmed e.text) = .error cause ∧ base = Text.trimmed e.text) ∨
    ∃ t ty, CppType.parse (Text.trimmed e.text) = .ok t ∧ base = ty.text ∧ ty.nameless = t.nameless ∧
      List.Forall₂ (Becomes index scope []) t.names ty.names ∧
      (KeepsNames params (Text.trimmed e.text) ty ↔ ∀ n ∈ t.names, n ∈ params → Becomes index scope [] n n)

theorem forall₂_keeps_iff {index : SymbolIndex} {scope : String} {params : List String}
    {names names' : List String} (h : List.Forall₂ (Becomes index scope []) names names') :
    List.Forall₂ (fun n m => n ∈ params → m = n) names names' ↔
      ∀ n ∈ names, n ∈ params → Becomes index scope [] n n := by
  induction h with
  | nil => simp
  | @cons n m names names' hfirst hrest ih =>
      rw [List.forall₂_cons, List.forall_mem_cons, ih]
      refine and_congr_left fun _ => imp_congr_right fun _ => ?_
      exact ⟨fun heq => heq ▸ hfirst, fun hsame => hfirst.unique hsame⟩

theorem isBase_of_readBase {scope base : String} {e : Xml.Element} (hplain : e.attr? "refid" = none)
    (h : readBase s scope e = .ok base) (params : List String) : IsBase s.index scope params e base := by
  simp only [readBase, hplain, Option.bind_none] at h
  obtain ⟨⟨ty⟩ | ⟨reason⟩, hread, h⟩ := bind_eq_ok_iff.1 h
  · -- The place of a base has no template parameters, so nothing is kept for being one.
    obtain rfl := pure_eq_ok_iff.1 h
    obtain ⟨t, hparse, hrepair⟩ := readType_eq_read_iff.1 hread
    rw [context_namespace] at hrepair
    obtain ⟨hshape, hnames⟩ := CppType.repair_eq_ok_iff.1 hrepair
    refine Or.inr ⟨t, ty, hparse, rfl, hshape, hnames, ?_⟩
    rw [← forall₂_keeps_iff hnames]
    constructor
    · rintro ⟨t', hparse', -, hkept⟩
      obtain rfl := Except.ok.inj (hparse.symm.trans hparse')
      exact hkept
    · exact fun hkept => ⟨t, hparse, hshape, hkept⟩
  · obtain rfl := pure_eq_ok_iff.1 h
    obtain ⟨cause, hparse⟩ := readType_eq_unreadable hread
    exact Or.inl ⟨cause, hparse, rfl⟩

/-- A base with a name that is ambiguous where the base stands. -/
def HasAmbiguous (index : SymbolIndex) (scope n : String) (e : Xml.Element) : Prop :=
  ∃ t, CppType.parse (Text.trimmed e.text) = .ok t ∧ n ∈ t.names ∧ Ambiguous index scope [] n

theorem hasAmbiguous_of_readBase {scope n context : String} {candidates : List String} {e : Xml.Element}
    (hplain : e.attr? "refid" = none)
    (h : readBase s scope e = .error (.ambiguousName n context candidates)) :
    HasAmbiguous s.index scope n e := by
  simp only [readBase, hplain, Option.bind_none] at h
  rcases bind_eq_error_iff.1 h with hread | ⟨⟨ty⟩ | ⟨reason⟩, -, h⟩
  · obtain ⟨t, m, _, hparse, hm, hambiguous, hfault⟩ := readType_eq_error hread
    cases hfault
    rw [context_namespace] at hambiguous
    exact ⟨t, hparse, hm, hambiguous⟩
  · cases h
  · cases h

/-! ## Faults -/

/-- A fault that is an ambiguous name among some names. -/
def IsAmbiguousAmong (names : List String) (fault : Fault) : Prop :=
  ∃ n ∈ names, ∃ context candidates, fault = .ambiguousName n context candidates

/-- Where template parameters are in scope, none of them is ambiguous. -/
theorem harmless_isAmbiguousAmong (s : Setting) (params : List String) :
    Harmless s (IsAmbiguousAmong params) fun place => ∀ n ∈ params, n ∈ place.templateParams where
  readType place hknown text := by
    rintro _ ⟨n, hn, context, candidates, rfl⟩ h
    obtain ⟨t, m, _, -, -, hambiguous, hfault⟩ := readType_eq_error h
    cases hfault
    exact hambiguous.not_mem (hknown n hn)
  missing _ _ := by
    rintro ⟨n, -, context, candidates, h⟩
    cases h
  within _ _ hknown n hn := List.mem_append_left _ (hknown n hn)

/-- Where a base is to blame for a fault, it is the base of a header. -/
theorem exists_base_of_readClassHeader {compound : Xml.Element} {flags : Flags} {n context : String}
    {candidates : List String} (hplain : Unreferenced compound)
    (h : readClassHeader s fqn flags compound = .error (.ambiguousName n context candidates)) :
    ∃ e ∈ compound.children "basecompoundref", HasAmbiguous s.index (Name.parentScope fqn) n e := by
  rcases bind_eq_error_iff.1 h with hlocation | ⟨location, -, h⟩
  · unfold Location.ofElement at hlocation
    split at hlocation <;> cases hlocation
  rcases bind_eq_error_iff.1 h with hbases | ⟨bases, -, h⟩
  · obtain ⟨before, e, after, hsplit, -, hbase⟩ := mapM_eq_error_iff.1 hbases
    have he : e ∈ compound.children "basecompoundref" := by simp [hsplit]
    exact ⟨e, he, hasAmbiguous_of_readBase (hplain.bases e he) hbase⟩
  · cases h

/-- A template parameter is ambiguous, if at all, in a base. -/
theorem exists_base_of_readClass {db : Database} {compound : Xml.Element} {n context : String}
    {candidates : List String} (hplain : Unreferenced compound) (hn : n ∈ templateParams compound)
    (h : readClass s db ctx compound = .error (.ambiguousName n context candidates)) :
    ∃ e ∈ compound.children "basecompoundref",
      HasAmbiguous s.index (Name.parentScope (compound.childText "compoundname")) n e := by
  rcases bind_eq_error_iff.1 h with hheader | ⟨header, hheader, h⟩
  · exact exists_base_of_readClassHeader hplain hheader
  -- The members have the parameters in scope.
  rcases bind_eq_error_iff.1 h with hmembers | ⟨found, -, h⟩
  · obtain ⟨-, -, hplace⟩ := header_of_readClassHeader hheader
    have hknown : ∀ m ∈ templateParams compound, m ∈ (memberPlace header).templateParams :=
      fun m hm => hplace ▸ hm
    rw [readClassMembers_eq] at hmembers
    have hall := avoids_draftAll ((harmless_isAmbiguousAmong s _).draftClassMember hknown
      (compound.childText "compoundname")) (members compound)
    exact absurd hmembers (hall.map _ _ ⟨n, hn, context, candidates, rfl⟩)
  · cases h

/-! ## Documents of classes -/

/-- The types that are read for the members of a class template, in which its parameters are as they are
written. -/
structure KeepsParameters (compound : Xml.Element) (before after : Database) (c : Class) : Prop where
  callables : ∀ f, c.Has f → ∃ member ∈ members compound, ReadFrom (templateParams compound) member f
  attributes : ∀ name a, c.attributes.get? name = some a →
    ∃ member ∈ members compound, HasType (templateParams compound) member a.ty
  typedefs : ∀ name t, after.typedefs.get? name = some t → before.typedefs.get? name = some t ∨
    ∃ member ∈ members compound, HasType (templateParams compound) member t.ty

theorem bases_foldl (c : Class) (found : List ClassMember) : (found.foldl addToClass c).bases = c.bases :=
  foldl_unchanged (fun _ m => by cases m <;> rfl) c found

theorem keepsParameters_of_found {compound : Xml.Element} {header : Class} {db db' : Database}
    (hplain : Unreferenced compound) (hheader : Memberless header)
    (hfound : readClassMembers s (classPlace fqn (templateParams compound)) fqn ctx (members compound) =
      .ok (found, ctx'))
    (hdb : db'.typedefs = (found.foldl (addBesideClass fqn) db).typedefs) :
    KeepsParameters compound db db' (assembleClass header found) := by
  -- Attributes and typedefs have one type each, and it is read with the parameters of the class.
  have htype : ∀ (m : ClassMember) (ty : CppType), m ∈ found → m.ty? = some ty →
      ∃ member ∈ members compound, HasType (templateParams compound) member ty := by
    intro m ty hm hty
    obtain ⟨member, hmember, hread⟩ := memberType_of_mem_found hfound hm hty
    exact ⟨member, hmember, hasType_of_memberType (hplain.types member hmember member List.mem_cons_self) hread⟩
  refine ⟨fun f hf => ?_, fun name a ha => ?_, fun name t ht => ?_⟩
  · refine ((bring_readClassMembers hfound).shelves hheader).forall_has
      (P := fun f => ∃ member ∈ members compound, ReadFrom (templateParams compound) member f)
      (fun _ _ heq ⟨member, hmember, hf⟩ => ⟨member, hmember, hf.of_uncast heq⟩) (fun d hd => ?_) f hf
    obtain ⟨member, hmember, ctx, hdeclared⟩ := exists_of_mem_declaredIn hd
    obtain ⟨-, -, hslot, -⟩ := declared?_inv hdeclared
    exact ⟨member, hmember, readFrom_of_callableSlot (hplain.types member hmember) hslot⟩
  · rcases get?_attributes_foldl ha with hold | hnew
    · rw [hheader.attributes] at hold
      cases hold
    · exact htype _ _ hnew rfl
  · rw [hdb] at ht
    exact (get?_typedefs_foldl ht).imp_right fun hnew => htype _ _ hnew rfl

/-- The template parameters of a class are as they are written in the types of all members.  In a base, a
parameter is as it is written if and only if its name is settled or known to nobody where the base stands; and
reading stops at a parameter as an ambiguous name only where it is one in a base. -/
theorem templateParams_kept_of_addRoot {x : Extraction} {root compound : Xml.Element}
    (hcompound : documentedClass? root = some compound)
    (hskipped : isSkippedClass x.db compound = false) (hplain : Unreferenced compound) :
    (∀ y, x.addRoot s root = .ok y → ∃ c, y.db.classes.get? (compound.childText "compoundname") = some c ∧
      KeepsParameters compound x.db y.db c ∧
      List.Forall₂ (IsBase s.index (Name.parentScope (compound.childText "compoundname"))
        (templateParams compound)) (compound.children "basecompoundref") c.bases) ∧
    ∀ n ∈ templateParams compound, ∀ context candidates,
      x.addRoot s root = .error (.ambiguousName n context candidates) →
        ∃ e ∈ compound.children "basecompoundref",
          HasAmbiguous s.index (Name.parentScope (compound.childText "compoundname")) n e := by
  constructor
  · intro y h
    obtain ⟨header, found, hheader, hmemberless, hfound, hdb⟩ :=
      readClass_inv (readClass_of_addRoot hcompound hskipped h)
    refine ⟨assembleClass header found, ?_, ?_, ?_⟩
    · rw [hdb, Dict.get?_insert, if_pos rfl]
    · exact keepsParameters_of_found hplain hmemberless hfound (by rw [hdb])
    · simp only [readClassHeader, bind_eq_ok_iff, pure_eq_ok_iff] at hheader
      obtain ⟨location, -, bases, hbases, rfl⟩ := hheader
      show List.Forall₂ _ _ (found.foldl addToClass _).bases
      rw [bases_foldl]
      refine ((List.forall₂_and_left _ _).2 ⟨hplain.bases, mapM_eq_ok_iff.1 hbases⟩).imp fun e base h => ?_
      exact isBase_of_readBase h.1 h.2 _
  · intro n hn context candidates h
    rw [addRoot_eq_readClass hcompound hskipped] at h
    exact exists_base_of_readClass hplain hn (map_eq_error_iff.1 h)

/-! ## A class template with a base -/

/-- A class template with the parameter `T`, a base and a method. -/
def boxClass (base : String) : Xml.Element :=
  ⟨"compounddef", [("id", "classBox"), ("kind", "class"), ("prot", "public")], [
    .element ⟨"compoundname", [], [.text "ns::Box"]⟩,
    .element ⟨"basecompoundref", [], [.text base]⟩,
    .element ⟨"templateparamlist", [], [
      .element ⟨"param", [], [.element ⟨"type", [], [.text "typename T"]⟩]⟩]⟩,
    .element ⟨"sectiondef", [], [.element (functionElement "public" "b1" "const T &" "get")]⟩,
    .element ⟨"location", [("file", "box.h"), ("line", "1")], []⟩]⟩

/-- The document of the class template. -/
def boxDocument (base : String) : Xml.Element :=
  ⟨"doxygen", [], [.element (boxClass base)]⟩

/-- Classes of the name `T` in some scopes are known. -/
def settingOf (scopes : List String) : Setting :=
  ⟨.ofSymbols (scopes.map fun scope => ⟨.cls, "class" ++ scope, scope ++ "::T", "T"⟩), "/project"⟩

/-- The method keeps its type, although two other classes have the name of the parameter. -/
theorem templateParams_kept_of_addRoot_box : ∃ y c,
    (Extraction.start .empty).addRoot (settingOf ["other", "more"]) (boxDocument "Holder< int >") = .ok y ∧
      y.db.classes.get? "ns::Box" = some c ∧ KeepsParameters (boxClass "Holder< int >") {} y.db c := by
  obtain ⟨y, hread⟩ := exists_of_isOk (x := (Extraction.start .empty).addRoot
    (settingOf ["other", "more"]) (boxDocument "Holder< int >")) (by decide +kernel)
  obtain ⟨c, hc, hkept, -⟩ := (templateParams_kept_of_addRoot rfl (by decide +kernel)
    (by decide +kernel)).1 y hread
  exact ⟨y, c, hread, hc, hkept⟩

/-- A type that is nothing but a parameter is read as the parameter. -/
theorem eq_named_of_keepsNames {ty : CppType} (h : KeepsNames ["T"] "T" ty) : ty = .named "T" := by
  obtain ⟨t, hparse, hshape, hnames⟩ := h
  have ht : (CppType.parse "T").toOption = some (.named "T") := by decide +kernel
  rw [hparse] at ht
  obtain rfl : t = .named "T" := Option.some.inj ht
  refine CppType.eq_of_nameless hshape ?_
  obtain ⟨m, rest, hm, hrest, hnames⟩ := List.forall₂_cons_left_iff.1 hnames
  rw [hnames, hm List.mem_cons_self, List.forall₂_nil_left_iff.1 hrest]
  rfl

/-- A base that is the parameter becomes the class of its name. -/
theorem not_templateParams_kept_in_bases : ¬ ∀ (s : Setting) (x y : Extraction)
    (root compound : Xml.Element) (c : Class), documentedClass? root = some compound →
      isSkippedClass x.db compound = false → Unreferenced compound → x.addRoot s root = .ok y →
      y.db.classes.get? (compound.childText "compoundname") = some c →
      List.Forall₂ (fun e base => ∀ t, CppType.parse (Text.trimmed e.text) = .ok t → ∃ ty : CppType,
          base = ty.text ∧ KeepsNames (templateParams compound) (Text.trimmed e.text) ty)
        (compound.children "basecompoundref") c.bases := by
  intro hall
  obtain ⟨y, hread, hbases⟩ := exists_of_any_toOption
    (x := (Extraction.start .empty).addRoot (settingOf ["other"]) (boxDocument "T"))
    (p := fun y => (y.db.classes.get? "ns::Box").any fun c => c.bases = ["other::T"])
    (by decide +kernel)
  obtain ⟨c, hc, hbase⟩ := (Option.any_eq_true _ _).1 hbases
  have hkept := hall _ _ y (boxDocument "T") (boxClass "T") c rfl (by decide +kernel)
    (by decide +kernel) hread hc
  have hparams : templateParams (boxClass "T") = ["T"] := by decide +kernel
  have htexts : ∀ e ∈ (boxClass "T").children "basecompoundref", Text.trimmed e.text = "T" := by
    decide +kernel
  rw [of_decide_eq_true hbase, hparams] at hkept
  obtain ⟨e, _, hfirst, -, hchildren⟩ := List.forall₂_cons_right_iff.1 hkept
  rw [htexts e (hchildren ▸ List.mem_cons_self)] at hfirst
  obtain ⟨t, ht⟩ := exists_of_isOk (x := CppType.parse "T") (by decide +kernel)
  obtain ⟨ty, htext, hkeeps⟩ := hfirst t ht
  rw [eq_named_of_keepsNames hkeeps] at htext
  exact absurd htext (by decide +kernel)

end Compound

end ScriptBindings
