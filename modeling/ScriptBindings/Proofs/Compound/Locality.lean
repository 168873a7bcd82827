import Mathlib
import ScriptBindings.Proofs.Compound.Alike
import ScriptBindings.Proofs.Compound.DocumentOrder
import ScriptBindings.Proofs.Compound.Faults
import ScriptBindings.Proofs.Compound.Removal
import ScriptBindings.Proofs.Compound.Unreadable

/-!
# What a member that cannot be read affects

A member with a type that cannot be read is still given its flags, and takes its place among the others.  Yet
it affects nothing but itself: the document without the member is read too, and what comes of it is the same
but for the shadow of the placeholder that stands for the member.
-/

namespace ScriptBindings.Compound

open FlagContext (AgreeExcept)

/-! ## One draft among others -/

section Drafts

variable {α : Type} {key : String} {ctx ctx' : FlagContext}

/-- Other symbols are given the same flags in contexts that agree. -/
theorem completeAll_of_agreeExcept (endow : Flags → α → α) (h : AgreeExcept key ctx ctx')
    {ds : List (Draft α)} (hds : ∀ d ∈ ds, d.key ≠ key) :
    (Draft.completeAll endow ctx' ds).1 = (Draft.completeAll endow ctx ds).1 ∧
      AgreeExcept key (Draft.completeAll endow ctx ds).2 (Draft.completeAll endow ctx' ds).2 := by
  induction ds generalizing ctx ctx' with
  | nil => exact ⟨rfl, h⟩
  | cons d ds ih =>
      obtain ⟨hflags, hctx⟩ := h.flagsOf (hds d List.mem_cons_self)
      obtain ⟨hrest, hctx⟩ := ih hctx fun e he => hds e (List.mem_cons_of_mem _ he)
      refine ⟨?_, hctx⟩
      rw [Draft.completeAll_cons, Draft.completeAll_cons]
      exact congrArg₂ List.cons (congrArg (endow · d.content) hflags) hrest

/-- A symbol without directives does not matter to the flags of the symbols after it. -/
theorem exists_completeAll (endow : Flags → α → α) (ctx : FlagContext) (front back : List (Draft α))
    {here : Option (Draft α)} (hkey : key ≠ "")
    (hhere : ∀ d ∈ here, d.element.attr "id" = key ∧ Directive.ofElement d.element = [])
    (hback : ∀ d ∈ back, d.key ≠ key) :
    ∃ (first later : List α) (given : Flags),
      (Draft.completeAll endow ctx (front ++ (here.toList ++ back))).1 =
          first ++ (here.toList.map (fun d => endow given d.content) ++ later) ∧
        (Draft.completeAll endow ctx (front ++ back)).1 = first ++ later ∧
        AgreeExcept key (Draft.completeAll endow ctx (front ++ (here.toList ++ back))).2
          (Draft.completeAll endow ctx (front ++ back)).2 := by
  rw [Draft.completeAll_append endow ctx front (here.toList ++ back),
    Draft.completeAll_append endow ctx front back]
  generalize (Draft.completeAll endow ctx front).1 = first
  generalize (Draft.completeAll endow ctx front).2 = ctx
  cases here with
  | none => exact ⟨first, _, {}, rfl, rfl, .refl key _⟩
  | some d =>
      -- The symbol changes its own counter alone, and those behind it are counted under other keys.
      obtain ⟨hid, hsilent⟩ := hhere d rfl
      have hctx := FlagContext.agreeExcept_flagsOf ctx (hid ▸ hkey) hsilent d.fqn
      rw [hid] at hctx
      obtain ⟨hrest, hctx⟩ := completeAll_of_agreeExcept endow hctx.symm hback
      refine ⟨first, (Draft.completeAll endow ctx back).1, (ctx.flagsOf d.element d.fqn).1, ?_, rfl,
        hctx⟩
      rw [hrest]
      rfl

end Drafts

/-! ## Members that affect nothing but themselves -/

/-- All symbols of a document, in the order in which they are read. -/
def symbolsOf (s : Setting) (compound : Xml.Element) : List Documented :=
  if compound.attr? "kind" = some "namespace" then namespaceSymbols s compound
  else classSymbols s compound

/-- A member that cannot be read: it has a kind that has a type, no directives, and an identifier that is not
that of a symbol in the rest of its document, nor its name if it has no identifier. -/
structure Spoiled (s : Setting) (rest m : Xml.Element) : Prop where
  kind : ∃ kind ∈ typedKinds, m.attr? "kind" = some kind
  silent : Directive.ofElement m = []
  identified : m.attr "id" ≠ ""
  unshared : ∀ d ∈ symbolsOf s rest, d.key ≠ m.attr "id"
  unreadable : Unreadable s (placeOf rest) m

/-- What is drafted for such a member has its identifier and no directives. -/
theorem Spoiled.of_mem_draft {α ρ : Type} {s : Setting} {rest m : Xml.Element} (hm : Spoiled s rest m)
    {fqn : String} {content : ρ → α} {here : Option (Draft α)}
    (h : here = none ∨ m.attr? "kind" = some "function" ∧
      ∃ reason, here = some ⟨⟨fqn, m⟩, content reason⟩) :
    ∀ d ∈ here, d.element.attr "id" = m.attr "id" ∧ Directive.ofElement d.element = [] := by
  intro d hd
  rcases h with rfl | ⟨-, reason, rfl⟩
  · cases hd
  · obtain rfl := Option.some.inj hd
    exact ⟨rfl, hm.silent⟩

/-- Databases that are the same, unless a member is a callable; then the second one may be in the shadow of a
placeholder for it. -/
def OffBy (m : Xml.Element) (compound : String) (db' db : Database) : Prop :=
  db' = db ∨ m.attr? "kind" = some "function" ∧ ∃ p : Placeholder,
    p.id = m.attr "id" ∧ p.name = m.childText "name" ∧ db'.Shadowed p compound db

section Reading

variable {s : Setting} {m c' c : Xml.Element} {before after : List Xml.Element} {db db₁ : Database}
  {ctx ctx₁ : FlagContext}

/-- The draft of a class without one of its members has the drafts of the others. -/
theorem draftClass_of_misses (h : Misses m before after c' c) {d : ClassDraft}
    (hdraft : draftClass s c = .ok d) :
    ∃ front here back, d.members = front ++ (here.toList ++ back) ∧
      draftClass s c' = .ok ⟨⟨⟨d.header.fqn, c'⟩, d.header.content⟩, front ++ back⟩ ∧
      d.header.toDocumented = ⟨c'.childText "compoundname", c⟩ ∧
      memberPlace d.header.content = classPlace d.header.fqn (templateParams c') ∧
      draftClassMember s (memberPlace d.header.content) d.header.fqn m = .ok here := by
  have hname : c'.childText "compoundname" = c.childText "compoundname" := h.childText _ (by decide)
  simp only [draftClass, bind_eq_ok_iff, pure_eq_ok_iff, h.membersWith, draftAll_append_eq_ok_iff,
    draftAll] at hdraft
  obtain ⟨header, hheader, _, ⟨front, _, hfront, ⟨here, hhere, back, hback, rfl⟩, rfl⟩, rfl⟩ := hdraft
  rw [← h.readClassHeader s _ {}, ← hname] at hheader
  rw [← hname] at hfront hhere hback ⊢
  refine ⟨front, here, back, rfl, ?_, rfl, (header_of_readClassHeader hheader).2.2, hhere⟩
  simp only [draftClass, bind_eq_ok_iff, pure_eq_ok_iff, h.membersWithout, draftAll_append_eq_ok_iff]
  exact ⟨header, hheader, front ++ back, ⟨front, back, hfront, hback, rfl⟩, rfl⟩

/-- A class is added with a member that cannot be read, or without. -/
theorem offBy_addFound {place : Place} {fqn : String} {here : Option (Draft (List ClassMember))}
    (hkind : ∃ kind ∈ typedKinds, m.attr? "kind" = some kind) (hm : Unreadable s place m)
    (hhere : draftClassMember s place fqn m = .ok here) (header : Class)
    (first later : List (List ClassMember)) (given : Flags) (db : Database) :
    OffBy m fqn (addFound fqn header (first ++ later).flatten db)
      (addFound fqn header
        (first ++ (here.toList.map (fun d => endowMembers given d.content) ++ later)).flatten db) := by
  rcases draftClassMember_of_unreadable hkind hm hhere with rfl | ⟨hfunction, reason, rfl⟩
  · exact Or.inl rfl
  · simp only [Option.toList_some, List.map_cons, List.map_nil, List.flatten_append, List.flatten_cons,
      List.flatten_nil, List.append_nil, ← placeCallable_endow]
    rcases shadowed_addFound fqn header first.flatten later.flatten
      ((placeholderFor place m {} reason).endow given)
      (Name.withoutTemplateArgs (place.owner.getD "")) (visibilityOf (m.attr? "prot")) db with
      hsame | hshadow
    · exact Or.inl hsame
    · exact Or.inr ⟨hfunction, _, rfl, rfl, hshadow⟩

theorem readClass_of_misses (h : Misses m before after c' c) (hm : Spoiled s c' m)
    (hkind : c'.attr? "kind" ≠ some "namespace") (hread : readClass s db ctx c = .ok (db₁, ctx₁)) :
    ∃ db₂ ctx₂, readClass s db ctx c' = .ok (db₂, ctx₂) ∧
      OffBy m (c'.childText "compoundname") db₂ db₁ ∧ AgreeExcept (m.attr "id") ctx₁ ctx₂ := by
  rw [readClass_eq, map_eq_ok_iff] at hread
  obtain ⟨⟨⟨symbol, header⟩, found⟩, hdraft, hadded⟩ := hread
  obtain ⟨front, here, back, rfl, hdraft', rfl, hplace, hhere⟩ := draftClass_of_misses h hdraft
  have hunreadable : Unreadable s (memberPlace header) m := by
    rw [hplace]
    simpa only [placeOf, if_neg hkind] using hm.unreadable
  have hself := hm.of_mem_draft (draftClassMember_of_unreadable hm.kind hunreadable hhere)
  have hothers : ∀ d ∈ back, d.key ≠ m.attr "id" := by
    intro d hd
    refine hm.unshared d.toDocumented ?_
    rw [symbolsOf, if_neg hkind, classSymbols_eq hdraft']
    exact List.mem_cons_of_mem _ (List.mem_map_of_mem (List.mem_append_right _ hd))
  -- The class itself is given the same flags, and so are the members in front of the gap and behind it.
  simp only [Draft.complete, ← h.flagsOf] at hadded
  obtain ⟨first, later, given, hwith, hwithout, hctx⟩ := exists_completeAll endowMembers
    (ctx.flagsOf c' (c'.childText "compoundname")).2 front back hm.identified hself hothers
  rw [hwith] at hadded
  cases hadded
  refine ⟨_, _, ?_, offBy_addFound hm.kind hunreadable hhere _ first later given db, hctx⟩
  rw [readClass_eq, hdraft']
  simp only [Except.map, Draft.complete, hwithout]

/-- A class that is skipped is skipped without its member too. -/
theorem addClass_of_misses (h : Misses m before after c' c) (hm : Spoiled s c' m)
    (hkind : c'.attr? "kind" ≠ some "namespace") (hread : addClass s db ctx c = .ok (db₁, ctx₁)) :
    ∃ db₂ ctx₂, addClass s db ctx c' = .ok (db₂, ctx₂) ∧
      OffBy m (c'.childText "compoundname") db₂ db₁ ∧ AgreeExcept (m.attr "id") ctx₁ ctx₂ := by
  have hskipped : isSkippedClass db c' = isSkippedClass db c := by
    rw [isSkippedClass, isSkippedClass, h.attr?, h.childText _ (by decide)]
  simp only [addClass, hskipped] at hread ⊢
  by_cases hskip : isSkippedClass db c = true
  · simp only [if_pos hskip] at hread ⊢
    cases hread
    exact ⟨db, ctx, rfl, Or.inl rfl, .refl _ ctx⟩
  · simp only [if_neg hskip] at hread ⊢
    exact readClass_of_misses h hm hkind hread

/-- The draft of a namespace without one of its members has the drafts of the others. -/
theorem draftNamespace_of_misses (h : Misses m before after c' c) {d : NamespaceDraft}
    (hdraft : draftNamespace s c = .ok d) :
    ∃ front here back, d.members = front ++ (here.toList ++ back) ∧
      draftNamespace s c' = .ok ⟨⟨⟨d.info.fqn, c'⟩, d.info.content⟩, front ++ back⟩ ∧
      d.info.toDocumented = ⟨c'.childText "compoundname", c⟩ ∧
      draftNamespaceMember s d.info.fqn m = .ok here := by
  have hname : c'.childText "compoundname" = c.childText "compoundname" := h.childText _ (by decide)
  simp only [draftNamespace, bind_eq_ok_iff, pure_eq_ok_iff, h.membersWith, draftAll_append_eq_ok_iff,
    draftAll] at hdraft
  obtain ⟨_, ⟨front, _, hfront, ⟨here, hhere, back, hback, rfl⟩, rfl⟩, rfl⟩ := hdraft
  rw [← hname] at hfront hhere hback ⊢
  refine ⟨front, here, back, rfl, ?_, rfl, hhere⟩
  simp only [draftNamespace, bind_eq_ok_iff, pure_eq_ok_iff, h.membersWithout,
    draftAll_append_eq_ok_iff, h.attr, h.childText "briefdescription" (by decide)]
  exact ⟨front ++ back, ⟨front, back, hfront, hback, rfl⟩, rfl⟩

/-- A namespace is added with a member that cannot be read, or without. -/
theorem offBy_foldl_addNamespaceMember {name : String} {here : Option (Draft NamespaceMember)}
    (hkind : ∃ kind ∈ typedKinds, m.attr? "kind" = some kind) (hm : Unreadable s { scope := name } m)
    (hhere : draftNamespaceMember s name m = .ok here) (first later : List NamespaceMember)
    (given : Flags) (db : Database) :
    OffBy m name ((first ++ later).foldl (addNamespaceMember name) db)
      ((first ++ (here.toList.map (fun d => d.content.endow given) ++ later)).foldl
        (addNamespaceMember name) db) := by
  rcases draftNamespaceMember_of_unreadable hkind hm hhere with rfl | ⟨hfunction, reason, rfl⟩
  · exact Or.inl rfl
  · exact Or.inr ⟨hfunction, _, rfl, rfl, shadowed_foldl_addNamespaceMember name first later
      ((placeholderFor { scope := name } m {} reason).endow given) db⟩

/-- A namespace that is not bound is recorded, and its members are not read. -/
theorem addNamespace_of_noBind
    (h : (ctx.flagsOf c (c.childText "compoundname")).1.noBind = true) :
    addNamespace s db ctx c = .ok
      ({ db with
          namespaces := db.namespaces.insert (c.childText "compoundname")
            ⟨c.attr "id", c.childText "compoundname",
              (ctx.flagsOf c (c.childText "compoundname")).1, c.childText "briefdescription"⟩ },
        (ctx.flagsOf c (c.childText "compoundname")).2) := by
  simp only [addNamespace, if_pos h]
  rfl

theorem addNamespace_of_misses (h : Misses m before after c' c) (hm : Spoiled s c' m)
    (hkind : c'.attr? "kind" = some "namespace") (hread : addNamespace s db ctx c = .ok (db₁, ctx₁)) :
    ∃ db₂ ctx₂, addNamespace s db ctx c' = .ok (db₂, ctx₂) ∧
      OffBy m (c'.childText "compoundname") db₂ db₁ ∧ AgreeExcept (m.attr "id") ctx₁ ctx₂ := by
  have hname : c'.childText "compoundname" = c.childText "compoundname" := h.childText _ (by decide)
  cases hbound : (ctx.flagsOf c (c.childText "compoundname")).1.noBind with
  | true =>
      rw [addNamespace_of_noBind hbound] at hread
      cases hread
      refine ⟨_, _, ?_, Or.inl rfl, .refl _ _⟩
      rw [addNamespace_of_noBind (by rwa [h.flagsOf, hname]), h.flagsOf, h.attr, hname,
        h.childText "briefdescription" (by decide)]
  | false =>
      rw [addNamespace_eq hbound, map_eq_ok_iff] at hread
      obtain ⟨⟨⟨symbol, info⟩, found⟩, hdraft, hadded⟩ := hread
      obtain ⟨front, here, back, rfl, hdraft', rfl, hhere⟩ := draftNamespace_of_misses h hdraft
      have hunreadable : Unreadable s { scope := c'.childText "compoundname" } m := by
        simpa only [placeOf, if_pos hkind] using hm.unreadable
      have hself := hm.of_mem_draft (draftNamespaceMember_of_unreadable hm.kind hunreadable hhere)
      -- No member behind has the identifier of this one, so they all get the flags that they got.
      have hothers : ∀ d ∈ back, d.key ≠ m.attr "id" := by
        intro d hd
        refine hm.unshared d.toDocumented ?_
        rw [symbolsOf, if_pos hkind, namespaceSymbols_eq hdraft']
        exact List.mem_cons_of_mem _ (List.mem_map_of_mem (List.mem_append_right _ hd))
      simp only [Draft.complete, ← h.flagsOf] at hadded
      obtain ⟨first, later, given, hwith, hwithout, hctx⟩ := exists_completeAll NamespaceMember.endow
        (ctx.flagsOf c' (c'.childText "compoundname")).2 front back hm.identified hself hothers
      rw [hwith] at hadded
      cases hadded
      refine ⟨_, _, ?_,
        offBy_foldl_addNamespaceMember hm.kind hunreadable hhere first later given _, hctx⟩
      rw [addNamespace_eq (by rwa [h.flagsOf, hname]), hdraft']
      simp only [Except.map, Draft.complete, hwithout]

end Reading

/-! ## Documents -/

section Documents

variable {s : Setting} {m : Xml.Element} {x y : Extraction}

/-- A compound without a member that cannot be read is added too. -/
theorem addCompound_of_misses {c' c : Xml.Element} {before after : List Xml.Element}
    (h : Misses m before after c' c) (hm : Spoiled s c' m) (hread : x.addCompound s c = .ok y) :
    ∃ y', x.addCompound s c' = .ok y' ∧ OffBy m (c'.childText "compoundname") y'.db y.db ∧
      AgreeExcept (m.attr "id") y.ctx y'.ctx := by
  by_cases hnamespace : c'.attr? "kind" = some "namespace"
  · rw [addCompound_namespace (h.attr? _ ▸ hnamespace), map_eq_ok_iff] at hread
    obtain ⟨⟨db, ctx⟩, hread, rfl⟩ := hread
    obtain ⟨db', ctx', hread', hdb, hctx⟩ := addNamespace_of_misses h hm hnamespace hread
    exact ⟨⟨db', ctx'⟩, by rw [addCompound_namespace hnamespace, hread']; rfl, hdb, hctx⟩
  by_cases hclass : c'.attr? "kind" = some "class" ∨ c'.attr? "kind" = some "struct"
  · rw [addCompound_class (h.attr? _ ▸ hclass), map_eq_ok_iff] at hread
    obtain ⟨⟨db, ctx⟩, hread, rfl⟩ := hread
    obtain ⟨db', ctx', hread', hdb, hctx⟩ := addClass_of_misses h hm hnamespace hread
    exact ⟨⟨db', ctx'⟩, by rw [addCompound_class hclass, hread']; rfl, hdb, hctx⟩
  -- Compounds of other kinds are passed over, whatever their members are.
  · have hpassed : ∀ c : Xml.Element, c.attr? "kind" = c'.attr? "kind" → x.addCompound s c = .ok x := by
      intro c hc
      rw [not_or] at hclass
      unfold Extraction.addCompound
      rw [hc]
      split
      · rename_i heq
        exact absurd heq hnamespace
      · rename_i heq
        exact absurd heq hclass.1
      · rename_i heq
        exact absurd heq hclass.2
      · rfl
    rw [hpassed c (h.attr? "kind").symm] at hread
    cases hread
    exact ⟨x, hpassed c' rfl, Or.inl rfl, .refl _ _⟩

theorem offBy_finish {compound : String} {x' x : Extraction} (h : OffBy m compound x'.db x.db)
    (hctx : AgreeExcept (m.attr "id") x.ctx x'.ctx) (hclear : Clear (m.attr "id") x.db.symbols) :
    OffBy m compound x'.finish.db x.finish.db := by
  rcases h with hsame | ⟨hfunction, p, hid, hname, hshadow⟩
  · exact Or.inl (finish_eq_of_agreeExcept hsame hctx hclear)
  · exact Or.inr ⟨hfunction, p, hid, hname, shadowed_finish hshadow hctx hclear⟩

/-- No document is refused for the syntax of a type, and a member with such a type affects nothing but itself:
a document that is read is also read without the member.  The same comes of it, before finishing and
afterwards, but for the placeholder of a callable, the casts that it requires, or the constructor that is
rejected. -/
theorem addRoot_offBy (s : Setting) :
    (∀ (x : Extraction) (text : String) (cause : CppType.SyntaxError),
        x.addText s text ≠ .error (.typeSyntax cause)) ∧
      ∀ root compound m : Xml.Element, root.child? "compounddef" = some compound →
        m ∈ members compound →
          (∃ g : Gap, root = g.document [.element m]) ∧
            ∀ g : Gap, root = g.document [.element m] → Spoiled s (g.compoundWith []) m →
              ∀ x y : Extraction, x.addRoot s root = .ok y →
                ∃ y', x.addRoot s (g.document []) = .ok y' ∧
                  OffBy m (compound.childText "compoundname") y'.db y.db ∧
                  (Clear (m.attr "id") y.db.symbols →
                    OffBy m (compound.childText "compoundname") y'.finish.db y.finish.db) := by
  refine ⟨fun x text cause => avoids_addText s x text _ ⟨cause, rfl⟩, fun root compound m hroot hm => ?_⟩
  obtain ⟨g, hg, htag⟩ := exists_gap hroot hm
  refine ⟨⟨g, hg⟩, ?_⟩
  rintro g rfl hspoiled x y hread
  obtain rfl : g.compoundWith [.element m] = compound :=
    Option.some.inj ((g.child?_document [.element m]).symm.trans hroot)
  have hmisses := g.misses htag
  rw [Extraction.addRoot, g.child?_document] at hread
  obtain ⟨y', hread', hdb, hctx⟩ := addCompound_of_misses hmisses hspoiled hread
  rw [hmisses.childText _ (by decide)] at hdb
  refine ⟨y', ?_, hdb, offBy_finish hdb hctx⟩
  rw [Extraction.addRoot, g.child?_document]
  exact hread'

end Documents

/-! ## A class with an overload that cannot be read -/

/-- A method. -/
def methodElement (id type name : String) : Xml.Element :=
  ⟨"memberdef", [("kind", "function"), ("id", id), ("prot", "public")], [
    .element ⟨"type", [], [.text type]⟩,
    .element ⟨"name", [], [.text name]⟩,
    .element ⟨"location", [("file", "shape.h"), ("line", "3")], []⟩]⟩

/-- The document of a class, with a gap between two of its methods. -/
def shapeGap : Gap where
  root := ⟨"doxygen", [], [], []⟩
  compound := ⟨"compounddef", [("id", "classShape"), ("kind", "class"), ("prot", "public")],
    [.element ⟨"compoundname", [], [.text "ns::Shape"]⟩],
    [.element ⟨"location", [("file", "shape.h"), ("line", "1")], []⟩]⟩
  group := ⟨"sectiondef", [], [.element (methodElement "s1" "void" "scale")],
    [.element (methodElement "s3" "void" "draw")]⟩
  isCompound := rfl
  isGroup := rfl
  first := rfl

/-- An overload with a result that is no type for the reader of types. -/
def unreadableOverload : Xml.Element :=
  methodElement "s2" "std::enable_if_t< N > 0, int >" "scale"

theorem spoiled_unreadableOverload :
    Spoiled plainSetting (shapeGap.compoundWith []) unreadableOverload where
  kind := ⟨"function", by decide +kernel, by decide +kernel⟩
  silent := by decide +kernel
  identified := by decide +kernel
  unshared := by decide +kernel
  unreadable := by
    have hparse : (CppType.parse (typeText plainSetting.index
        ⟨"type", [], [.text "std::enable_if_t< N > 0, int >"]⟩)).isOk = false := by
      decide +kernel
    refine .ownType ?_ fun htypeless => absurd htypeless.2.1 (by decide +kernel)
    cases hcause : CppType.parse (typeText plainSetting.index
        ⟨"type", [], [.text "std::enable_if_t< N > 0, int >"]⟩) with
    | ok t =>
        rw [hcause] at hparse
        cases hparse
    | error cause => exact ⟨_, cause, rfl, hcause⟩

theorem addRoot_offBy_unreadableOverload : ∃ y y',
    (Extraction.start .empty).addRoot plainSetting (shapeGap.document [.element unreadableOverload]) =
        .ok y ∧
      (Extraction.start .empty).addRoot plainSetting (shapeGap.document []) = .ok y' ∧
      OffBy unreadableOverload "ns::Shape" y'.db y.db ∧
      OffBy unreadableOverload "ns::Shape" y'.finish.db y.finish.db := by
  have haccepted : ((Extraction.start .empty).addRoot plainSetting
      (shapeGap.document [.element unreadableOverload])).isOk = true := by decide +kernel
  have hclear : ((Extraction.start .empty).addRoot plainSetting
      (shapeGap.document [.element unreadableOverload])).toOption.all
        (fun y => y.db.symbols.all fun p => symbolKey p ≠ "s2") = true := by decide +kernel
  cases hread : (Extraction.start .empty).addRoot plainSetting
      (shapeGap.document [.element unreadableOverload]) with
  | error fault =>
      rw [hread] at haccepted
      cases haccepted
  | ok y =>
      rw [hread] at hclear
      have hmember : unreadableOverload ∈ members (shapeGap.compoundWith [.element unreadableOverload]) := by
        rw [(shapeGap.misses rfl).membersWith]
        exact List.mem_append_right _ List.mem_cons_self
      obtain ⟨y', hread', hdb, hfinish⟩ := ((addRoot_offBy plainSetting).2 _ _ unreadableOverload
        (shapeGap.child?_document _) hmember).2 shapeGap rfl spoiled_unreadableOverload _ y hread
      have hname : (shapeGap.compoundWith [.element unreadableOverload]).childText "compoundname" =
          "ns::Shape" := by decide +kernel
      have hid : unreadableOverload.attr "id" = "s2" := by decide +kernel
      rw [hname] at hdb hfinish
      refine ⟨y, y', rfl, hread', hdb, hfinish fun p hp => ?_⟩
      rw [hid]
      exact of_decide_eq_true (List.all_eq_true.1 hclear p hp)

end ScriptBindings.Compound
