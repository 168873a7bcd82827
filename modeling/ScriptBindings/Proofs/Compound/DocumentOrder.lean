import Mathlib
import ScriptBindings.Proofs.Compound.Agreement

/-!
# The order of documents

A surrogate may be documented before its target or after it.  For a class and a namespace that have nothing
to do with each other but for surrogates, both orders give the same database, except for what is frozen: a
callable that is read before its surrogate keeps the visibility and the parameter names it was declared
with, and a group keeps the flags that its first callable was read with, although the flags of the
callables themselves are the same in the end.
-/

namespace ScriptBindings

namespace Compound

/-! ## Adding documents in either order -/

theorem addTo_congr_class {d : ClassDraft} {given given' : Documented → Flags} {db : Database}
    (h : ∀ e ∈ d.documented, given e = given' e) : d.addTo given db = d.addTo given' db := by
  have hmembers : d.members.flatMap (fun m => endowMembers (given m.toDocumented) m.content) =
      d.members.flatMap fun m => endowMembers (given' m.toDocumented) m.content :=
    List.flatMap_congr fun m hm => by rw [h _ (List.mem_cons_of_mem _ (List.mem_map_of_mem hm))]
  rw [ClassDraft.addTo, ClassDraft.addTo, hmembers, h _ List.mem_cons_self]

theorem addTo_congr_namespace {d : NamespaceDraft} {given given' : Documented → Flags}
    {db : Database} (h : ∀ e ∈ d.documented, given e = given' e) :
    d.addTo given db = d.addTo given' db := by
  have hmembers : d.members.map (fun m => m.content.endow (given m.toDocumented)) =
      d.members.map fun m => m.content.endow (given' m.toDocumented) :=
    List.map_congr_left fun m hm => by rw [h _ (List.mem_cons_of_mem _ (List.mem_map_of_mem hm))]
  rw [NamespaceDraft.addTo, NamespaceDraft.addTo, hmembers, NamespaceDraft.addInfo,
    NamespaceDraft.addInfo, h _ List.mem_cons_self]

/-- What commutes with every step commutes with all steps together. -/
theorem foldl_comm {σ α : Type} {step : σ → α → σ} {f : σ → σ} {as : List α}
    (h : ∀ a ∈ as, ∀ s, f (step s a) = step (f s) a) (s : σ) :
    f (as.foldl step s) = as.foldl step (f s) := by
  induction as generalizing s with
  | nil => rfl
  | cons a as ih =>
      rw [List.foldl_cons, List.foldl_cons, ih (fun b hb => h b (List.mem_cons_of_mem _ hb)),
        h a List.mem_cons_self]

/-- Members with names of their own are added in either order. -/
theorem addNamespaceMember_addBesideClass {fqn name : String} {db : Database} {x : ClassMember}
    {y : NamespaceMember} (h : ∀ p ∈ x.beside fqn, ∀ q ∈ y.symbols name, p.1 ≠ q.1) :
    addNamespaceMember name (addBesideClass fqn db x) y =
      addBesideClass fqn (addNamespaceMember name db y) x := by
  cases x with
  | enumeration e =>
      cases y with
      | enumeration e' =>
          have hkey := h _ List.mem_cons_self _ List.mem_cons_self
          exact congrArg (fun enums => { db with enums := enums }) (Dict.insert_comm hkey)
      | _ => rfl
  | typedef t =>
      cases y with
      | typedef t' =>
          have hkey := h _ List.mem_cons_self _ List.mem_cons_self
          exact congrArg (fun typedefs => { db with typedefs := typedefs }) (Dict.insert_comm hkey)
      | _ => rfl
  | _ => rfl

/-- A change of the database that commutes with the entities beside a class, and that does not concern
classes, commutes with the class. -/
theorem addFound_comm {fqn : String} {header : Class} {found : List ClassMember}
    {f : Database → Database}
    (hbeside : ∀ x ∈ found, ∀ db, f (addBesideClass fqn db x) = addBesideClass fqn (f db) x)
    (hclass : ∀ db c, f { db with classes := db.classes.insert fqn c } =
      { f db with classes := (f db).classes.insert fqn c }) (db : Database) :
    f (addFound fqn header found db) = addFound fqn header found (f db) := by
  unfold addFound
  rw [hclass, foldl_comm hbeside]

theorem ClassDraft.Faithful.exists_documented {d : ClassDraft} (h : d.Faithful)
    {given : Documented → Flags} {x : ClassMember}
    (hx : x ∈ d.members.flatMap fun m => endowMembers (given m.toDocumented) m.content)
    {p : String × String} (hp : p ∈ x.beside d.header.fqn) : ∃ e ∈ d.documented, p = symbolOf e := by
  obtain ⟨m, hm, hx⟩ := List.mem_flatMap.1 hx
  obtain ⟨z, hz, rfl⟩ := List.mem_map.1 hx
  rw [ClassMember.beside_endow] at hp
  have hmem := (h.members m hm).subset (List.mem_flatMap.2 ⟨z, hz, List.mem_append_right _ hp⟩)
  exact ⟨m.toDocumented, List.mem_cons_of_mem _ (List.mem_map_of_mem hm), List.mem_singleton.1 hmem⟩

theorem NamespaceDraft.Faithful.exists_documented {d : NamespaceDraft} (h : d.Faithful)
    {given : Documented → Flags} {y : NamespaceMember}
    (hy : y ∈ d.members.map fun m => m.content.endow (given m.toDocumented))
    {q : String × String} (hq : q ∈ y.symbols d.info.fqn) : ∃ e ∈ d.documented, q = symbolOf e := by
  obtain ⟨m, hm, rfl⟩ := List.mem_map.1 hy
  rw [NamespaceMember.symbols_endow] at hq
  exact ⟨m.toDocumented, List.mem_cons_of_mem _ (List.mem_map_of_mem hm),
    List.mem_singleton.1 ((h.members m hm).subset hq)⟩

/-- Documents with names of their own are added in either order, if the flags are known. -/
theorem addTo_comm {c : ClassDraft} {n : NamespaceDraft} (hc : c.Faithful) (hn : n.Faithful)
    (hnames : ∀ a ∈ c.documented, ∀ b ∈ n.documented, a.fqn ≠ b.fqn) (final : Documented → Flags)
    (db : Database) : n.addTo final (c.addTo final db) = c.addTo final (n.addTo final db) := by
  have hinfo : n.addInfo final (c.addTo final db) = c.addTo final (n.addInfo final db) := by
    refine addFound_comm (f := (n.addInfo final ·)) (fun x _ db => ?_) (fun db c => rfl) db
    cases x <;> rfl
  have hmember : ∀ y ∈ n.members.map fun m => m.content.endow (final m.toDocumented), ∀ db,
      c.addTo final (addNamespaceMember n.info.fqn db y) =
        addNamespaceMember n.info.fqn (c.addTo final db) y := fun y hy db => by
    refine (addFound_comm (f := (addNamespaceMember n.info.fqn · y)) (fun x hx db => ?_)
      (fun db c => ?_) db).symm
    · refine addNamespaceMember_addBesideClass fun p hp q hq => ?_
      obtain ⟨a, ha, rfl⟩ := hc.exists_documented hx hp
      obtain ⟨b, hb, rfl⟩ := hn.exists_documented hy hq
      exact hnames a ha b hb
    · cases y <;> rfl
  rw [NamespaceDraft.addTo, hinfo]
  exact (foldl_comm (f := fun db => c.addTo final db) hmember _).symm

/-! ## Two documents that have nothing in common -/

/-- The symbols of two documents when they share neither names nor counters, and carry flags to different
targets. -/
@[mk_iff]
structure Apart (sets : TypeSets) (as bs : List Documented) : Prop where
  keys : ((as ++ bs).map Documented.key).Nodup
  names : ∀ a ∈ as, ∀ b ∈ bs, a.fqn ≠ b.fqn
  targets : ∀ a ∈ as, ∀ b ∈ bs, ∀ target ∈ a.targets sets, target ∉ b.targets sets

instance (sets : TypeSets) (as bs : List Documented) : Decidable (Apart sets as bs) :=
  decidable_of_iff' _ (apart_iff sets as bs)

theorem Apart.symm {sets : TypeSets} {as bs : List Documented} (h : Apart sets as bs) :
    Apart sets bs as where
  keys := by
    have hkeys := h.keys
    rw [List.map_append] at hkeys ⊢
    exact List.nodup_append_comm.1 hkeys
  names b hb a ha heq := h.names a ha b hb heq.symm
  targets b hb a ha target htarget hmem := h.targets a ha b hb target hmem htarget

/-- What is carried to one target comes from one of the documents, so the order does not matter. -/
theorem Apart.finalFlags_comm {sets : TypeSets} {as bs : List Documented} (h : Apart sets as bs) :
    Documented.finalFlags sets (as ++ bs) = Documented.finalFlags sets (bs ++ as) := by
  funext d
  unfold Documented.finalFlags
  by_cases hcarried : ∃ a ∈ as, d.fqn ∈ a.targets sets
  · obtain ⟨a, ha, htarget⟩ := hcarried
    have hbs : bs.flatMap (Documented.carriedTo sets d.fqn) = [] :=
      List.flatMap_eq_nil_iff.2 fun b hb =>
        Documented.carriedTo_eq_nil (h.targets a ha b hb d.fqn htarget)
    rw [List.flatMap_append, List.flatMap_append, hbs, List.append_nil, List.nil_append]
  · have has : as.flatMap (Documented.carriedTo sets d.fqn) = [] :=
      List.flatMap_eq_nil_iff.2 fun a ha =>
        Documented.carriedTo_eq_nil fun htarget => hcarried ⟨a, ha, htarget⟩
    rw [List.flatMap_append, List.flatMap_append, has, List.append_nil, List.nil_append]

/-- Once two documents have been read, finishing brings every symbol to its final flags; nothing else is
changed, and what was frozen stays. -/
theorem bare_finish {x : Extraction} {sets : TypeSets} {as bs : List Documented}
    {given : Documented → Flags} {db : Database}
    (hread : FlagContext.Accounts sets (as ++ bs) given x.ctx)
    (hkeys : ((as ++ bs).map Documented.key).Nodup)
    (hstored : ∀ p, x.db.symbols.count p ≤ (as.map symbolOf).count p + (bs.map symbolOf).count p)
    (hadd : ∀ m : FlagMap, (∀ e ∈ as ++ bs, m e.fqn e.id (given e) =
      e.finalFlags sets (as ++ bs)) → (x.db.reflag m).bare = db.bare) :
    x.finish.db.bare = db.bare ∧ x.finish.db.frozen = x.db.frozen := by
  rw [finish_db x (nodup_symbolKey hkeys hstored)]
  exact ⟨hadd _ fun e he => hread.settled_given he, Database.frozen_reflag _ _⟩

/-! ## Reading two documents -/

section Reading

open FlagContext (Accounts)

variable {s : Setting} {sets : TypeSets} {compound : Xml.Element} {x x' : Extraction}

theorem namespaces_foldl (name : String) (found : List NamespaceMember) (db : Database) :
    (found.foldl (addNamespaceMember name) db).namespaces = db.namespaces :=
  foldl_unchanged (fun _ y => by cases y <;> rfl) db found

/-- A namespace is recorded with the flags that it is given, whether or not its members are read. -/
theorem exists_info_of_addNamespace {db db' : Database} {ctx ctx' : FlagContext}
    (h : addNamespace s db ctx compound = .ok (db', ctx')) :
    ∃ n : NamespaceInfo, n.flags = (ctx.flagsOf compound (compound.childText "compoundname")).1 ∧
      db'.namespaces = db.namespaces.insert (compound.childText "compoundname") n := by
  obtain ⟨name, hname⟩ : ∃ name, name = compound.childText "compoundname" := ⟨_, rfl⟩
  rw [← hname]
  rcases hgiven : ctx.flagsOf compound name with ⟨flags, after⟩
  refine ⟨⟨compound.attr "id", name, flags, compound.childText "briefdescription"⟩, rfl, ?_⟩
  simp only [addNamespace, ← hname, hgiven] at h
  split at h
  · cases h
    rfl
  · obtain ⟨found, -, hfound⟩ := bind_eq_ok_iff.1 h
    cases hfound
    exact namespaces_foldl name _ _

theorem documented_of_draftNamespace {n : NamespaceDraft} (h : draftNamespace s compound = .ok n) :
    n.info.toDocumented = ⟨compound.childText "compoundname", compound⟩ := by
  simp only [draftNamespace, bind_eq_ok_iff, pure_eq_ok_iff] at h
  obtain ⟨found, -, rfl⟩ := h
  rfl

/-- A class that is not skipped adds its draft to what has been extracted. -/
theorem exists_draft_of_addCompound_class (hkind : compound.attr? "kind" = some "class" ∨
    compound.attr? "kind" = some "struct") (hread : isSkippedClass x.db compound = false)
    (h : x.addCompound s compound = .ok x') :
    ∃ d, draftClass s compound = .ok d ∧ ∀ {sets : TypeSets} {read : List Documented}
      {given : Documented → Flags}, Accounts sets read given x.ctx →
        ((read ++ d.documented).map Documented.key).Nodup →
          ∃ given', (∀ e ∈ read, given' e = given e) ∧ x'.db = d.addTo given' x.db ∧
            Accounts sets (read ++ d.documented) given' x'.ctx := by
  rw [addCompound_class hkind, addClass, if_neg (ne_true_of_eq_false hread), map_eq_ok_iff] at h
  obtain ⟨r, hclass, rfl⟩ := h
  exact exists_draft_of_readClass hclass

theorem exists_info_of_addCompound (hkind : compound.attr? "kind" = some "namespace")
    (h : x.addCompound s compound = .ok x') :
    ∃ n : NamespaceInfo, n.flags = (x.ctx.flagsOf compound (compound.childText "compoundname")).1 ∧
      x'.db.namespaces = x.db.namespaces.insert (compound.childText "compoundname") n := by
  rw [addCompound_namespace hkind, map_eq_ok_iff] at h
  obtain ⟨r, hnamespace, rfl⟩ := h
  exact exists_info_of_addNamespace hnamespace

/-- A namespace that is bound adds its draft to what has been extracted. -/
theorem exists_draft_of_addCompound_namespace (hkind : compound.attr? "kind" = some "namespace")
    (hbound : (x.ctx.flagsOf compound (compound.childText "compoundname")).1.noBind = false)
    (h : x.addCompound s compound = .ok x') :
    ∃ d, draftNamespace s compound = .ok d ∧ ∀ {sets : TypeSets} {read : List Documented}
      {given : Documented → Flags}, Accounts sets read given x.ctx →
        ((read ++ d.documented).map Documented.key).Nodup →
          ∃ given', (∀ e ∈ read, given' e = given e) ∧ x'.db = d.addTo given' x.db ∧
            Accounts sets (read ++ d.documented) given' x'.ctx := by
  rw [addCompound_namespace hkind, map_eq_ok_iff] at h
  obtain ⟨r, hnamespace, rfl⟩ := h
  exact exists_draft_of_addNamespace hnamespace hbound

/-- A class that is not private is read after a namespace that is bound. -/
theorem isSkippedClass_insert {ofClass : Xml.Element} {db : Database} {name : String}
    {n : NamespaceInfo} (hread : isSkippedClass {} ofClass = false)
    (hdb : db.namespaces = Dict.empty.insert name n) (hbound : n.flags.noBind = false) :
    isSkippedClass db ofClass = false := by
  unfold isSkippedClass at hread ⊢
  rw [Bool.or_eq_false_iff] at hread ⊢
  refine ⟨hread.1, ?_⟩
  rw [hdb, Dict.get?_insert]
  split
  · exact hbound
  · rfl

end Reading

/-- All symbols of a class document, in the order in which they are read. -/
def classSymbols (s : Setting) (compound : Xml.Element) : List Documented :=
  match draftClass s compound with
  | .ok d => d.documented
  | .error _ => []

/-- All symbols of a namespace document, in the order in which they are read. -/
def namespaceSymbols (s : Setting) (compound : Xml.Element) : List Documented :=
  match draftNamespace s compound with
  | .ok d => d.documented
  | .error _ => []

/-- A class document and a namespace document that share neither names nor counters, and whose symbols
carry flags to different targets.  The class is named in one way only. -/
@[mk_iff]
structure Unrelated (s : Setting) (sets : TypeSets) (ofClass ofNamespace : Xml.Element) : Prop where
  isClass : ofClass.attr? "kind" = some "class" ∨ ofClass.attr? "kind" = some "struct"
  isNamespace : ofNamespace.attr? "kind" = some "namespace"
  wellNamed : WellNamed ofClass
  apart : Apart sets (classSymbols s ofClass) (namespaceSymbols s ofNamespace)

instance (s : Setting) (sets : TypeSets) (ofClass ofNamespace : Xml.Element) :
    Decidable (Unrelated s sets ofClass ofNamespace) :=
  decidable_of_iff' _ (unrelated_iff s sets ofClass ofNamespace)

theorem classSymbols_eq {s : Setting} {compound : Xml.Element} {c : ClassDraft}
    (h : draftClass s compound = .ok c) : classSymbols s compound = c.documented := by
  rw [classSymbols, h]

theorem namespaceSymbols_eq {s : Setting} {compound : Xml.Element} {n : NamespaceDraft}
    (h : draftNamespace s compound = .ok n) : namespaceSymbols s compound = n.documented := by
  rw [namespaceSymbols, h]

section Order

open FlagContext (Accounts)

variable {s : Setting} {extra : TypeSets} {ofClass ofNamespace : Xml.Element}
  {first second : Extraction}

/-- The flags that a namespace is given when nothing was read before it are among those that it is given
after a class. -/
theorem noBind_of_accounts {read : List Documented} {given : Documented → Flags}
    {ctx : FlagContext} (h : Accounts (.extended extra) read given ctx) {d : Documented}
    (hnew : d.key ∉ read.map Documented.key)
    (hbound : (ctx.flagsOf d.element d.fqn).1.noBind = false) :
    ((Extraction.start extra).ctx.flagsOf d.element d.fqn).1.noBind = false := by
  have hstart : Accounts (.extended extra) [] given (Extraction.start extra).ctx :=
    FlagContext.accounts_new extra given
  rw [h.flagsOf_fst hnew, FlagContext.noBind_foldl_merge, List.any_append] at hbound
  rw [hstart.flagsOf_fst List.not_mem_nil, FlagContext.noBind_foldl_merge, hstart.waiting]
  simp only [Bool.or_eq_false_iff] at hbound
  simp [hbound]

/-- Reading the class first: both drafts are added, and the namespace would be bound without the class. -/
theorem exists_drafts_class_first (h : Unrelated s (.extended extra) ofClass ofNamespace)
    (hread : isSkippedClass {} ofClass = false)
    (hfirst : (Extraction.start extra).addCompound s ofClass = .ok first)
    (hsecond : first.addCompound s ofNamespace = .ok second)
    (hbound : ∀ n, second.db.namespaces.get? (ofNamespace.childText "compoundname") = some n →
      n.flags.noBind = false) :
    ∃ c n given, draftClass s ofClass = .ok c ∧ draftNamespace s ofNamespace = .ok n ∧
      second.db = n.addTo given (c.addTo given {}) ∧
      Accounts (.extended extra) (c.documented ++ n.documented) given second.ctx ∧
      ((Extraction.start extra).ctx.flagsOf ofNamespace
        (ofNamespace.childText "compoundname")).1.noBind = false := by
  obtain ⟨c, hc, hcread⟩ := exists_draft_of_addCompound_class h.isClass hread hfirst
  obtain ⟨info, hflags, hrecorded⟩ := exists_info_of_addCompound h.isNamespace hsecond
  have hnoBind : (first.ctx.flagsOf ofNamespace
      (ofNamespace.childText "compoundname")).1.noBind = false := by
    rw [← hflags]
    exact hbound info (by rw [hrecorded, Dict.get?_insert, if_pos rfl])
  obtain ⟨n, hn, hnread⟩ :=
    exists_draft_of_addCompound_namespace h.isNamespace hnoBind hsecond
  have hkeys := h.apart.keys
  rw [classSymbols_eq hc, namespaceSymbols_eq hn] at hkeys
  have hclassKeys : ((([] : List Documented) ++ c.documented).map Documented.key).Nodup := by
    rw [List.map_append] at hkeys
    exact List.Nodup.of_append_left hkeys
  obtain ⟨given₁, -, hdb₁, hread₁⟩ :=
    hcread (FlagContext.accounts_new extra fun _ => {}) hclassKeys
  -- The namespace is read without changing what the class has been given.
  obtain ⟨given, hkept, hdb, hread₂⟩ := hnread hread₁ hkeys
  refine ⟨c, n, given, hc, hn, ?_, hread₂, ?_⟩
  · rw [hdb, hdb₁, addTo_congr_class fun e he => (hkept e he).symm]
    rfl
  · have hinfo := documented_of_draftNamespace hn
    have hnew : n.info.toDocumented.key ∉ c.documented.map Documented.key := by
      rw [List.map_append] at hkeys
      exact fun hmem => List.disjoint_of_nodup_append hkeys hmem
        (List.mem_map_of_mem List.mem_cons_self)
    rw [hinfo] at hnew
    exact noBind_of_accounts (d := ⟨ofNamespace.childText "compoundname", ofNamespace⟩) hread₁ hnew
      hnoBind

/-- Reading the namespace first: both drafts are added, as the namespace is bound. -/
theorem exists_drafts_namespace_first (h : Unrelated s (.extended extra) ofClass ofNamespace)
    (hread : isSkippedClass {} ofClass = false)
    (hfirst : (Extraction.start extra).addCompound s ofNamespace = .ok first)
    (hsecond : first.addCompound s ofClass = .ok second)
    (hbound : ((Extraction.start extra).ctx.flagsOf ofNamespace
      (ofNamespace.childText "compoundname")).1.noBind = false) :
    ∃ c n given, draftClass s ofClass = .ok c ∧ draftNamespace s ofNamespace = .ok n ∧
      second.db = c.addTo given (n.addTo given {}) ∧
      Accounts (.extended extra) (n.documented ++ c.documented) given second.ctx := by
  obtain ⟨info, hflags, hrecorded⟩ := exists_info_of_addCompound h.isNamespace hfirst
  have hread' := isSkippedClass_insert hread hrecorded (hflags ▸ hbound)
  obtain ⟨n, hn, hnread⟩ := exists_draft_of_addCompound_namespace h.isNamespace hbound hfirst
  obtain ⟨c, hc, hcread⟩ := exists_draft_of_addCompound_class h.isClass hread' hsecond
  have hkeys := h.apart.symm.keys
  rw [classSymbols_eq hc, namespaceSymbols_eq hn] at hkeys
  have hnamespaceKeys : ((([] : List Documented) ++ n.documented).map Documented.key).Nodup := by
    rw [List.map_append] at hkeys
    exact List.Nodup.of_append_left hkeys
  obtain ⟨given₁, -, hdb₁, hread₁⟩ :=
    hnread (FlagContext.accounts_new extra fun _ => {}) hnamespaceKeys
  obtain ⟨given, hkept, hdb, hread₂⟩ := hcread hread₁ hkeys
  refine ⟨c, n, given, hc, hn, ?_, hread₂⟩
  rw [hdb, hdb₁, addTo_congr_namespace fun e he => (hkept e he).symm]
  rfl

/-- Reading the class first and finishing: every symbol has its final flags. -/
theorem bare_finish_class_first {x : Extraction} {c : ClassDraft} {n : NamespaceDraft}
    {sets : TypeSets} {given : Documented → Flags} (hc : c.Faithful) (hn : n.Faithful)
    (hkeys : ((c.documented ++ n.documented).map Documented.key).Nodup)
    (hread : Accounts sets (c.documented ++ n.documented) given x.ctx)
    (hdb : x.db = n.addTo given (c.addTo given {})) :
    let final := Documented.finalFlags sets (c.documented ++ n.documented)
    x.finish.db.bare = (n.addTo final (c.addTo final {})).bare ∧
      x.finish.db.frozen = x.db.frozen := by
  refine bare_finish hread hkeys (fun p => ?_) fun m hm => ?_
  · have hclass := hc.count_addTo_le given p {}
    have hnamespace := hn.count_addTo_le given p (c.addTo given {})
    have hempty : (({} : Database).symbols).count p = 0 := rfl
    rw [hdb]
    omega
  · rw [hdb]
    exact hn.bare_reflag_addTo
      (hc.bare_reflag_addTo rfl fun e he => hm e (List.mem_append_left _ he))
      fun e he => hm e (List.mem_append_right _ he)

/-- Reading the namespace first and finishing. -/
theorem bare_finish_namespace_first {x : Extraction} {c : ClassDraft} {n : NamespaceDraft}
    {sets : TypeSets} {given : Documented → Flags} (hc : c.Faithful) (hn : n.Faithful)
    (hkeys : ((n.documented ++ c.documented).map Documented.key).Nodup)
    (hread : Accounts sets (n.documented ++ c.documented) given x.ctx)
    (hdb : x.db = c.addTo given (n.addTo given {})) :
    let final := Documented.finalFlags sets (n.documented ++ c.documented)
    x.finish.db.bare = (c.addTo final (n.addTo final {})).bare ∧
      x.finish.db.frozen = x.db.frozen := by
  refine bare_finish hread hkeys (fun p => ?_) fun m hm => ?_
  · have hnamespace := hn.count_addTo_le given p {}
    have hclass := hc.count_addTo_le given p (n.addTo given {})
    have hempty : (({} : Database).symbols).count p = 0 := rfl
    rw [hdb]
    omega
  · rw [hdb]
    exact hc.bare_reflag_addTo
      (hn.bare_reflag_addTo rfl fun e he => hm e (List.mem_append_left _ he))
      fun e he => hm e (List.mem_append_right _ he)

/-- A private class leaves everything as it is. -/
theorem addCompound_skipped {x : Extraction} (hkind : ofClass.attr? "kind" = some "class" ∨
    ofClass.attr? "kind" = some "struct") (hread : isSkippedClass {} ofClass = true) :
    x.addCompound s ofClass = .ok x := by
  have hprivate : isSkippedClass x.db ofClass = true := by
    unfold isSkippedClass at hread ⊢
    rcases Bool.or_eq_true_iff.1 hread with hprot | hscope
    · rw [hprot, Bool.true_or]
    · cases hscope
  rw [addCompound_class hkind, addClass, if_pos hprivate]
  rfl

variable {classRoot namespaceRoot : Xml.Element} {a b ab ba : Extraction}

/-- Whether a surrogate is documented before its target or after it, every entity ends up with the same
flags, and two databases that are read in the two orders differ in what is frozen or not at all. -/
theorem finish_db_comm_iff (hclass : classRoot.child? "compounddef" = some ofClass)
    (hnamespace : namespaceRoot.child? "compounddef" = some ofNamespace)
    (h : Unrelated s (.extended extra) ofClass ofNamespace)
    (ha : (Extraction.start extra).addRoot s classRoot = .ok a)
    (hab : a.addRoot s namespaceRoot = .ok ab)
    (hb : (Extraction.start extra).addRoot s namespaceRoot = .ok b)
    (hba : b.addRoot s classRoot = .ok ba)
    (hbound : ∀ n, ab.db.namespaces.get? (ofNamespace.childText "compoundname") = some n →
      n.flags.noBind = false) :
    ab.finish.db.bare = ba.finish.db.bare ∧
      (ab.finish.db = ba.finish.db ↔ ab.db.frozen = ba.db.frozen) := by
  simp only [Extraction.addRoot, hclass, hnamespace] at ha hab hb hba
  cases hread : isSkippedClass {} ofClass with
  | true =>
      -- The class is not looked at, so that both databases are that of the namespace.
      rw [addCompound_skipped h.isClass hread] at ha hba
      cases ha
      cases hba
      rw [hb] at hab
      cases hab
      simp
  | false =>
      obtain ⟨c, n, given, hc, hn, hdb, haccounts, hnoBind⟩ :=
        exists_drafts_class_first h hread ha hab hbound
      obtain ⟨c', n', given', hc', hn', hdb', haccounts'⟩ :=
        exists_drafts_namespace_first h hread hb hba hnoBind
      obtain rfl : c = c' := Except.ok.inj (hc.symm.trans hc')
      obtain rfl : n = n' := Except.ok.inj (hn.symm.trans hn')
      have hfaithful := faithful_of_draftClass h.wellNamed hc
      have hfaithful' := faithful_of_draftNamespace hn
      have hapart := h.apart
      rw [classSymbols_eq hc, namespaceSymbols_eq hn] at hapart
      obtain ⟨hbare, hfrozen⟩ :=
        bare_finish_class_first hfaithful hfaithful' hapart.keys haccounts hdb
      obtain ⟨hbare', hfrozen'⟩ :=
        bare_finish_namespace_first hfaithful hfaithful' hapart.symm.keys haccounts' hdb'
      have hsame : ab.finish.db.bare = ba.finish.db.bare := by
        rw [hbare, hbare', hapart.finalFlags_comm, addTo_comm hfaithful hfaithful' hapart.names]
      refine ⟨hsame, fun heq => ?_, fun heq => ?_⟩
      · rw [← hfrozen, ← hfrozen', heq]
      · exact Database.eq_of_bare hsame (by rw [hfrozen, hfrozen', heq])

end Order

/-! ## A class that is a surrogate for a function -/

/-- No symbols are known. -/
def plainSetting : Setting :=
  ⟨.empty, "/project"⟩

/-- A class that carries a directive to the function of the namespace below. -/
def tagClass (directive : String) : Xml.Element :=
  ⟨"compounddef", [("id", "classTag"), ("kind", "class")], [
    .element ⟨"compoundname", [], [.text "Tag"]⟩,
    .element ⟨"detaileddescription", [], [
      .element ⟨"ulink", [("url", "obidog." ++ directive)], []⟩,
      .element ⟨"ulink", [("url", "obidog.surrogate:ns::f")], []⟩]⟩,
    .element ⟨"location", [("file", "tag.h"), ("line", "1")], []⟩]⟩

/-- A namespace with a function. -/
def functionNamespace : Xml.Element :=
  ⟨"compounddef", [("id", "namespacens"), ("kind", "namespace")], [
    .element ⟨"compoundname", [], [.text "ns"]⟩,
    .element ⟨"sectiondef", [], [
      .element ⟨"memberdef", [("kind", "function"), ("id", "f1"), ("prot", "public")], [
        .element ⟨"type", [], [.text "void"]⟩,
        .element ⟨"name", [], [.text "f"]⟩,
        .element ⟨"location", [("file", "ns.h"), ("line", "2")], []⟩]⟩]⟩]⟩

/-- The root of the document of a compound. -/
def rootOf (compound : Xml.Element) : Xml.Element :=
  ⟨"doxygen", [], [.element compound]⟩

/-- Read two documents. -/
def readTwo (first second : Xml.Element) : Except Fault Extraction := do
  let x ← (Extraction.start .empty).addRoot plainSetting (rootOf first)
  x.addRoot plainSetting (rootOf second)

theorem exists_of_readTwo (first second : Xml.Element) (h : (readTwo first second).isOk = true) :
    ∃ x y, (Extraction.start .empty).addRoot plainSetting (rootOf first) = .ok x ∧
      x.addRoot plainSetting (rootOf second) = .ok y ∧
      (readTwo first second).toOption = some y := by
  obtain ⟨y, hread⟩ := exists_of_isOk h
  obtain ⟨x, hfirst, hsecond⟩ := bind_eq_ok_iff.1 hread
  exact ⟨x, y, hfirst, hsecond, congrArg Except.toOption hread⟩

/-- Is the namespace bound as it is read after the class? -/
def staysBound (directive : String) : Bool :=
  ((readTwo (tagClass directive) functionNamespace).toOption.bind fun x =>
    x.db.namespaces.get? "ns").all fun n => !n.flags.noBind

theorem noBind_of_staysBound {directive : String} {ab : Extraction} (h : staysBound directive = true)
    (hread : (readTwo (tagClass directive) functionNamespace).toOption = some ab) :
    ∀ n, ab.db.namespaces.get? (functionNamespace.childText "compoundname") = some n →
      n.flags.noBind = false := fun n hn => by
  have hname : functionNamespace.childText "compoundname" = "ns" := by decide +kernel
  rw [hname] at hn
  rw [staysBound, hread, Option.bind_some, hn] at h
  simpa using h

theorem finish_db_comm_rename : ∃ ab ba,
    (readTwo (tagClass "rename:g") functionNamespace).toOption = some ab ∧
      (readTwo functionNamespace (tagClass "rename:g")).toOption = some ba ∧
      ab.finish.db = ba.finish.db := by
  obtain ⟨a, ab, ha, hab, hread⟩ :=
    exists_of_readTwo (tagClass "rename:g") functionNamespace (by decide +kernel)
  obtain ⟨b, ba, hb, hba, hread'⟩ :=
    exists_of_readTwo functionNamespace (tagClass "rename:g") (by decide +kernel)
  have hfrozen : (readTwo (tagClass "rename:g") functionNamespace).toOption.map (·.db.frozen) =
      (readTwo functionNamespace (tagClass "rename:g")).toOption.map (·.db.frozen) := by
    decide +kernel
  rw [hread, hread'] at hfrozen
  have hcomm := finish_db_comm_iff (by rfl) (by rfl) (by decide +kernel) ha hab hb hba
    (noBind_of_staysBound (by decide +kernel) hread)
  exact ⟨ab, ba, hread, hread', hcomm.2.2 (Option.some.inj hfrozen)⟩

/-- A function that is read before its surrogate keeps its visibility. -/
theorem not_finish_db_comm : ¬ ∀ (s : Setting) (extra : TypeSets)
    (classRoot namespaceRoot ofClass ofNamespace : Xml.Element) (a b ab ba : Extraction),
    classRoot.child? "compounddef" = some ofClass →
      namespaceRoot.child? "compounddef" = some ofNamespace →
      Unrelated s (.extended extra) ofClass ofNamespace →
      (Extraction.start extra).addRoot s classRoot = .ok a → a.addRoot s namespaceRoot = .ok ab →
      (Extraction.start extra).addRoot s namespaceRoot = .ok b → b.addRoot s classRoot = .ok ba →
      (∀ n, ab.db.namespaces.get? (ofNamespace.childText "compoundname") = some n →
        n.flags.noBind = false) → ab.finish.db = ba.finish.db := by
  intro hcomm
  obtain ⟨a, ab, ha, hab, hread⟩ :=
    exists_of_readTwo (tagClass "visibility:private") functionNamespace (by decide +kernel)
  obtain ⟨b, ba, hb, hba, hread'⟩ :=
    exists_of_readTwo functionNamespace (tagClass "visibility:private") (by decide +kernel)
  have heq := hcomm plainSetting .empty _ _ _ _ a b ab ba (by rfl) (by rfl) (by decide +kernel)
    ha hab hb hba (noBind_of_staysBound (by decide +kernel) hread)
  have hfrozen : (readTwo (tagClass "visibility:private") functionNamespace).toOption.map
        (·.finish.db.frozen) ≠
      (readTwo functionNamespace (tagClass "visibility:private")).toOption.map
        (·.finish.db.frozen) := by
    decide +kernel
  rw [hread, hread', Option.map_some, Option.map_some, heq] at hfrozen
  exact hfrozen rfl

end Compound

end ScriptBindings
