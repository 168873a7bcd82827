import Mathlib
import ScriptBindings.CppType.Repair
import ScriptBindings.Proofs.Dict
import ScriptBindings.Proofs.Except

/-!
# Repair never guesses

Repair goes through the names of a type from left to right and leaves everything else as it is.  What may
become of a name is said here without the look-ups: a settled name stays, and any other name is completed
with the innermost enclosing scope in which it is a type, or else by the only type that ends with it.
Repair fails at the first name that several types end with, and it lists all of them.  A name that has been
repaired is settled or known to nobody, so that repairing once more changes nothing.
-/

namespace ScriptBindings

namespace CppType

/-! ## Types without their names -/

mutual

/-- The type with its names taken away: its shape, its qualifiers and the names of its arguments. -/
def nameless : CppType → CppType
  | .base _ q => .base "" q
  | .template _ q args => .template "" q (namelessList args)
  | .function r q args => .function r.nameless q (namelessArgs args)

/-- `nameless` on several types. -/
def namelessList : List CppType → List CppType
  | [] => []
  | t :: ts => t.nameless :: namelessList ts

/-- `nameless` on the types of function arguments. -/
def namelessArgs : List FunctionArg → List FunctionArg
  | [] => []
  | ⟨ty, q, name, generated⟩ :: rest => ⟨ty.nameless, q, name, generated⟩ :: namelessArgs rest

end

mutual

/-- As many names as a type has. -/
theorem length_names : ∀ {t t' : CppType}, t.nameless = t'.nameless → t.names.length = t'.names.length
  | .base _ _, .base _ _, _ => rfl
  | .template _ _ args, .template _ _ args', h => by
      simp only [nameless, template.injEq] at h
      simp only [names, List.length_cons, length_namesOfList h.2.2]
  | .function r _ args, .function r' _ args', h => by
      simp only [nameless, function.injEq] at h
      simp only [names, List.length_append, length_names h.1, length_namesOfArgs h.2.2]

theorem length_namesOfList : ∀ {ts ts' : List CppType}, namelessList ts = namelessList ts' →
    (namesOfList ts).length = (namesOfList ts').length
  | [], [], _ => rfl
  | [], _ :: _, h | _ :: _, [], h => by simp [namelessList] at h
  | t :: ts, t' :: ts', h => by
      simp only [namelessList, List.cons.injEq] at h
      simp only [namesOfList, List.length_append, length_names h.1, length_namesOfList h.2]

theorem length_namesOfArgs : ∀ {as as' : List FunctionArg}, namelessArgs as = namelessArgs as' →
    (namesOfArgs as).length = (namesOfArgs as').length
  | [], [], _ => rfl
  | [], ⟨_, _, _, _⟩ :: _, h | ⟨_, _, _, _⟩ :: _, [], h => by simp [namelessArgs] at h
  | ⟨t, _, _, _⟩ :: as, ⟨t', _, _, _⟩ :: as', h => by
      simp only [namelessArgs, List.cons.injEq, FunctionArg.mk.injEq] at h
      simp only [namesOfArgs, List.length_append, length_names h.1.1, length_namesOfArgs h.2]

end

mutual

/-- A type is determined by its names and by what is left without them. -/
theorem eq_of_nameless : ∀ {t t' : CppType}, t.nameless = t'.nameless → t.names = t'.names → t = t'
  | .base _ _, .base _ _, h, hn => by
      simp only [nameless, base.injEq, true_and] at h
      simp only [names, List.cons.injEq, and_true] at hn
      rw [h, hn]
  | .template _ _ args, .template _ _ args', h, hn => by
      simp only [nameless, template.injEq, true_and] at h
      simp only [names, List.cons.injEq] at hn
      rw [h.1, hn.1, eq_of_namelessList h.2 hn.2]
  | .function r _ args, .function r' _ args', h, hn => by
      simp only [nameless, function.injEq] at h
      obtain ⟨hr, hargs⟩ := List.append_inj hn (length_names h.1)
      rw [h.2.1, eq_of_nameless h.1 hr, eq_of_namelessArgs h.2.2 hargs]

theorem eq_of_namelessList : ∀ {ts ts' : List CppType}, namelessList ts = namelessList ts' →
    namesOfList ts = namesOfList ts' → ts = ts'
  | [], [], _, _ => rfl
  | [], _ :: _, h, _ | _ :: _, [], h, _ => by simp [namelessList] at h
  | t :: ts, t' :: ts', h, hn => by
      simp only [namelessList, List.cons.injEq] at h
      obtain ⟨ht, hts⟩ := List.append_inj hn (length_names h.1)
      rw [eq_of_nameless h.1 ht, eq_of_namelessList h.2 hts]

theorem eq_of_namelessArgs : ∀ {as as' : List FunctionArg}, namelessArgs as = namelessArgs as' →
    namesOfArgs as = namesOfArgs as' → as = as'
  | [], [], _, _ => rfl
  | [], ⟨_, _, _, _⟩ :: _, h, _ | ⟨_, _, _, _⟩ :: _, [], h, _ => by simp [namelessArgs] at h
  | ⟨t, _, _, _⟩ :: as, ⟨t', _, _, _⟩ :: as', h, hn => by
      simp only [namelessArgs, List.cons.injEq, FunctionArg.mk.injEq] at h
      obtain ⟨ht, has⟩ := List.append_inj hn (length_names h.1.1)
      rw [eq_of_nameless h.1.1 ht, h.1.2.1, h.1.2.2.1, h.1.2.2.2, eq_of_namelessArgs h.2 has]

end

/-! ## Changing all names -/

section MapNames

variable {ε : Type} (f : String → Except ε String)

mutual

/-- The names are changed one after the other, in the order in which they are listed. -/
theorem names_mapNames : ∀ t : CppType, (t.mapNames f).map names = t.names.mapM f
  | .base n q => by
      simp only [mapNames, names, List.mapM_cons, List.mapM_nil]
      cases f n <;> rfl
  | .template n q args => by
      simp only [mapNames, names, List.mapM_cons, ← names_mapNamesOfList args]
      cases f n with
      | error e => rfl
      | ok m => cases mapNamesOfList f args <;> rfl
  | .function r q args => by
      simp only [mapNames, names, List.mapM_append, ← names_mapNames r, ← names_mapNamesOfArgs args]
      cases r.mapNames f with
      | error e => rfl
      | ok r' => cases mapNamesOfArgs f args <;> rfl

theorem names_mapNamesOfList : ∀ ts : List CppType,
    (mapNamesOfList f ts).map namesOfList = (namesOfList ts).mapM f
  | [] => rfl
  | t :: ts => by
      simp only [mapNamesOfList, namesOfList, List.mapM_append, ← names_mapNames t,
        ← names_mapNamesOfList ts]
      cases t.mapNames f with
      | error e => rfl
      | ok t' => cases mapNamesOfList f ts <;> rfl

theorem names_mapNamesOfArgs : ∀ as : List FunctionArg,
    (mapNamesOfArgs f as).map namesOfArgs = (namesOfArgs as).mapM f
  | [] => rfl
  | ⟨t, q, name, generated⟩ :: as => by
      simp only [mapNamesOfArgs, namesOfArgs, List.mapM_append, ← names_mapNames t,
        ← names_mapNamesOfArgs as]
      cases t.mapNames f with
      | error e => rfl
      | ok t' => cases mapNamesOfArgs f as <;> rfl

end

variable {f}

mutual

/-- Nothing but names is changed. -/
theorem nameless_of_mapNames : ∀ {t t' : CppType}, t.mapNames f = .ok t' → t'.nameless = t.nameless
  | .base n q, t', h => by
      simp only [mapNames, bind_eq_ok_iff, pure_eq_ok_iff] at h
      obtain ⟨m, -, rfl⟩ := h
      rfl
  | .template n q args, t', h => by
      simp only [mapNames, bind_eq_ok_iff, pure_eq_ok_iff] at h
      obtain ⟨m, -, args', hargs, rfl⟩ := h
      simp only [nameless, namelessList_of_mapNames hargs]
  | .function r q args, t', h => by
      simp only [mapNames, bind_eq_ok_iff, pure_eq_ok_iff] at h
      obtain ⟨r', hr, args', hargs, rfl⟩ := h
      simp only [nameless, nameless_of_mapNames hr, namelessArgs_of_mapNames hargs]

theorem namelessList_of_mapNames : ∀ {ts ts' : List CppType}, mapNamesOfList f ts = .ok ts' →
    namelessList ts' = namelessList ts
  | [], ts', h => by
      cases h
      rfl
  | t :: ts, ts', h => by
      simp only [mapNamesOfList, bind_eq_ok_iff, pure_eq_ok_iff] at h
      obtain ⟨t', ht, rest, hrest, rfl⟩ := h
      simp only [namelessList, nameless_of_mapNames ht, namelessList_of_mapNames hrest]

theorem namelessArgs_of_mapNames : ∀ {as as' : List FunctionArg}, mapNamesOfArgs f as = .ok as' →
    namelessArgs as' = namelessArgs as
  | [], as', h => by
      cases h
      rfl
  | ⟨t, q, name, generated⟩ :: as, as', h => by
      simp only [mapNamesOfArgs, bind_eq_ok_iff, pure_eq_ok_iff] at h
      obtain ⟨t', ht, rest, hrest, rfl⟩ := h
      simp only [namelessArgs, nameless_of_mapNames ht, namelessArgs_of_mapNames hrest]

end

/-- A change of all names has a result if it has one for each name, and keeps the rest. -/
theorem mapNames_eq_ok_iff {t t' : CppType} : t.mapNames f = .ok t' ↔
    t'.nameless = t.nameless ∧ t.names.mapM f = .ok t'.names := by
  constructor
  · intro h
    refine ⟨nameless_of_mapNames h, ?_⟩
    rw [← names_mapNames, h]
    rfl
  · rintro ⟨hshape, hnames⟩
    rw [← names_mapNames, map_eq_ok_iff] at hnames
    obtain ⟨u, hu, hsame⟩ := hnames
    rw [hu, eq_of_nameless ((nameless_of_mapNames hu).trans hshape.symm) hsame]

theorem mapNames_eq_error_iff {t : CppType} {e : ε} :
    t.mapNames f = .error e ↔ t.names.mapM f = .error e := by
  rw [← names_mapNames]
  cases t.mapNames f <;> simp [Except.map]

end MapNames

end CppType

/-! ## What may become of a name -/

namespace SymbolIndex

/-- A name that is the qualified name of a class, of another name for a type, or of an enumeration. -/
def IsTypeName (index : SymbolIndex) (fqn : String) : Prop :=
  ∃ s, index.byName.get? fqn = some s ∧
    (s.kind = .cls ∨ s.kind = .typedef ∨ s.kind = .enumeration)

/-- A type whose trailing segments are the segments of a name. -/
def IsCandidate (index : SymbolIndex) (name fqn : String) : Prop :=
  index.IsTypeName fqn ∧ Name.segments name <:+ Name.segments fqn

theorem isType_iff {index : SymbolIndex} {fqn : String} :
    index.isType fqn = true ↔ index.IsTypeName fqn := by
  unfold isType IsTypeName
  rw [Option.any_eq_true]
  constructor
  · rintro ⟨s, hs, hkind⟩
    refine ⟨s, hs, ?_⟩
    cases hk : s.kind <;> simp_all [SymbolKind.isType]
  · rintro ⟨s, hs, hkind⟩
    refine ⟨s, hs, ?_⟩
    rcases hkind with hkind | hkind | hkind <;> rw [hkind] <;> rfl

theorem mem_typesEndingWith_iff {index : SymbolIndex} {name fqn : String} :
    fqn ∈ index.typesEndingWith name ↔ index.IsCandidate name fqn := by
  unfold IsCandidate
  rw [← isType_iff]
  simp only [typesEndingWith, isType, List.mem_map, List.mem_filter, Bool.and_eq_true,
    Name.endsWithSegments, List.isSuffixOf_iff_suffix, Option.any_eq_true, Dict.get?_eq_some_iff]
  constructor
  · rintro ⟨⟨key, s⟩, ⟨hmem, hsuffix, hkind⟩, rfl⟩
    exact ⟨⟨s, hmem, hkind⟩, hsuffix⟩
  · rintro ⟨⟨s, hmem, hkind⟩, hsuffix⟩
    exact ⟨(fqn, s), ⟨hmem, hsuffix, hkind⟩, rfl⟩

/-- The types that end with a name are listed in ascending order, each once. -/
theorem sorted_typesEndingWith (index : SymbolIndex) (name : String) :
    (index.typesEndingWith name).Pairwise (· < ·) :=
  List.pairwise_map.2 (index.byName.sorted.filter _)

end SymbolIndex

namespace CppType

variable {index : SymbolIndex} {context : String} {keep : List String} {n m : String}

/-- A name that is complete as it stands, or that is to be kept. -/
def Settled (index : SymbolIndex) (keep : List String) (n : String) : Prop :=
  n ∈ keep ∨ n = "" ∨ Text.startsWith "::" n = true ∨ '<' ∈ n.toList ∨ isPrimitiveName n = true ∨
    index.IsTypeName n

/-- The segments of a scope that encloses a context: some of the first ones of the context. -/
def Encloses (context : String) (scope : List String) : Prop :=
  scope ≠ [] ∧ scope <+: Name.scopes context

/-- The name of what is called `n` in a scope. -/
def inScope (scope : List String) (n : String) : String :=
  Name.joinScopes scope ++ "::" ++ n

/-- A name that is no type in any enclosing scope. -/
def Unscoped (index : SymbolIndex) (context n : String) : Prop :=
  ∀ scope, Encloses context scope → ¬ index.IsTypeName (inScope scope n)

/-- The innermost enclosing scope in which a name is a type. -/
structure Innermost (index : SymbolIndex) (context n : String) (scope : List String) : Prop where
  encloses : Encloses context scope
  isType : index.IsTypeName (inScope scope n)
  longest : ∀ other, Encloses context other → index.IsTypeName (inScope other n) →
    other.length ≤ scope.length

/-- What a name becomes in a context. -/
inductive Becomes (index : SymbolIndex) (context : String) (keep : List String) (n : String) :
    String → Prop
  | settled (h : Settled index keep n) : Becomes index context keep n n
  | enclosed {scope : List String} (h : ¬ Settled index keep n) (hscope : Innermost index context n scope) :
      Becomes index context keep n (inScope scope n)
  | suffix {fqn : String} (h : ¬ Settled index keep n) (hscope : Unscoped index context n)
      (honly : ∀ c, index.IsCandidate n c ↔ c = fqn) : Becomes index context keep n fqn
  | unknown (h : ¬ Settled index keep n) (hscope : Unscoped index context n)
      (hnone : ∀ c, ¬ index.IsCandidate n c) : Becomes index context keep n n

/-- A name that nothing decides: several types end with it. -/
structure Ambiguous (index : SymbolIndex) (context : String) (keep : List String) (n : String) :
    Prop where
  unsettled : ¬ Settled index keep n
  unscoped : Unscoped index context n
  several : ∃ a b, a ≠ b ∧ index.IsCandidate n a ∧ index.IsCandidate n b

/-- All types that end with a name, in ascending order. -/
structure Listed (index : SymbolIndex) (n : String) (candidates : List String) : Prop where
  ascending : candidates.Pairwise (· < ·)
  complete : ∀ c, c ∈ candidates ↔ index.IsCandidate n c

/-! ## The look-ups -/

/-- What repair does with one name. -/
def repairName (index : SymbolIndex) (context : String) (keep : List String) (n : String) :
    Except Fault String :=
  if keep.contains n then .ok n else qualifyName index context n

theorem settled_iff : (keep.contains n || isSettled index n) = true ↔ Settled index keep n := by
  unfold isSettled Settled
  rw [← SymbolIndex.isType_iff]
  simp only [Bool.or_eq_true, List.contains_eq_mem, decide_eq_true_eq, or_assoc]

theorem repairName_of_settled (h : Settled index keep n) : repairName index context keep n = .ok n := by
  rw [← settled_iff, Bool.or_eq_true] at h
  unfold repairName qualifyName
  rcases h with h | h
  · rw [if_pos h]
  · rw [if_pos h, ite_self]

theorem repairName_of_not_settled (h : ¬ Settled index keep n) : repairName index context keep n =
    match ((enclosingScopes context).map fun s => s ++ "::" ++ n).find? index.isType with
    | some fqn => .ok fqn
    | none =>
        match index.typesEndingWith n with
        | [] => .ok n
        | [fqn] => .ok fqn
        | candidates => .error (.ambiguousName n context candidates) := by
  rw [← settled_iff, Bool.or_eq_true, not_or] at h
  unfold repairName qualifyName
  exact (if_neg h.1).trans (if_neg h.2)

/-- The greatest number below a bound that passes a test is found first from above. -/
theorem find?_reverse_range_eq_some_iff {p : Nat → Bool} {bound k : Nat} :
    (List.range bound).reverse.find? p = some k ↔
      k < bound ∧ p k = true ∧ ∀ j, j < bound → p j = true → j ≤ k := by
  induction bound with
  | zero => simp
  | succ bound ih =>
      rw [List.range_succ, List.reverse_append, List.reverse_singleton, List.singleton_append,
        List.find?_cons]
      -- The range grows at its end, which the search meets first.
      cases htop : p bound with
      | true =>
          simp only [Option.some.injEq]
          constructor
          · rintro rfl
            exact ⟨by omega, htop, fun j hj _ => by omega⟩
          · rintro ⟨hk, -, hbest⟩
            have hle := hbest bound (by omega) htop
            omega
      | false =>
          simp only [ih]
          constructor
          · rintro ⟨hk, hpass, hbest⟩
            refine ⟨by omega, hpass, fun j hj hj' => ?_⟩
            rcases Nat.lt_succ_iff_lt_or_eq.1 hj with hlt | rfl
            · exact hbest j hlt hj'
            · rw [htop] at hj'
              cases hj'
          · rintro ⟨hk, hpass, hbest⟩
            have hne : k ≠ bound := by
              rintro rfl
              rw [htop] at hpass
              cases hpass
            exact ⟨by omega, hpass, fun j hj => hbest j (by omega)⟩

/-- The enclosing scopes by the number of their segments. -/
theorem encloses_iff {scope : List String} : Encloses context scope ↔
    ∃ k, k < (Name.scopes context).length ∧ scope = (Name.scopes context).take (k + 1) := by
  constructor
  · rintro ⟨hne, hinit⟩
    have hpos : 0 < scope.length := List.length_pos_iff.2 hne
    have hle := hinit.length_le
    refine ⟨scope.length - 1, by omega, ?_⟩
    rw [Nat.sub_add_cancel hpos]
    exact List.prefix_iff_eq_take.1 hinit
  · rintro ⟨k, hk, rfl⟩
    refine ⟨?_, List.take_prefix _ _⟩
    rw [← List.length_pos_iff, List.length_take]
    omega

theorem find?_enclosingScopes_eq_some_iff {fqn : String} :
    ((enclosingScopes context).map fun s => s ++ "::" ++ n).find? index.isType = some fqn ↔
      ∃ scope, Innermost index context n scope ∧ fqn = inScope scope n := by
  have hrange : (enclosingScopes context).map (fun s => s ++ "::" ++ n) =
      (List.range (Name.scopes context).length).reverse.map fun k =>
        inScope ((Name.scopes context).take (k + 1)) n := by
    rw [enclosingScopes, List.map_map]
    rfl
  rw [hrange, List.find?_map, Option.map_eq_some_iff]
  -- A scope is the longer the more segments it has, so the first one found is the innermost.
  constructor
  · rintro ⟨k, hfound, rfl⟩
    obtain ⟨hk, htype, hbest⟩ := find?_reverse_range_eq_some_iff.1 hfound
    refine ⟨_, ⟨encloses_iff.2 ⟨k, hk, rfl⟩, SymbolIndex.isType_iff.1 htype, ?_⟩, rfl⟩
    intro other hother hotherType
    obtain ⟨j, hj, rfl⟩ := encloses_iff.1 hother
    have hle := hbest j hj (SymbolIndex.isType_iff.2 hotherType)
    rw [List.length_take, List.length_take]
    omega
  · rintro ⟨scope, ⟨hencloses, htype, hlongest⟩, rfl⟩
    obtain ⟨k, hk, rfl⟩ := encloses_iff.1 hencloses
    refine ⟨k, find?_reverse_range_eq_some_iff.2
      ⟨hk, SymbolIndex.isType_iff.2 htype, fun j hj hpass => ?_⟩, rfl⟩
    have hle := hlongest _ (encloses_iff.2 ⟨j, hj, rfl⟩) (SymbolIndex.isType_iff.1 hpass)
    rw [List.length_take, List.length_take] at hle
    omega

theorem find?_enclosingScopes_eq_none_iff :
    ((enclosingScopes context).map fun s => s ++ "::" ++ n).find? index.isType = none ↔
      Unscoped index context n := by
  rw [List.find?_eq_none]
  simp only [enclosingScopes, List.map_map, List.mem_map, List.mem_reverse, List.mem_range]
  constructor
  · intro h scope hscope htype
    obtain ⟨k, hk, rfl⟩ := encloses_iff.1 hscope
    exact h _ ⟨k, hk, rfl⟩ (SymbolIndex.isType_iff.2 htype)
  · rintro h _ ⟨k, hk, rfl⟩ htype
    exact h _ (encloses_iff.2 ⟨k, hk, rfl⟩) (SymbolIndex.isType_iff.1 htype)

theorem listed_typesEndingWith (index : SymbolIndex) (n : String) :
    Listed index n (index.typesEndingWith n) :=
  ⟨index.sorted_typesEndingWith n, fun _ => SymbolIndex.mem_typesEndingWith_iff⟩

/-- Each name is decided in one way, or it is ambiguous. -/
theorem repairName_cases (index : SymbolIndex) (context : String) (keep : List String) (n : String) :
    (∃ m, repairName index context keep n = .ok m ∧ Becomes index context keep n m ∧
        ¬ Ambiguous index context keep n) ∨
      (repairName index context keep n =
          .error (.ambiguousName n context (index.typesEndingWith n)) ∧
        Ambiguous index context keep n) := by
  by_cases hsettled : Settled index keep n
  · exact Or.inl ⟨n, repairName_of_settled hsettled, .settled hsettled, fun h => h.unsettled hsettled⟩
  rw [repairName_of_not_settled hsettled]
  cases hfind : ((enclosingScopes context).map fun s => s ++ "::" ++ n).find? index.isType with
  | some fqn =>
      obtain ⟨scope, hscope, rfl⟩ := find?_enclosingScopes_eq_some_iff.1 hfind
      exact Or.inl ⟨_, rfl, .enclosed hsettled hscope,
        fun h => h.unscoped scope hscope.encloses hscope.isType⟩
  | none =>
      have hunscoped := find?_enclosingScopes_eq_none_iff.1 hfind
      obtain ⟨hascending, hcomplete⟩ := listed_typesEndingWith index n
      -- The number of candidates decides the rest.
      rcases hlist : index.typesEndingWith n with _ | ⟨a, _ | ⟨b, more⟩⟩
      · rw [hlist] at hcomplete
        have hnone : ∀ c, ¬ index.IsCandidate n c := fun c hc =>
          List.not_mem_nil ((hcomplete c).2 hc)
        exact Or.inl ⟨n, rfl, .unknown hsettled hunscoped hnone, fun h => by
          obtain ⟨c, -, -, hc, -⟩ := h.several
          exact hnone c hc⟩
      · rw [hlist] at hcomplete
        have honly : ∀ c, index.IsCandidate n c ↔ c = a := fun c => by
          rw [← hcomplete c, List.mem_singleton]
        exact Or.inl ⟨a, rfl, .suffix hsettled hunscoped honly, fun h => by
          obtain ⟨c, d, hne, hc, hd⟩ := h.several
          exact hne (((honly c).1 hc).trans ((honly d).1 hd).symm)⟩
      · rw [hlist] at hcomplete hascending
        refine Or.inr ⟨rfl, hsettled, hunscoped, a, b, ?_, (hcomplete a).1 (by simp),
          (hcomplete b).1 (by simp)⟩
        have hlt : a < b := (List.pairwise_cons.1 hascending).1 b List.mem_cons_self
        rintro rfl
        exact String.lt_irrefl a hlt

/-- A name becomes one thing only. -/
theorem Becomes.unique {m' : String} (h : Becomes index context keep n m)
    (h' : Becomes index context keep n m') : m = m' := by
  cases h with
  | settled hsettled => cases h' <;> first | rfl | contradiction
  | enclosed hsettled hscope =>
      cases h' with
      | settled => contradiction
      | enclosed _ hscope' =>
          -- Two innermost scopes are equally long, and both begin the context.
          have hlength := Nat.le_antisymm (hscope'.longest _ hscope.encloses hscope.isType)
            (hscope.longest _ hscope'.encloses hscope'.isType)
          rw [List.prefix_iff_eq_take.1 hscope.encloses.2, hlength,
            ← List.prefix_iff_eq_take.1 hscope'.encloses.2]
      | suffix _ hunscoped => exact absurd hscope.isType (hunscoped _ hscope.encloses)
      | unknown _ hunscoped => exact absurd hscope.isType (hunscoped _ hscope.encloses)
  | suffix hsettled hunscoped honly =>
      cases h' with
      | settled => contradiction
      | enclosed _ hscope => exact absurd hscope.isType (hunscoped _ hscope.encloses)
      | suffix _ _ honly' => exact (honly' _).1 ((honly _).2 rfl)
      | unknown _ _ hnone => exact absurd ((honly _).2 rfl) (hnone _)
  | unknown hsettled hunscoped hnone =>
      cases h' with
      | settled => rfl
      | enclosed _ hscope => exact absurd hscope.isType (hunscoped _ hscope.encloses)
      | suffix _ _ honly => exact absurd ((honly _).2 rfl) (hnone _)
      | unknown => rfl

/-- An ambiguous name becomes nothing. -/
theorem Becomes.not_ambiguous (h : Becomes index context keep n m) : ¬ Ambiguous index context keep n := by
  intro hambiguous
  cases h with
  | settled hsettled => exact hambiguous.unsettled hsettled
  | enclosed _ hscope => exact hambiguous.unscoped _ hscope.encloses hscope.isType
  | suffix _ _ honly =>
      obtain ⟨a, b, hne, ha, hb⟩ := hambiguous.several
      exact hne (((honly a).1 ha).trans ((honly b).1 hb).symm)
  | unknown _ _ hnone =>
      obtain ⟨a, -, -, ha, -⟩ := hambiguous.several
      exact hnone a ha

theorem repairName_eq_ok_iff :
    repairName index context keep n = .ok m ↔ Becomes index context keep n m := by
  rcases repairName_cases index context keep n with ⟨m', hok, hbecomes, -⟩ | ⟨herror, hambiguous⟩
  · rw [hok, Except.ok.injEq]
    exact ⟨fun h => h ▸ hbecomes, hbecomes.unique⟩
  · rw [herror]
    exact ⟨nofun, fun h => absurd hambiguous h.not_ambiguous⟩

theorem repairName_eq_error_iff {fault : Fault} : repairName index context keep n = .error fault ↔
    Ambiguous index context keep n ∧
      ∃ candidates, Listed index n candidates ∧ fault = .ambiguousName n context candidates := by
  rcases repairName_cases index context keep n with ⟨m', hok, -, hnot⟩ | ⟨herror, hambiguous⟩
  · rw [hok]
    exact ⟨nofun, fun h => absurd h.1 hnot⟩
  · rw [herror, Except.error.injEq]
    constructor
    · rintro rfl
      exact ⟨hambiguous, _, listed_typesEndingWith index n, rfl⟩
    · rintro ⟨-, candidates, hlisted, rfl⟩
      have hsame : candidates = index.typesEndingWith n :=
        hlisted.ascending.eq_of_mem_iff (listed_typesEndingWith index n).ascending fun c => by
          rw [hlisted.complete, (listed_typesEndingWith index n).complete]
      rw [hsame]

/-- What a name has become is left alone by a second repair. -/
theorem Becomes.again (h : Becomes index context keep n m) : Becomes index context keep m m := by
  have hsettled : ∀ {fqn}, index.IsTypeName fqn → Becomes index context keep fqn fqn := fun h =>
    .settled (Or.inr (Or.inr (Or.inr (Or.inr (Or.inr h)))))
  cases h with
  | settled h => exact .settled h
  | enclosed _ hscope => exact hsettled hscope.isType
  | suffix _ _ honly => exact hsettled ((honly m).2 rfl).1
  | unknown h hscope hnone => exact .unknown h hscope hnone

/-! ## Repairing a type -/

variable {t t' : CppType} {fault : Fault}

theorem repair_eq_ok_iff : t.repair index context keep = .ok t' ↔ t'.nameless = t.nameless ∧
    List.Forall₂ (Becomes index context keep) t.names t'.names := by
  have hpointwise : List.Forall₂ (fun n m => repairName index context keep n = .ok m) t.names t'.names ↔
      List.Forall₂ (Becomes index context keep) t.names t'.names := by
    simp only [repairName_eq_ok_iff]
  rw [← hpointwise, ← mapM_eq_ok_iff, ← mapNames_eq_ok_iff]
  rfl

theorem repair_eq_error_iff : t.repair index context keep = .error fault ↔
    ∃ before n after candidates, t.names = before ++ n :: after ∧
      (∀ m ∈ before, ¬ Ambiguous index context keep m) ∧ Ambiguous index context keep n ∧
      Listed index n candidates ∧ fault = .ambiguousName n context candidates := by
  have hnames : t.repair index context keep = .error fault ↔
      t.names.mapM (repairName index context keep) = .error fault := mapNames_eq_error_iff
  rw [hnames, mapM_eq_error_iff]
  constructor
  · rintro ⟨before, n, after, hsplit, hbefore, hn⟩
    obtain ⟨hambiguous, candidates, hlisted, hfault⟩ := repairName_eq_error_iff.1 hn
    refine ⟨before, n, after, candidates, hsplit, fun m hm => ?_, hambiguous, hlisted, hfault⟩
    obtain ⟨m', hm'⟩ := hbefore m hm
    exact (repairName_eq_ok_iff.1 hm').not_ambiguous
  · rintro ⟨before, n, after, candidates, hsplit, hbefore, hambiguous, hlisted, hfault⟩
    refine ⟨before, n, after, hsplit, fun m hm => ?_,
      repairName_eq_error_iff.2 ⟨hambiguous, candidates, hlisted, hfault⟩⟩
    rcases repairName_cases index context keep m with ⟨m', hm', -⟩ | ⟨-, hm'⟩
    · exact ⟨m', hm'⟩
    · exact absurd hm' (hbefore m hm)

/-- If some name is ambiguous, there is a first such name. -/
theorem exists_repair_eq_error_iff : (∃ fault, t.repair index context keep = .error fault) ↔
    ∃ n ∈ t.names, Ambiguous index context keep n := by
  constructor
  · rintro ⟨fault, h⟩
    obtain ⟨before, n, after, -, hsplit, -, hambiguous, -⟩ := repair_eq_error_iff.1 h
    exact ⟨n, by rw [hsplit]; simp, hambiguous⟩
  · rintro ⟨n, hn, hambiguous⟩
    cases h : t.repair index context keep with
    | error fault => exact ⟨fault, rfl⟩
    | ok t' =>
        obtain ⟨-, hnames⟩ := repair_eq_ok_iff.1 h
        obtain ⟨m, -, hm⟩ := exists_of_mem_right hnames.flip hn
        exact absurd hambiguous hm.not_ambiguous

theorem repair_again (h : t.repair index context keep = .ok t') :
    t'.repair index context keep = .ok t' := by
  obtain ⟨-, hnames⟩ := repair_eq_ok_iff.1 h
  refine repair_eq_ok_iff.2 ⟨rfl, List.forall₂_same.2 fun m hm => ?_⟩
  obtain ⟨n, -, hn⟩ := exists_of_mem_right hnames hm
  exact hn.again

/-- Repair fails at the first ambiguous name and lists its candidates; without one it changes nothing but
names, and each of them becomes what it stands for.  A second repair changes nothing. -/
theorem repair_exact (index : SymbolIndex) (context : String) (keep : List String) (t : CppType) :
    ((∃ fault, t.repair index context keep = .error fault) ↔
        ∃ n ∈ t.names, Ambiguous index context keep n) ∧
      (∀ fault, t.repair index context keep = .error fault ↔
        ∃ before n after candidates, t.names = before ++ n :: after ∧
          (∀ m ∈ before, ¬ Ambiguous index context keep m) ∧ Ambiguous index context keep n ∧
          Listed index n candidates ∧ fault = .ambiguousName n context candidates) ∧
      (∀ t', t.repair index context keep = .ok t' ↔ t'.nameless = t.nameless ∧
        List.Forall₂ (Becomes index context keep) t.names t'.names) ∧
      (t.repair index context keep >>= fun t' => t'.repair index context keep) =
        t.repair index context keep := by
  refine ⟨exists_repair_eq_error_iff, fun _ => repair_eq_error_iff, fun _ => repair_eq_ok_iff, ?_⟩
  cases h : t.repair index context keep with
  | error fault => rfl
  | ok t' => exact repair_again h

end CppType

end ScriptBindings
