import Mathlib
import ScriptBindings.Proofs.CppType.Repair

/-!
# Repair against a larger index

An index that grows keeps the types that it has, so that more types may end with a name but never fewer.
A name that was completed with the only type that ends with it is therefore not led to another such type
when the index grows.  Either it is completed as before, or repair fails and lists the type that was found
before among the others; and if the name has become a type itself, or a type in an enclosing scope, then that
is what it stands for.
-/

namespace ScriptBindings

namespace SymbolIndex

/-- The larger index has all symbols of the other one under their names, and maybe others under new
names. -/
def Extends (larger index : SymbolIndex) : Prop :=
  ∀ fqn s, index.byName.get? fqn = some s → larger.byName.get? fqn = some s

variable {index larger : SymbolIndex} {fqn name : String}

/-- A symbol with a new name extends an index. -/
theorem extends_register {s : Symbol} (hnew : index.byName.get? s.fqn = none) :
    (index.register s).Extends index := by
  intro fqn t ht
  have hne : fqn ≠ s.fqn := by
    rintro rfl
    rw [hnew] at ht
    cases ht
  rw [register, Dict.get?_insert, if_neg hne]
  exact ht

theorem Extends.isTypeName (h : larger.Extends index) (htype : index.IsTypeName fqn) :
    larger.IsTypeName fqn := by
  obtain ⟨s, hs, hkind⟩ := htype
  exact ⟨s, h fqn s hs, hkind⟩

theorem Extends.isCandidate (h : larger.Extends index) (hcandidate : index.IsCandidate name fqn) :
    larger.IsCandidate name fqn :=
  ⟨h.isTypeName hcandidate.1, hcandidate.2⟩

end SymbolIndex

namespace CppType

variable {index larger : SymbolIndex} {context : String} {keep : List String} {n m x : String}

/-! ## The only type that ends with a name -/

/-- A name that is completed with the only type that ends with it, for want of anything closer. -/
structure OnlySuffix (index : SymbolIndex) (context : String) (keep : List String) (n fqn : String) :
    Prop where
  unsettled : ¬ Settled index keep n
  unscoped : Unscoped index context n
  only : ∀ c, index.IsCandidate n c ↔ c = fqn

theorem OnlySuffix.becomes (h : OnlySuffix index context keep n x) : Becomes index context keep n x :=
  .suffix h.unsettled h.unscoped h.only

/-- What repair looks at before it completes a name with the only type that ends with it. -/
theorem onlySuffix_iff : OnlySuffix index context keep n x ↔
    (keep.contains n || isSettled index n) = false ∧
      ((enclosingScopes context).map fun s => s ++ "::" ++ n).find? index.isType = none ∧
      index.typesEndingWith n = [x] := by
  have honly : (∀ c, index.IsCandidate n c ↔ c = x) ↔ index.typesEndingWith n = [x] := by
    constructor
    · intro h
      exact (index.sorted_typesEndingWith n).eq_of_mem_iff (List.pairwise_singleton _ x) fun c => by
        rw [SymbolIndex.mem_typesEndingWith_iff, h c, List.mem_singleton]
    · intro h c
      rw [← SymbolIndex.mem_typesEndingWith_iff, h, List.mem_singleton]
  rw [← Bool.not_eq_true, settled_iff, find?_enclosingScopes_eq_none_iff, ← honly]
  exact ⟨fun h => ⟨h.unsettled, h.unscoped, h.only⟩, fun h => ⟨h.1, h.2.1, h.2.2⟩⟩

/-! ## Names in a larger index -/

/-- A name settles in a larger index only by becoming a type. -/
theorem isTypeName_of_settled_larger (h : ¬ Settled index keep n) (hlarger : Settled larger keep n) :
    larger.IsTypeName n := by
  rcases hlarger with hkeep | hempty | hroot | hargs | hprimitive | htype
  · exact absurd (Or.inl hkeep) h
  · exact absurd (Or.inr (Or.inl hempty)) h
  · exact absurd (Or.inr (Or.inr (Or.inl hroot))) h
  · exact absurd (Or.inr (Or.inr (Or.inr (Or.inl hargs)))) h
  · exact absurd (Or.inr (Or.inr (Or.inr (Or.inr (Or.inl hprimitive))))) h
  · exact htype

/-- The type that was the only one still ends with the name. -/
theorem OnlySuffix.isCandidate_larger (hx : OnlySuffix index context keep n x)
    (h : larger.Extends index) : larger.IsCandidate n x :=
  h.isCandidate ((hx.only x).2 rfl)

/-- No other type can take the place of the only one. -/
theorem OnlySuffix.unique_larger {y : String} (hx : OnlySuffix index context keep n x)
    (h : larger.Extends index) (hy : OnlySuffix larger context keep n y) : y = x :=
  ((hy.only x).1 (hx.isCandidate_larger h)).symm

/-- What a name becomes in a larger index, if it becomes anything. -/
theorem OnlySuffix.becomes_larger (hx : OnlySuffix index context keep n x) (h : larger.Extends index)
    (hm : Becomes larger context keep n m) :
    OnlySuffix larger context keep n x ∧ m = x ∨ larger.IsTypeName n ∧ m = n ∨
      ∃ scope, Innermost larger context n scope ∧ m = inScope scope n := by
  cases hm with
  | settled hsettled =>
      exact Or.inr (Or.inl ⟨isTypeName_of_settled_larger hx.unsettled hsettled, rfl⟩)
  | enclosed _ hscope => exact Or.inr (Or.inr ⟨_, hscope, rfl⟩)
  | suffix hsettled hunscoped honly =>
      have hsame : m = x := hx.unique_larger h ⟨hsettled, hunscoped, honly⟩
      subst hsame
      exact Or.inl ⟨⟨hsettled, hunscoped, honly⟩, rfl⟩
  | unknown _ _ hnone => exact absurd (hx.isCandidate_larger h) (hnone x)

/-- An ambiguous name of the larger index lists the type that was the only one, and not alone. -/
theorem OnlySuffix.mem_listed (hx : OnlySuffix index context keep n x) (h : larger.Extends index)
    {candidates : List String} (hambiguous : Ambiguous larger context keep n)
    (hlisted : Listed larger n candidates) : x ∈ candidates ∧ candidates ≠ [x] := by
  refine ⟨(hlisted.complete x).2 (hx.isCandidate_larger h), ?_⟩
  rintro rfl
  obtain ⟨a, b, hne, ha, hb⟩ := hambiguous.several
  have ha' : a = x := List.mem_singleton.1 ((hlisted.complete a).2 ha)
  have hb' : b = x := List.mem_singleton.1 ((hlisted.complete b).2 hb)
  exact hne (ha'.trans hb'.symm)

/-! ## Repair -/

theorem repairName_nil (index : SymbolIndex) (context n : String) :
    repairName index context [] n = qualifyName index context n := rfl

theorem qualifyName_larger (hx : OnlySuffix index context [] n x) (h : larger.Extends index) :
    OnlySuffix larger context [] n x ∧ qualifyName larger context n = .ok x ∨
      (∃ candidates, Listed larger n candidates ∧ x ∈ candidates ∧ candidates ≠ [x] ∧
        qualifyName larger context n = .error (.ambiguousName n context candidates)) ∨
      larger.IsTypeName n ∧ qualifyName larger context n = .ok n ∨
      ∃ scope, Innermost larger context n scope ∧
        qualifyName larger context n = .ok (inScope scope n) := by
  rw [← repairName_nil]
  rcases repairName_cases larger context [] n with ⟨m, hok, hbecomes, -⟩ | ⟨herror, hambiguous⟩
  · rcases hx.becomes_larger h hbecomes with ⟨honly, rfl⟩ | ⟨htype, rfl⟩ | ⟨scope, hscope, rfl⟩
    · exact Or.inl ⟨honly, hok⟩
    · exact Or.inr (Or.inr (Or.inl ⟨htype, hok⟩))
    · exact Or.inr (Or.inr (Or.inr ⟨scope, hscope, hok⟩))
  · have hlisted := listed_typesEndingWith larger n
    obtain ⟨hmem, hmore⟩ := hx.mem_listed h hambiguous hlisted
    exact Or.inr (Or.inl ⟨_, hlisted, hmem, hmore, herror⟩)

/-- What repair makes of a name of a type stands at the same place. -/
theorem exists_getElem?_of_repair {t t' : CppType} (h : t.repair index context keep = .ok t') {k : Nat}
    (hn : t.names[k]? = some n) : ∃ m, t'.names[k]? = some m ∧ Becomes index context keep n m := by
  obtain ⟨-, hnames⟩ := repair_eq_ok_iff.1 h
  obtain ⟨hk, rfl⟩ := List.getElem?_eq_some_iff.1 hn
  have hk' : k < t'.names.length := hnames.length_eq ▸ hk
  exact ⟨t'.names[k], List.getElem?_eq_getElem hk', hnames.get hk hk'⟩

/-- The only type that ends with a name is never replaced by another one when the index grows.  The name is
completed with it again; or repair fails and lists it beside others; or the name is a type now; or it is a
type in an enclosing scope now, and is completed with the innermost one.  The same holds for each name of a
type that both indexes repair. -/
theorem repair_of_extends (h : larger.Extends index) (context : String) :
    (∀ n x, OnlySuffix index context [] n x → qualifyName index context n = .ok x ∧
      (OnlySuffix larger context [] n x ∧ qualifyName larger context n = .ok x ∨
        (∃ candidates, Listed larger n candidates ∧ x ∈ candidates ∧ candidates ≠ [x] ∧
          qualifyName larger context n = .error (.ambiguousName n context candidates)) ∨
        larger.IsTypeName n ∧ qualifyName larger context n = .ok n ∨
        ∃ scope, Innermost larger context n scope ∧
          qualifyName larger context n = .ok (inScope scope n)) ∧
      ∀ y, OnlySuffix larger context [] n y → y = x) ∧
    ∀ keep (t t₁ t₂ : CppType), t.repair index context keep = .ok t₁ →
      t.repair larger context keep = .ok t₂ → ∀ (k : Nat) (n x : String), t.names[k]? = some n →
      OnlySuffix index context keep n x → t₁.names[k]? = some x ∧ ∃ y, t₂.names[k]? = some y ∧
        (OnlySuffix larger context keep n x ∧ y = x ∨ larger.IsTypeName n ∧ y = n ∨
          ∃ scope, Innermost larger context n scope ∧ y = inScope scope n) := by
  constructor
  · intro n x hx
    have hok : qualifyName index context n = .ok x :=
      (repairName_nil index context n).symm.trans (repairName_eq_ok_iff.2 hx.becomes)
    exact ⟨hok, qualifyName_larger hx h, fun y hy => hx.unique_larger h hy⟩
  · intro keep t t₁ t₂ h₁ h₂ k n x hn hx
    obtain ⟨m, hm, hbecomes⟩ := exists_getElem?_of_repair h₁ hn
    obtain ⟨y, hy, hbecomes'⟩ := exists_getElem?_of_repair h₂ hn
    rw [hbecomes.unique hx.becomes] at hm
    exact ⟨hm, y, hy, hx.becomes_larger h hbecomes'⟩

theorem repair_of_extends_color :
    let color : Symbol := ⟨.cls, "classobe_1_1graphics_1_1_color", "obe::graphics::Color", "Color"⟩
    let other : Symbol := ⟨.cls, "classvili_1_1_color", "vili::Color", "Color"⟩
    let index := SymbolIndex.ofSymbols [color]
    let larger := index.register other
    larger.Extends index ∧ OnlySuffix index "obe::scene" [] "Color" "obe::graphics::Color" ∧
      ∃ candidates, "obe::graphics::Color" ∈ candidates ∧ candidates ≠ ["obe::graphics::Color"] ∧
        qualifyName larger "obe::scene" "Color" =
          .error (.ambiguousName "Color" "obe::scene" candidates) := by
  intro color other index larger
  have hextends : larger.Extends index := SymbolIndex.extends_register (by decide)
  have honly : OnlySuffix index "obe::scene" [] "Color" "obe::graphics::Color" :=
    onlySuffix_iff.2 (by decide)
  have hnone : (qualifyName larger "obe::scene" "Color").toOption = none := by decide
  have hfails : ∀ m, qualifyName larger "obe::scene" "Color" ≠ .ok m := by
    intro m hok
    rw [hok] at hnone
    cases hnone
  obtain ⟨-, hcases, -⟩ := (repair_of_extends hextends "obe::scene").1 "Color" _ honly
  rcases hcases with ⟨-, hok⟩ | ⟨candidates, -, hmem, hmore, herror⟩ | ⟨-, hok⟩ | ⟨scope, -, hok⟩
  · exact absurd hok (hfails _)
  · exact ⟨hextends, honly, candidates, hmem, hmore, herror⟩
  · exact absurd hok (hfails _)
  · exact absurd hok (hfails _)

end CppType

end ScriptBindings
