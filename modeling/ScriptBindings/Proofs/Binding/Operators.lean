import Mathlib
import ScriptBindings.Proofs.Binding.Planning

/-!
# Operators and the number of operands

C++ uses some symbols both with one and with two operands.  Only the minus is told apart by its operands: it is
the unary minus with one and the subtraction with two.  The other symbols with a metafunction have the same one
for any number of operands, so that a unary plus becomes the addition and a dereference the multiplication.

The operands that count are those of the callable itself.  In a plan every callable stands under the key that it
has alone, whatever else shares its slot.
-/

namespace ScriptBindings

namespace BindKey

variable {symbol name : String} {f : Callable}

/-! ## Metafunctions of symbols -/

/-- Every symbol stands once in the table. -/
theorem lookup_metafunctions_eq_some_iff :
    metafunctions.lookup symbol = some name ↔ (symbol, name) ∈ metafunctions := by
  constructor
  · intro h
    obtain ⟨before, after, htable, -⟩ := List.lookup_eq_some_iff.1 h
    rw [htable]
    exact List.mem_append_right before List.mem_cons_self
  · intro h
    have hall : ∀ e ∈ metafunctions, metafunctions.lookup e.1 = some e.2 := by decide
    exact hall _ h

/-- What is dropped and the minus have no place in the table. -/
theorem ne_of_mem_metafunctions (h : (symbol, name) ∈ metafunctions) : symbol ∉ dropped ∧ symbol ≠ "-" := by
  have hall : ∀ e ∈ metafunctions, e.1 ∉ dropped ∧ e.1 ≠ "-" := by decide
  exact hall _ h

/-- The minus has the metafunction for its number of operands. -/
theorem ofOperator?_minus (operands : List String) : ofOperator? "-" operands =
    some (.metafunction (if operands.length ≤ 1 then "unary_minus" else "subtraction")) := by
  rw [ofOperator?, if_neg (by decide), if_pos rfl]

/-- Any other symbol has the metafunction of the table or none, whatever its operands. -/
theorem ofOperator?_eq_metafunction_iff (hminus : symbol ≠ "-") (operands : List String) :
    ofOperator? symbol operands = some (.metafunction name) ↔ (symbol, name) ∈ metafunctions := by
  rw [ofOperator?]
  by_cases hdropped : symbol ∈ dropped
  · rw [if_pos hdropped]
    exact iff_of_false (Option.some_ne_none _).symm fun h => (ne_of_mem_metafunctions h).1 hdropped
  · rw [if_neg hdropped, if_neg hminus, ← lookup_metafunctions_eq_some_iff]
    cases metafunctions.lookup symbol with
    | some other => simp
    | none => simp

/-! ## Metafunctions of callables -/

/-- The metafunctions of operations on two operands. -/
def binaryMetafunctions : List String :=
  ["addition", "subtraction", "multiplication", "division", "modulus", "equal_to", "less_than",
    "less_than_or_equal_to"]

/-- The symbols that are taken for operations on two operands, however many operands they have. -/
def alwaysBinary : List String := ["+", "*", "/", "%", "==", "<", "<="]

theorem mem_alwaysBinary_iff :
    symbol ∈ alwaysBinary ↔ ∃ name ∈ binaryMetafunctions, (symbol, name) ∈ metafunctions := by
  constructor
  · intro h
    have hall : ∀ s ∈ alwaysBinary, ∃ name ∈ binaryMetafunctions, (s, name) ∈ metafunctions := by decide
    exact hall symbol h
  · rintro ⟨name, hname, hmem⟩
    have hall : ∀ e ∈ metafunctions, e.2 ∈ binaryMetafunctions → e.1 ∈ alwaysBinary := by decide
    exact hall _ hmem hname

/-- An operator that is not renamed has the key of its symbol and its operands. -/
theorem ofCallable?_operator (hsymbol : operatorSymbol? f.name = some symbol) (hrename : f.flags.rename = none) :
    ofCallable? f = ofOperator? symbol (operands f) := by
  rw [ofCallable?, hsymbol]
  show (if f.flags.rename.isSome = true then _ else _) = _
  rw [hrename, if_neg (by decide)]

/-- With one operand a symbol is taken for an operation on two if it always is. -/
theorem binary_iff_of_one_operand (hsymbol : operatorSymbol? f.name = some symbol)
    (hrename : f.flags.rename = none) (hone : (operands f).length = 1) :
    (∃ name ∈ binaryMetafunctions, ofCallable? f = some (.metafunction name)) ↔ symbol ∈ alwaysBinary := by
  rw [ofCallable?_operator hsymbol hrename]
  by_cases hminus : symbol = "-"
  · subst hminus
    rw [ofOperator?_minus, hone]
    decide
  · simp only [ofOperator?_eq_metafunction_iff hminus, mem_alwaysBinary_iff]

/-- The unary minus is a minus with at most one operand. -/
theorem unary_minus_iff (hsymbol : operatorSymbol? f.name = some symbol) (hrename : f.flags.rename = none) :
    ofCallable? f = some (.metafunction "unary_minus") ↔ symbol = "-" ∧ (operands f).length ≤ 1 := by
  rw [ofCallable?_operator hsymbol hrename]
  by_cases hminus : symbol = "-"
  · subst hminus
    rw [ofOperator?_minus]
    by_cases hfew : (operands f).length ≤ 1
    · simp [hfew]
    · simp [hfew]
  · have hnone : (symbol, "unary_minus") ∉ metafunctions := by
      have hall : ∀ e ∈ metafunctions, e.2 ≠ "unary_minus" := by decide
      exact fun h => hall _ h rfl
    simp [ofOperator?_eq_metafunction_iff hminus, hminus, hnone]

end BindKey

namespace Binding

open BindKey

variable {db : Database} {slot : Slot} {f : Callable}

/-! ## Plans -/

/-- A plan binds a callable under the key that it has alone: some entry has this key, and the strategy of the
callable is among its variants. -/
theorem exists_entry_of_key (db : Database) {key : BindKey} (hf : f ∈ slot.callables) (hbound : IsBindable f)
    (hkey : ofCallable? f = some key) :
    ∃ e ∈ planSlot db slot, e.key = key ∧
      ∀ s ∈ (strategyOf db f (isOverloaded slot)).leaves, s ∈ e.strategy.leaves := by
  have hmem : key ∈ (planSlot db slot).map (·.key) := by
    rw [keys_planSlot]
    exact mem_boundKeys_iff.2 ⟨f, hf, hbound, hkey⟩
  obtain ⟨e, he, rfl⟩ := List.mem_map.1 hmem
  refine ⟨e, he, rfl, fun s hs => ?_⟩
  rw [(bindsAll_of_mem_planSlot he).leaves_eq]
  exact List.mem_flatMap.2 ⟨f, List.mem_filter.2 ⟨hf, decide_eq_true hkey⟩, hs⟩

/-- The number of operands decides on the metafunction of a minus only.  An operator with one operand is taken
for an operation on two if and only if its symbol always is, and no operator with two or more operands is taken
for the unary minus.

The operands are those of the callable itself: callables of one name with the same operands have the same key,
and a plan binds a callable under its own key, whatever the others of its slot are. -/
theorem key_of_operands {symbol : String} (hsymbol : operatorSymbol? f.name = some symbol)
    (hrename : f.flags.rename = none) :
    ((operands f).length = 1 →
      ((∃ name ∈ binaryMetafunctions, ofCallable? f = some (.metafunction name)) ↔ symbol ∈ alwaysBinary)) ∧
    (2 ≤ (operands f).length → ofCallable? f ≠ some (.metafunction "unary_minus")) ∧
    (∀ g : Callable, g.name = f.name → g.flags.rename = none → operands g = operands f →
      ofCallable? g = ofCallable? f) ∧
    ∀ db slot, f ∈ slot.callables → IsBindable f → ∀ key, ofCallable? f = some key →
      ∃ e ∈ planSlot db slot, e.key = key ∧
        ∀ s ∈ (strategyOf db f (isOverloaded slot)).leaves, s ∈ e.strategy.leaves := by
  refine ⟨binary_iff_of_one_operand hsymbol hrename, fun htwo hunary => ?_, fun g hname hplain hsame => ?_,
    fun db slot hf hbound key hkey => exists_entry_of_key db hf hbound hkey⟩
  · obtain ⟨-, hfew⟩ := (unary_minus_iff hsymbol hrename).1 hunary
    omega
  · rw [ofCallable?_operator hsymbol hrename, ofCallable?_operator (hname ▸ hsymbol) hplain, hsame]

/-- A vector with a unary plus. -/
def unaryPlus : Callable :=
  { name := "operator+", scope := "obe", owner := some "Vector2f", result := some (.named "obe::Vector2f") }

/-- The unary plus of a vector is bound as its addition. -/
theorem key_of_operands_unaryPlus :
    operatorSymbol? unaryPlus.name = some "+" ∧ (operands unaryPlus).length = 1 ∧
      ∃ name ∈ binaryMetafunctions, ofCallable? unaryPlus = some (.metafunction name) := by
  have hsymbol : operatorSymbol? unaryPlus.name = some "+" := by decide
  have hone : (operands unaryPlus).length = 1 := by decide
  exact ⟨hsymbol, hone, ((key_of_operands hsymbol rfl).1 hone).2 (by decide)⟩

/-- An operator with one operand can have the metafunction of an operation on two. -/
theorem exists_binary_of_one_operand :
    ¬ ∀ f : Callable, ∀ symbol, operatorSymbol? f.name = some symbol → f.flags.rename = none →
      (operands f).length = 1 → ∀ name ∈ binaryMetafunctions, ofCallable? f ≠ some (.metafunction name) :=
  fun h => h unaryPlus "+" (by decide) rfl (by decide) "addition" (by decide) (by decide)

end Binding

end ScriptBindings
