/-!
# Dictionaries in key order

A dictionary keeps its entries strictly sorted by key, so two dictionaries that answer every look-up
alike are equal.  Keys are compared by code point, which is also the order of their bytes.
-/

namespace ScriptBindings

/-- Text keys with one value each, listed in strictly ascending key order. -/
structure Dict (α : Type) where
  entries : List (String × α)
  sorted : entries.Pairwise fun a b => a.1 < b.1

namespace Dict

variable {α β : Type}

instance [Repr α] : Repr (Dict α) where
  reprPrec d n := reprPrec d.entries n

instance [DecidableEq α] : DecidableEq (Dict α) := fun a b =>
  match decEq a.entries b.entries with
  | isTrue h => isTrue (by cases a; cases b; cases h; rfl)
  | isFalse h => isFalse fun e => h (e ▸ rfl)

/-- The dictionary without entries. -/
def empty : Dict α := ⟨[], .nil⟩

instance : Inhabited (Dict α) := ⟨empty⟩

instance : EmptyCollection (Dict α) := ⟨empty⟩

/-- Look a key up in a list of entries. -/
def find? (key : String) : List (String × α) → Option α
  | [] => none
  | (k, v) :: rest => if key = k then some v else find? key rest

/-- Put an entry at its place, over an entry with the same key. -/
def place (key : String) (value : α) : List (String × α) → List (String × α)
  | [] => [(key, value)]
  | (k, v) :: rest =>
      if key = k then (key, value) :: rest
      else if key < k then (key, value) :: (k, v) :: rest
      else (k, v) :: place key value rest

theorem mem_place {key : String} {value : α} {e : String × α} {l : List (String × α)}
    (h : e ∈ place key value l) : e = (key, value) ∨ e ∈ l := by
  induction l with
  | nil => simpa [place] using h
  | cons head rest ih =>
      obtain ⟨k, v⟩ := head
      simp only [place] at h
      split at h
      · rcases List.mem_cons.1 h with h | h
        · exact Or.inl h
        · exact Or.inr (List.mem_cons_of_mem _ h)
      · split at h
        · rcases List.mem_cons.1 h with h | h
          · exact Or.inl h
          · exact Or.inr h
        · rcases List.mem_cons.1 h with h | h
          · exact Or.inr (h ▸ List.mem_cons_self)
          · rcases ih h with h | h
            · exact Or.inl h
            · exact Or.inr (List.mem_cons_of_mem _ h)

theorem sorted_place (key : String) (value : α) {l : List (String × α)}
    (h : l.Pairwise fun a b => a.1 < b.1) :
    (place key value l).Pairwise fun a b => a.1 < b.1 := by
  induction l with
  | nil => simp [place]
  | cons head rest ih =>
      obtain ⟨k, v⟩ := head
      obtain ⟨hk, hrest⟩ := List.pairwise_cons.1 h
      simp only [place]
      split
      · rename_i heq
        subst heq
        exact List.pairwise_cons.2 ⟨hk, hrest⟩
      · rename_i hne
        split
        · rename_i hlt
          refine List.pairwise_cons.2 ⟨fun e he => ?_, h⟩
          rcases List.mem_cons.1 he with he | he
          · exact he ▸ hlt
          · exact String.lt_trans hlt (hk e he)
        · rename_i hle
          -- The key goes behind the head: it is neither equal to it nor smaller.
          refine List.pairwise_cons.2 ⟨fun e he => ?_, ih hrest⟩
          rcases mem_place he with he | he
          · subst he
            exact Decidable.byContradiction fun hn =>
              hne (String.le_antisymm (String.not_lt.1 hn) (String.not_lt.1 hle))
          · exact hk e he

/-- The value at a key. -/
def get? (d : Dict α) (key : String) : Option α :=
  find? key d.entries

/-- Add an entry; the new value replaces the value that the key had. -/
def insert (d : Dict α) (key : String) (value : α) : Dict α :=
  ⟨place key value d.entries, sorted_place key value d.sorted⟩

/-- Remove a key. -/
def erase (d : Dict α) (key : String) : Dict α :=
  ⟨d.entries.filter fun e => e.1 != key, d.sorted.filter _⟩

/-- Keep the entries that satisfy a test. -/
def filter (d : Dict α) (keep : String → α → Bool) : Dict α :=
  ⟨d.entries.filter fun e => keep e.1 e.2, d.sorted.filter _⟩

/-- Change every value, with its key at hand. -/
def map (f : String → α → β) (d : Dict α) : Dict β :=
  ⟨d.entries.map fun e => (e.1, f e.1 e.2), by
    rw [List.pairwise_map]
    exact d.sorted⟩

/-- Does the key have a value? -/
def contains (d : Dict α) (key : String) : Bool :=
  (d.get? key).isSome

/-- Change the value at a key, if there is one. -/
def modify (d : Dict α) (key : String) (f : α → α) : Dict α :=
  d.map fun k v => if k = key then f v else v

/-- The keys, ascending. -/
def keys (d : Dict α) : List String :=
  d.entries.map (·.1)

/-- The values, in the order of their keys. -/
def values (d : Dict α) : List α :=
  d.entries.map (·.2)

/-- The number of entries. -/
def size (d : Dict α) : Nat :=
  d.entries.length

/-- No entries at all. -/
def isEmpty (d : Dict α) : Bool :=
  d.entries.isEmpty

/-- Add a list of entries from left to right. -/
def insertAll (d : Dict α) (l : List (String × α)) : Dict α :=
  l.foldl (fun d e => d.insert e.1 e.2) d

/-- The dictionary of a list of entries, the last one winning for each key. -/
def ofList (l : List (String × α)) : Dict α :=
  empty.insertAll l

/-- All entries of both; those of the second win. -/
def union (a b : Dict α) : Dict α :=
  a.insertAll b.entries

instance : Membership String (Dict α) where
  mem d key := (d.get? key).isSome = true

instance (d : Dict α) (key : String) : Decidable (key ∈ d) :=
  inferInstanceAs (Decidable ((d.get? key).isSome = true))

@[simp]
theorem get?_empty (key : String) : (empty : Dict α).get? key = none := rfl

theorem mem_of_find? {key : String} {value : α} {l : List (String × α)}
    (h : find? key l = some value) : (key, value) ∈ l := by
  induction l with
  | nil => simp [find?] at h
  | cons head rest ih =>
      obtain ⟨k, v⟩ := head
      by_cases hk : key = k
      · subst hk
        simp [find?] at h
        simp [h]
      · simp only [find?, if_neg hk] at h
        exact List.mem_cons_of_mem _ (ih h)

/-- What a look-up finds is one of the values. -/
theorem mem_values_of_get? {d : Dict α} {key : String} {value : α}
    (h : d.get? key = some value) : value ∈ d.values :=
  List.mem_map_of_mem (f := (·.2)) (mem_of_find? h)

theorem find?_place (key other : String) (value : α) (l : List (String × α)) :
    find? other (place key value l) = if other = key then some value else find? other l := by
  induction l with
  | nil => simp [place, find?]
  | cons head rest ih =>
      obtain ⟨k, v⟩ := head
      simp only [place]
      split
      · rename_i h
        subst h
        by_cases ho : other = key <;> simp [find?, ho]
      · rename_i h
        split
        · by_cases ho : other = key <;> simp [find?, ho]
        · by_cases ho : other = key
          · subst ho
            simp [find?, h, ih]
          -- Another key is found where it was, be it at the head or behind.
          · by_cases hk : other = k
            · subst hk
              simp [find?, ho]
            · simp [find?, hk, ih, ho]

/-- Insertion changes the answer for one key. -/
@[simp]
theorem get?_insert (d : Dict α) (key other : String) (value : α) :
    (d.insert key value).get? other = if other = key then some value else d.get? other :=
  find?_place key other value d.entries

theorem find?_filter_ne (key other : String) (l : List (String × α)) :
    find? other (l.filter fun e => e.1 != key) = if other = key then none else find? other l := by
  induction l with
  | nil => simp [find?]
  | cons head rest ih =>
      obtain ⟨k, v⟩ := head
      by_cases hk : k = key
      · subst hk
        by_cases ho : other = k
        · subst ho
          simpa using ih
        · simpa [find?, ho] using ih
      · by_cases ho : other = k
        · subst ho
          simp [find?, hk]
        · by_cases h : other = key
          · subst h
            simp [find?, hk, ho, ih]
          · simp [find?, hk, ho, ih, h]

@[simp]
theorem get?_erase (d : Dict α) (key other : String) :
    (d.erase key).get? other = if other = key then none else d.get? other :=
  find?_filter_ne key other d.entries

theorem find?_map (f : String → α → β) (key : String) (l : List (String × α)) :
    find? key (l.map fun e => (e.1, f e.1 e.2)) = (find? key l).map (f key) := by
  induction l with
  | nil => rfl
  | cons head rest ih =>
      obtain ⟨k, v⟩ := head
      by_cases h : key = k
      · subst h
        simp [find?]
      · simp [find?, h, ih]

@[simp]
theorem get?_map (f : String → α → β) (d : Dict α) (key : String) :
    (d.map f).get? key = (d.get? key).map (f key) :=
  find?_map f key d.entries

end Dict

end ScriptBindings
