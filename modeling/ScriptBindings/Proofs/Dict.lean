import Mathlib
import ScriptBindings.Dict

/-!
# Dictionaries and their look-ups

A dictionary is determined by what it answers for each key, because its entries are sorted strictly.  So
two ways of filling a dictionary are compared key by key.
-/

namespace ScriptBindings.Dict

variable {α : Type}

/-- A key in front of all entries has no value. -/
theorem find?_eq_none_of_lt {key : String} {l : List (String × α)} (h : ∀ e ∈ l, key < e.1) :
    find? key l = none := by
  cases hfind : find? key l with
  | none => rfl
  | some v => exact absurd (h _ (mem_of_find? hfind)) (String.lt_irrefl key)

/-- A key that has a value does not stand in front of the first key of a sorted list. -/
theorem not_lt_of_find? {key first : String} {value v : α} {l : List (String × α)}
    (hl : ((first, v) :: l).Pairwise fun a b => a.1 < b.1)
    (h : find? key ((first, v) :: l) = some value) : ¬ key < first := by
  intro hlt
  rw [find?_eq_none_of_lt] at h
  · contradiction
  · intro e he
    rcases List.mem_cons.1 he with rfl | he
    · exact hlt
    · exact String.lt_trans hlt ((List.pairwise_cons.1 hl).1 e he)

/-- Sorted lists of entries with the same answers are the same. -/
theorem entries_eq_of_find? {l m : List (String × α)} (hl : l.Pairwise fun a b => a.1 < b.1)
    (hm : m.Pairwise fun a b => a.1 < b.1) (h : ∀ key, find? key l = find? key m) : l = m := by
  induction l generalizing m with
  | nil =>
      cases m with
      | nil => rfl
      | cons e m =>
          have hfirst := h e.1
          simp [find?] at hfirst
  | cons d l ih =>
      obtain ⟨k, v⟩ := d
      rcases m with _ | ⟨⟨k', v'⟩, m⟩
      · have hfirst := h k
        simp [find?] at hfirst
      -- Each of the first keys has a value in both lists, so neither stands in front of the other.
      have hfirst : find? k ((k', v') :: m) = some v := by
        rw [← h k]
        simp [find?]
      have hfirst' : find? k' ((k, v) :: l) = some v' := by
        rw [h k']
        simp [find?]
      obtain rfl : k = k' := String.le_antisymm (String.not_lt.1 (not_lt_of_find? hl hfirst'))
        (String.not_lt.1 (not_lt_of_find? hm hfirst))
      obtain rfl : v' = v := by simpa [find?] using hfirst
      obtain ⟨hk, hltail⟩ := List.pairwise_cons.1 hl
      obtain ⟨hk', hmtail⟩ := List.pairwise_cons.1 hm
      have hrest : ∀ key, find? key l = find? key m := by
        intro key
        by_cases heq : key = k
        · rw [heq, find?_eq_none_of_lt hk, find?_eq_none_of_lt hk']
        · have hboth := h key
          simpa [find?, heq] using hboth
      rw [ih hltail hmtail hrest]

@[ext]
theorem ext_get? {d e : Dict α} (h : ∀ key, d.get? key = e.get? key) : d = e := by
  have hentries := entries_eq_of_find? d.sorted e.sorted h
  cases d
  cases e
  cases hentries
  rfl

/-- The entries are the answers: no key stands twice. -/
theorem find?_eq_some_iff {key : String} {value : α} {l : List (String × α)}
    (hl : l.Pairwise fun a b => a.1 < b.1) : find? key l = some value ↔ (key, value) ∈ l := by
  refine ⟨mem_of_find?, fun h => ?_⟩
  induction l with
  | nil => cases h
  | cons e l ih =>
      obtain ⟨k, v⟩ := e
      obtain ⟨hk, htail⟩ := List.pairwise_cons.1 hl
      rcases List.mem_cons.1 h with heq | hmem
      · cases heq
        simp [find?]
      · have hne : key ≠ k := fun heq => String.lt_irrefl k (heq ▸ hk _ hmem)
        simpa [find?, hne] using ih htail hmem

theorem get?_eq_some_iff {d : Dict α} {key : String} {value : α} :
    d.get? key = some value ↔ (key, value) ∈ d.entries :=
  find?_eq_some_iff d.sorted

/-- Inserting what is there already changes nothing. -/
theorem insert_of_get?_eq_some {d : Dict α} {key : String} {value : α}
    (h : d.get? key = some value) : d.insert key value = d := by
  ext1 other
  rw [get?_insert]
  split
  · rename_i heq
    rw [heq, h]
  · rfl

/-- Different keys are inserted in either order. -/
theorem insert_comm {d : Dict α} {key key' : String} {value value' : α} (h : key ≠ key') :
    (d.insert key value).insert key' value' = (d.insert key' value').insert key value := by
  ext1 other
  rw [get?_insert, get?_insert, get?_insert, get?_insert]
  by_cases hother : other = key
  · rw [if_pos hother, if_pos hother, if_neg fun heq => h (hother.symm.trans heq)]
  · rw [if_neg hother, if_neg hother]

/-! ## Around a key -/

theorem find?_append (key : String) (front back : List (String × α)) :
    find? key (front ++ back) = (find? key front).or (find? key back) := by
  induction front with
  | nil => rfl
  | cons e front ih =>
      obtain ⟨k, v⟩ := e
      by_cases h : key = k
      · simp [find?, h]
      · simp [find?, h, ih]

theorem find?_eq_none_of_not_mem {key : String} {l : List (String × α)}
    (h : key ∉ l.map Prod.fst) : find? key l = none := by
  cases hfind : find? key l with
  | none => rfl
  | some v => exact absurd (List.mem_map_of_mem (mem_of_find? hfind)) h

/-- What is found among entries around a key and in their middle. -/
theorem find?_around {key : String} {front back : List (String × α)}
    (h : key ∉ (front ++ back).map Prod.fst) (found : Option α) (other : String) :
    find? other (front ++ (found.toList.map (fun value => (key, value)) ++ back)) =
      if other = key then found else find? other (front ++ back) := by
  rw [List.map_append, List.mem_append, not_or] at h
  rw [find?_append, find?_append, find?_append]
  split
  · rename_i heq
    rw [heq, find?_eq_none_of_not_mem h.1, find?_eq_none_of_not_mem h.2]
    cases found <;> simp [find?]
  · rename_i hne
    cases found <;> simp [find?, hne]

/-- A new entry is put between the entries, where depends on its key alone. -/
theorem exists_place_eq {key : String} {l : List (String × α)} (h : key ∉ l.map Prod.fst) :
    ∃ front back, l = front ++ back ∧ ∀ value, place key value l = front ++ (key, value) :: back := by
  induction l with
  | nil => exact ⟨[], [], rfl, fun _ => rfl⟩
  | cons e l ih =>
      obtain ⟨k, v⟩ := e
      rw [List.map_cons, List.mem_cons, not_or] at h
      obtain ⟨hne, h⟩ := h
      by_cases hlt : key < k
      · exact ⟨[], (k, v) :: l, rfl, fun value => by rw [place, if_neg hne, if_pos hlt]; rfl⟩
      · obtain ⟨front, back, rfl, hplace⟩ := ih h
        refine ⟨(k, v) :: front, back, rfl, fun value => ?_⟩
        rw [place, if_neg hne, if_neg hlt, hplace]
        rfl

/-- Dictionaries with the same answers under all keys but one have the same entries around that key. -/
theorem exists_entries_around (d : Dict α) (key : String) :
    ∃ front back : List (String × α), key ∉ (front ++ back).map Prod.fst ∧
      ∀ d' : Dict α, (∀ other, other ≠ key → d'.get? other = d.get? other) →
        d'.entries = front ++ ((d'.get? key).toList.map (fun value => (key, value)) ++ back) := by
  have hother : key ∉ (d.erase key).entries.map Prod.fst := by
    intro hmem
    obtain ⟨e, he, rfl⟩ := List.mem_map.1 hmem
    have hget := get?_eq_some_iff.2 he
    rw [get?_erase, if_pos rfl] at hget
    cases hget
  obtain ⟨front, back, hsplit, hplace⟩ := exists_place_eq hother
  refine ⟨front, back, hsplit ▸ hother, fun d' hd' => ?_⟩
  -- Such a dictionary has no entry under the key, or just that one more.
  cases hget : d'.get? key with
  | none =>
      have herase : d' = d.erase key := by
        ext1 other
        rw [get?_erase]
        split
        · rename_i heq
          rw [heq, hget]
        · rename_i hne
          exact hd' other hne
      rw [herase, hsplit]
      rfl
  | some value =>
      have hinsert : d' = (d.erase key).insert key value := by
        ext1 other
        rw [get?_insert, get?_erase]
        split
        · rename_i heq
          rw [heq, hget]
        · rename_i hne
          exact hd' other hne
      rw [hinsert]
      exact hplace value

/-! ## Inserting several entries -/

/-- An answer after insertions was inserted or was there. -/
theorem get?_insertAll_cases {d : Dict α} {key : String} {value : α} {l : List (String × α)}
    (h : (d.insertAll l).get? key = some value) : (key, value) ∈ l ∨ d.get? key = some value := by
  induction l generalizing d with
  | nil => exact Or.inr h
  | cons e l ih =>
      rcases ih h with hmem | hget
      · exact Or.inl (List.mem_cons_of_mem _ hmem)
      · rw [get?_insert] at hget
        split at hget
        · rename_i heq
          obtain rfl := Option.some.inj hget
          exact Or.inl (heq ▸ List.mem_cons_self)
        · exact Or.inr hget

/-- Insertions under other keys do not change an answer. -/
theorem get?_insertAll_of_not_mem {d : Dict α} {key : String} {l : List (String × α)}
    (h : key ∉ l.map Prod.fst) : (d.insertAll l).get? key = d.get? key := by
  induction l generalizing d with
  | nil => rfl
  | cons e l ih =>
      rw [List.map_cons, List.mem_cons, not_or] at h
      have hrest := ih (d := d.insert e.1 e.2) h.2
      rw [get?_insert, if_neg h.1] at hrest
      exact hrest

/-- Of entries that are inserted under different keys each one is found. -/
theorem get?_insertAll_of_mem {d : Dict α} {key : String} {value : α} {l : List (String × α)}
    (hl : (l.map Prod.fst).Nodup) (h : (key, value) ∈ l) : (d.insertAll l).get? key = some value := by
  induction l generalizing d with
  | nil => cases h
  | cons e l ih =>
      rw [List.map_cons, List.nodup_cons] at hl
      rcases List.mem_cons.1 h with rfl | hmem
      · have hlast := get?_insertAll_of_not_mem (d := d.insert key value) hl.1
        rw [get?_insert, if_pos rfl] at hlast
        exact hlast
      · exact ih hl.2 hmem

theorem mem_keys_iff {d : Dict α} {key : String} : key ∈ d.keys ↔ ∃ value, d.get? key = some value := by
  rw [keys, List.mem_map]
  constructor
  · rintro ⟨⟨_, value⟩, he, rfl⟩
    exact ⟨value, get?_eq_some_iff.2 he⟩
  · rintro ⟨value, hvalue⟩
    exact ⟨(key, value), get?_eq_some_iff.1 hvalue, rfl⟩

theorem mem_values_iff {d : Dict α} {value : α} : value ∈ d.values ↔ ∃ key, d.get? key = some value := by
  rw [values, List.mem_map]
  constructor
  · rintro ⟨⟨key, _⟩, he, rfl⟩
    exact ⟨key, get?_eq_some_iff.2 he⟩
  · rintro ⟨key, hkey⟩
    exact ⟨(key, value), get?_eq_some_iff.1 hkey, rfl⟩

theorem nodup_keys (d : Dict α) : d.keys.Nodup := by
  rw [keys, List.Nodup, List.pairwise_map]
  exact d.sorted.imp fun hlt => ne_of_lt hlt

/-- The keys of a dictionary are those of the entries that it was made from. -/
theorem mem_keys_ofList_iff {key : String} {l : List (String × α)} :
    key ∈ (ofList l).keys ↔ key ∈ l.map Prod.fst := by
  rw [mem_keys_iff]
  induction l using List.reverseRecOn with
  | nil => simp [ofList, insertAll]
  | append_singleton l e ih =>
      have hlast : ofList (l ++ [e]) = (ofList l).insert e.1 e.2 := by
        rw [ofList, insertAll, List.foldl_append]
        rfl
      rw [hlast, List.map_append, List.mem_append, List.map_singleton, List.mem_singleton, ← ih]
      by_cases hkey : key = e.1
      · simp [get?_insert, hkey]
      · simp [get?_insert, hkey]

/-- A dictionary is the dictionary of its entries. -/
theorem ofList_entries (d : Dict α) : ofList d.entries = d := by
  ext1 key
  cases hget : d.get? key with
  | none =>
      cases hentry : (ofList d.entries).get? key with
      | none => rfl
      | some value =>
          rcases get?_insertAll_cases hentry with hmem | hempty
          · rw [get?_eq_some_iff.2 hmem] at hget
            cases hget
          · cases hempty
  | some value =>
      obtain ⟨before, after, hsplit⟩ := List.append_of_mem (get?_eq_some_iff.1 hget)
      -- The keys ascend, so that no later entry replaces this one.
      have hlater : key ∉ after.map Prod.fst := by
        have hsorted := d.sorted
        rw [hsplit, List.pairwise_append] at hsorted
        intro hmem
        obtain ⟨e, he, rfl⟩ := List.mem_map.1 hmem
        exact String.lt_irrefl e.1 ((List.pairwise_cons.1 hsorted.2.1).1 e he)
      have hlast := get?_insertAll_of_not_mem (d := (empty.insertAll before).insert key value) hlater
      rw [get?_insert, if_pos rfl] at hlast
      rw [ofList, hsplit, insertAll, List.foldl_append]
      exact hlast

/-! ## All entries of two dictionaries -/

/-- Of several insertions under a key the last one wins. -/
theorem get?_insertAll (d : Dict α) (l : List (String × α)) (key : String) :
    (d.insertAll l).get? key = (find? key l.reverse).or (d.get? key) := by
  induction l generalizing d with
  | nil => rfl
  | cons e l ih =>
      obtain ⟨k, v⟩ := e
      have hrest := ih (d.insert k v)
      rw [List.reverse_cons, find?_append, Option.or_assoc]
      refine hrest.trans (congrArg _ ?_)
      rw [get?_insert]
      by_cases h : key = k
      · simp [find?, h]
      · simp [find?, h]

theorem get?_union (a b : Dict α) (key : String) :
    (a.union b).get? key = (b.get? key).or (a.get? key) := by
  cases hget : b.get? key with
  | none =>
      have hnot : key ∉ b.entries.map Prod.fst := by
        intro hmem
        obtain ⟨value, hvalue⟩ := mem_keys_iff.1 hmem
        cases hget.symm.trans hvalue
      exact get?_insertAll_of_not_mem hnot
  | some value => exact get?_insertAll_of_mem (nodup_keys b) (get?_eq_some_iff.1 hget)

theorem union_assoc (a b c : Dict α) : (a.union b).union c = a.union (b.union c) := by
  ext1 key
  rw [get?_union, get?_union, get?_union, get?_union, Option.or_assoc]

theorem empty_union (a : Dict α) : empty.union a = a := by
  ext1 key
  rw [get?_union, get?_empty, Option.or_none]

theorem union_insert (a b : Dict α) (key : String) (value : α) :
    a.union (b.insert key value) = (a.union b).insert key value := by
  ext1 other
  rw [get?_union, get?_insert, get?_insert, get?_union]
  by_cases h : other = key
  · rw [if_pos h, if_pos h, Option.some_or]
  · rw [if_neg h, if_neg h]

/-! ## Changing the values -/

variable {β γ : Type}

theorem map_map (f : String → α → β) (g : String → β → γ) (d : Dict α) :
    (d.map f).map g = d.map fun key a => g key (f key a) := by
  ext1 key
  simp only [get?_map, Option.map_map]
  rfl

theorem map_insert (f : String → α → β) (d : Dict α) (key : String) (value : α) :
    (d.insert key value).map f = (d.map f).insert key (f key value) := by
  ext1 other
  rw [get?_map, get?_insert, get?_insert, get?_map]
  by_cases h : other = key
  · rw [if_pos h, if_pos h, h]
    rfl
  · rw [if_neg h, if_neg h]

theorem map_insert_of_eq {f : String → α → β} {d : Dict α} {d' : Dict β} {key : String} {value : α}
    {value' : β} (hd : d.map f = d') (hvalue : f key value = value') :
    (d.insert key value).map f = d'.insert key value' := by
  rw [map_insert, hd, hvalue]

/-- What is gathered from the values is the same for two dictionaries whose values, changed in the same way,
are the same, if it is the same for the values under each key. -/
theorem filterMap_values_congr {f : α → γ} {d d' : Dict α} (h : (d.map fun _ => f) = d'.map fun _ => f)
    {g g' : α → Option β}
    (hg : ∀ key v v', d.get? key = some v → d'.get? key = some v' → f v = f v' → g v = g' v') :
    d.values.filterMap g = d'.values.filterMap g' := by
  have hentries : d.entries.map (fun e => (e.1, f e.2)) = d'.entries.map fun e => (e.1, f e.2) :=
    congrArg entries h
  have hget : ∀ e ∈ d.entries, ∀ e' ∈ d'.entries, e.1 = e'.1 → f e.2 = f e'.2 → g e.2 = g' e'.2 :=
    fun e he e' he' hkey => hg e.1 e.2 e'.2 (get?_eq_some_iff.2 he) (get?_eq_some_iff.2 (hkey ▸ he'))
  unfold values
  generalize d.entries = l at hentries hget
  generalize d'.entries = l' at hentries hget
  -- Both lists have the same keys, so they are gone through side by side.
  induction l generalizing l' with
  | nil =>
      obtain rfl := List.map_eq_nil_iff.1 hentries.symm
      rfl
  | cons e l ih =>
      rcases l' with _ | ⟨e', l'⟩
      · cases hentries
      obtain ⟨hhead, htail⟩ := List.cons.inj hentries
      obtain ⟨hkey, hvalue⟩ := Prod.mk.inj hhead
      have hrest := ih l' htail fun e he e' he' =>
        hget e (List.mem_cons_of_mem _ he) e' (List.mem_cons_of_mem _ he')
      simp only [List.map_cons, List.filterMap_cons, hrest,
        hget e List.mem_cons_self e' List.mem_cons_self hkey hvalue]

/-! ## Gathering from all entries -/

/-- Something for every entry of a dictionary, in the order of the keys. -/
def gather (f : String → α → List β) (d : Dict α) : List β :=
  d.entries.flatMap fun e => f e.1 e.2

section Count

variable [BEq β]

/-- An entry that is put at its place adds its own share, less the share of the entry it replaces. -/
theorem count_flatMap_place (f : String × α → List β) (b : β) (key : String) (value : α)
    {l : List (String × α)} (hl : l.Pairwise fun a b => a.1 < b.1) :
    ((place key value l).flatMap f).count b +
        ((find? key l).map fun old => (f (key, old)).count b).getD 0 =
      (f (key, value)).count b + (l.flatMap f).count b := by
  induction l with
  | nil => simp [place, find?]
  | cons e l ih =>
      obtain ⟨k, v⟩ := e
      obtain ⟨hk, hrest⟩ := List.pairwise_cons.1 hl
      rw [place, find?]
      by_cases heq : key = k
      · subst heq
        simp only [if_true, List.flatMap_cons, List.count_append, Option.map_some, Option.getD_some]
        omega
      · rw [if_neg heq, if_neg heq]
        by_cases hlt : key < k
        -- The key belongs in front of all entries, so none of them is replaced.
        · have hnone : find? key l = none :=
            find?_eq_none_of_lt fun e he => String.lt_trans hlt (hk e he)
          rw [if_pos hlt, hnone, List.flatMap_cons, List.count_append, Option.map_none,
            Option.getD_none, Nat.add_zero]
        · have hsum := ih hrest
          rw [if_neg hlt, List.flatMap_cons, List.flatMap_cons, List.count_append, List.count_append]
          omega

theorem count_gather_insert (f : String → α → List β) (b : β) (d : Dict α) (key : String)
    (value : α) : ((d.insert key value).gather f).count b +
        ((d.get? key).map fun old => (f key old).count b).getD 0 =
      (f key value).count b + (d.gather f).count b :=
  count_flatMap_place (fun e => f e.1 e.2) b key value d.sorted

theorem count_gather_insert_le (f : String → α → List β) (b : β) (d : Dict α) (key : String)
    (value : α) : ((d.insert key value).gather f).count b ≤
      (f key value).count b + (d.gather f).count b := by
  have hsum := count_gather_insert f b d key value
  omega

end Count

end ScriptBindings.Dict
