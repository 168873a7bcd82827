import Mathlib
import ScriptBindings.CppType.Brackets

/-!
# Nested brackets

The scanners for brackets differ in what they cut, and agree in how they go through a text: they carry
the closing brackets that they await.  Here that walk is a definition of its own.  `Outside p s` says
that the brackets of `s` are nested properly and that every character outside of them passes the test
`p`; it is kept by appending, and by taking away an outer part that has it too.

For each scanner there are two statements: what it gives on a text that is put together from nested
parts, and that every text it accepts is put together in this way.
-/

namespace ScriptBindings.CppType

/-- Neither an opening nor a closing bracket. -/
def IsPlain (c : Char) : Prop :=
  closer? c = none ∧ isCloser c = false

theorem isPlain_iff {c : Char} : IsPlain c ↔ c ∉ ['<', '(', '[', '>', ')', ']'] := by
  unfold IsPlain closer?
  split <;> simp_all [isCloser, and_assoc]

/-- The brackets awaited behind a character.  A character outside of all brackets must pass the test. -/
def await (p : Char → Bool) (awaited : List Char) (c : Char) : Option (List Char) :=
  match closer? c with
  | some d => if awaited = [] ∧ p c = false then none else some (d :: awaited)
  | none =>
      if isCloser c then
        match awaited with
        | [] => none
        | d :: outer => if c = d then some outer else none
      else if awaited = [] ∧ p c = false then none
      else some awaited

/-- The brackets awaited behind a text. -/
def awaiting (p : Char → Bool) (awaited s : List Char) : Option (List Char) :=
  s.foldlM (await p) awaited

/-- The brackets are nested properly, and every character outside of them passes the test. -/
def Outside (p : Char → Bool) (s : List Char) : Prop :=
  awaiting p [] s = some []

instance (p : Char → Bool) (s : List Char) : Decidable (Outside p s) :=
  inferInstanceAs (Decidable (awaiting p [] s = some []))

/-- The brackets are nested properly. -/
def Balanced (s : List Char) : Prop :=
  Outside (fun _ => true) s

/-! ## Single characters -/

theorem closer?_eq_some {c d : Char} (h : closer? c = some d) :
    isCloser c = false ∧ isCloser d = true ∧ closer? d = none := by
  unfold closer? at h
  split at h <;> simp at h <;> subst h <;> decide

theorem closer?_of_isCloser {c : Char} (h : isCloser c = true) : closer? c = none := by
  cases hc : closer? c with
  | none => rfl
  | some d =>
      rw [(closer?_eq_some hc).1] at h
      contradiction

theorem await_open {p : Char → Bool} {c d : Char} (awaited : List Char) (h : closer? c = some d)
    (hp : awaited = [] → p c = true) : await p awaited c = some (d :: awaited) := by
  simp only [await, h]
  rw [if_neg]
  rintro ⟨hnil, hfalse⟩
  rw [hp hnil] at hfalse
  contradiction

theorem await_plain {p : Char → Bool} {c : Char} (awaited : List Char) (h : IsPlain c)
    (hp : awaited = [] → p c = true) : await p awaited c = some awaited := by
  simp only [await, h.1, h.2]
  rw [if_neg (by simp), if_neg]
  rintro ⟨hnil, hfalse⟩
  rw [hp hnil] at hfalse
  contradiction

theorem await_close {p : Char → Bool} {d : Char} (outer : List Char) (h : isCloser d = true) :
    await p (d :: outer) d = some outer := by
  simp [await, closer?_of_isCloser h, h]

/-- Everything that a character can do. -/
theorem await_eq_some {p : Char → Bool} {awaited after : List Char} {c : Char}
    (h : await p awaited c = some after) :
    (∃ d, closer? c = some d ∧ (awaited = [] → p c = true) ∧ after = d :: awaited) ∨
      (isCloser c = true ∧ awaited = c :: after) ∨
      (IsPlain c ∧ (awaited = [] → p c = true) ∧ after = awaited) := by
  unfold await at h
  split at h
  · rename_i d hd
    split at h
    · contradiction
    · rename_i hp
      refine Or.inl ⟨d, hd, fun hnil => ?_, by simpa using h.symm⟩
      simpa [hnil] using hp
  · rename_i hnone
    split at h
    · rename_i hclose
      split at h
      · contradiction
      · split at h
        · rename_i heq
          subst heq
          exact Or.inr (Or.inl ⟨hclose, by simpa using h⟩)
        · contradiction
    · rename_i hclose
      split at h
      · contradiction
      · rename_i hp
        refine Or.inr (Or.inr ⟨⟨hnone, by simpa using hclose⟩, fun hnil => ?_, by simpa using h.symm⟩)
        simpa [hnil] using hp

/-- A character that is read inside of further brackets leaves them alone, and is not outside. -/
theorem await_frame {p q : Char → Bool} {awaited after outer : List Char} {c : Char}
    (houter : outer ≠ []) (h : await p awaited c = some after) :
    await q (awaited ++ outer) c = some (after ++ outer) := by
  have hne : awaited ++ outer ≠ [] := by simp [houter]
  rcases await_eq_some h with ⟨d, hd, -, rfl⟩ | ⟨hclose, rfl⟩ | ⟨hplain, -, rfl⟩
  · exact await_open _ hd fun hnil => absurd hnil hne
  · exact await_close _ hclose
  · exact await_plain _ hplain fun hnil => absurd hnil hne

/-- Only outside of brackets does the test matter. -/
theorem await_congr {p q : Char → Bool} {awaited after : List Char} {c : Char}
    (hq : awaited = [] → q c = true) (h : await p awaited c = some after) :
    await q awaited c = some after := by
  rcases await_eq_some h with ⟨d, hd, -, rfl⟩ | ⟨hclose, rfl⟩ | ⟨hplain, -, rfl⟩
  · exact await_open _ hd hq
  · exact await_close _ hclose
  · exact await_plain _ hplain hq

/-- A weaker test accepts more. -/
theorem await_mono {p q : Char → Bool} (hpq : ∀ c, p c = true → q c = true)
    {awaited after : List Char} {c : Char} (h : await p awaited c = some after) :
    await q awaited c = some after := by
  rcases await_eq_some h with ⟨d, hd, hp, rfl⟩ | ⟨hclose, rfl⟩ | ⟨hplain, hp, rfl⟩
  · exact await_open _ hd fun hnil => hpq c (hp hnil)
  · exact await_close _ hclose
  · exact await_plain _ hplain fun hnil => hpq c (hp hnil)

/-! ## Texts -/

@[simp]
theorem awaiting_nil (p : Char → Bool) (awaited : List Char) :
    awaiting p awaited [] = some awaited := rfl

theorem awaiting_cons (p : Char → Bool) (awaited : List Char) (c : Char) (s : List Char) :
    awaiting p awaited (c :: s) = (await p awaited c).bind fun after => awaiting p after s := rfl

theorem awaiting_append (p : Char → Bool) (awaited a b : List Char) :
    awaiting p awaited (a ++ b) =
      (awaiting p awaited a).bind fun after => awaiting p after b := by
  simp only [awaiting, List.foldlM_append]
  rfl

/-- A text that is read inside of further brackets leaves them alone, and nothing in it is outside. -/
theorem awaiting_frame {p q : Char → Bool} {awaited after s : List Char} {outer : List Char}
    (houter : outer ≠ []) (h : awaiting p awaited s = some after) :
    awaiting q (awaited ++ outer) s = some (after ++ outer) := by
  induction s generalizing awaited with
  | nil =>
      rw [awaiting_nil] at h ⊢
      rw [Option.some.inj h]
  | cons c s ih =>
      rw [awaiting_cons] at h ⊢
      obtain ⟨middle, hmiddle, hrest⟩ := Option.bind_eq_some_iff.1 h
      rw [await_frame houter hmiddle]
      exact ih hrest

/-- A weaker test accepts more. -/
theorem awaiting_mono {p q : Char → Bool} (hpq : ∀ c, p c = true → q c = true)
    {awaited after s : List Char} (h : awaiting p awaited s = some after) :
    awaiting q awaited s = some after := by
  induction s generalizing awaited with
  | nil => exact h
  | cons c s ih =>
      rw [awaiting_cons] at h ⊢
      obtain ⟨middle, hmiddle, hrest⟩ := Option.bind_eq_some_iff.1 h
      rw [await_mono hpq hmiddle]
      exact ih hrest

namespace Outside

variable {p q : Char → Bool} {a b s : List Char}

theorem nil : Outside p [] := rfl

theorem mono (hpq : ∀ c, p c = true → q c = true) (h : Outside p s) : Outside q s :=
  awaiting_mono hpq h

theorem balanced (h : Outside p s) : Balanced s :=
  h.mono fun _ _ => rfl

theorem append (ha : Outside p a) (hb : Outside p b) : Outside p (a ++ b) := by
  rw [Outside, awaiting_append, ha]
  exact hb

/-- The rest of a text behind a nested part. -/
theorem of_append_left (h : Outside p (a ++ b)) (ha : Outside p a) : Outside p b := by
  rw [Outside, awaiting_append, ha] at h
  exact h

/-- Nothing is awaited behind the part of a text in front of a nested one. -/
theorem of_append_right (h : Outside p (a ++ b)) (hb : Balanced b) : Outside p a := by
  rw [Outside, awaiting_append] at h
  obtain ⟨after, hafter, hrest⟩ := Option.bind_eq_some_iff.1 h
  by_cases hnil : after = []
  · rwa [hnil] at hafter
  · have hframe : awaiting p after b = some after := awaiting_frame hnil hb
    rw [hrest] at hframe
    exact absurd (Option.some.inj hframe).symm hnil

theorem of_plain (h : ∀ c ∈ s, IsPlain c ∧ p c = true) : Outside p s := by
  induction s with
  | nil => rfl
  | cons c s ih =>
      rw [Outside, awaiting_cons, await_plain _ (h c (by simp)).1 fun _ => (h c (by simp)).2]
      exact ih fun x hx => h x (by simp [hx])

theorem group {o d : Char} (hd : closer? o = some d) (hp : p o = true) (h : Balanced s) :
    Outside p (o :: s ++ [d]) := by
  have hinside : awaiting p [d] s = some [d] := awaiting_frame (by simp) h
  rw [Outside, List.cons_append, awaiting_cons, await_open _ hd fun _ => hp, Option.bind_some,
    awaiting_append, hinside, Option.bind_some, awaiting_cons,
    await_close _ (closer?_eq_some hd).2.1]
  rfl

/-- A nested part in front of a text has what the text has. -/
theorem of_append_balanced (h : Outside p (a ++ b)) (ha : Balanced a) : Outside p a := by
  rw [Outside, awaiting_append] at h
  obtain ⟨after, hafter, -⟩ := Option.bind_eq_some_iff.1 h
  have hnil : awaiting (fun _ => true) [] a = some after := awaiting_mono (fun _ _ => rfl) hafter
  rw [ha] at hnil
  rw [Outside, hafter, ← Option.some.inj hnil]

theorem balanced_of_plain (h : ∀ c ∈ s, IsPlain c) : Balanced s :=
  of_plain fun c hc => ⟨h c hc, rfl⟩

/-- What stands between plain characters has what the whole text has. -/
theorem of_middle {front core back : List Char} (h : Outside p (front ++ core ++ back))
    (hfront : ∀ c ∈ front, IsPlain c) (hback : ∀ c ∈ back, IsPlain c) : Outside p core := by
  have hleft : Outside p (front ++ core) := h.of_append_right (balanced_of_plain hback)
  exact hleft.of_append_left (hleft.of_append_balanced (balanced_of_plain hfront))

/-- The test matters only for the characters of the text. -/
theorem mono_of_mem (hpq : ∀ c ∈ s, p c = true → q c = true) (h : Outside p s) : Outside q s := by
  suffices hwalk : ∀ awaited, awaiting p awaited s = some [] → awaiting q awaited s = some [] from
    hwalk [] h
  clear h
  induction s with
  | nil => exact fun awaited h => h
  | cons c s ih =>
      intro awaited h
      rw [awaiting_cons] at h ⊢
      obtain ⟨middle, hmiddle, hrest⟩ := Option.bind_eq_some_iff.1 h
      have hstep : await q awaited c = some middle := by
        rcases await_eq_some hmiddle with ⟨d, hd, hp, rfl⟩ | ⟨hclose, rfl⟩ | ⟨hplain, hp, rfl⟩
        · exact await_open _ hd fun hnil => hpq c (by simp) (hp hnil)
        · exact await_close _ hclose
        · exact await_plain _ hplain fun hnil => hpq c (by simp) (hp hnil)
      rw [hstep]
      exact ih (fun x hx => hpq x (by simp [hx])) middle hrest

end Outside

/-! ## Cutting at a separator -/

/-- The separator outside of brackets starts a new piece; any other character goes to the first piece and
makes the walk go on. -/
theorem cutOutside_cons {sep : Char} (hsep : IsPlain sep) (awaited : List Char) (c : Char)
    (s : List Char) :
    cutOutside sep awaited (c :: s) =
      if c = sep ∧ awaited = [] then (cutOutside sep [] s).map ([] :: ·)
      else (await (· != sep) awaited c).bind fun after =>
        (cutOutside sep after s).map (Text.consHead c) := by
  rw [cutOutside.eq_def]
  -- The separator is no bracket, so that only a plain character can be it.
  cases hopen : closer? c with
  | some d =>
      have hne : c ≠ sep := by
        rintro rfl
        rw [hsep.1] at hopen
        contradiction
      simp [await, hopen, hne]
  | none =>
      cases hclose : isCloser c with
      | true =>
          have hne : c ≠ sep := by
            rintro rfl
            rw [hsep.2] at hclose
            contradiction
          cases awaited with
          | nil => simp [await, hopen, hclose, hne]
          | cons d outer =>
              by_cases hd : c = d
              · subst hd
                simp [await, hopen, hclose, hne]
              · simp [await, hopen, hclose, hne, hd]
      | false =>
          by_cases hcut : c = sep ∧ awaited = []
          · simp [hcut.1, hcut.2, hsep.1, hsep.2]
          · have hout : ¬ (awaited = [] ∧ c = sep) := fun h => hcut h.symm
            simp [await, hopen, hclose, hcut, hout]

theorem foldr_consHead_cons (a w : List Char) (ws : List (List Char)) :
    a.foldr Text.consHead (w :: ws) = (a ++ w) :: ws := by
  induction a with
  | nil => rfl
  | cons c a ih => rw [List.foldr_cons, ih]; rfl

/-- A text without the separator outside of its brackets goes to the first piece. -/
theorem cutOutside_append {sep : Char} (hsep : IsPlain sep) {awaited after a : List Char}
    (b : List Char) (h : awaiting (· != sep) awaited a = some after) :
    cutOutside sep awaited (a ++ b) =
      (cutOutside sep after b).map fun pieces => a.foldr Text.consHead pieces := by
  induction a generalizing awaited with
  | nil =>
      rw [awaiting_nil] at h
      rw [Option.some.inj h]
      simp
  | cons c a ih =>
      rw [awaiting_cons] at h
      obtain ⟨middle, hmiddle, hrest⟩ := Option.bind_eq_some_iff.1 h
      have hother : ¬ (c = sep ∧ awaited = []) := by
        rintro ⟨rfl, rfl⟩
        simp [await, hsep.1, hsep.2] at hmiddle
      rw [List.cons_append, cutOutside_cons hsep, if_neg hother, hmiddle, Option.bind_some, ih hrest,
        Option.map_map]
      rfl

theorem cutOutside_of_outside {sep : Char} (hsep : IsPlain sep) {s : List Char}
    (h : Outside (· != sep) s) : cutOutside sep [] s = some [s] := by
  have hcut := cutOutside_append hsep [] h
  rw [List.append_nil] at hcut
  rw [hcut, cutOutside, Option.map_some, foldr_consHead_cons, List.append_nil]

theorem cutOutside_append_sep {sep : Char} (hsep : IsPlain sep) {a : List Char} (b : List Char)
    (h : Outside (· != sep) a) :
    cutOutside sep [] (a ++ sep :: b) = (cutOutside sep [] b).map (a :: ·) := by
  rw [cutOutside_append hsep _ h, cutOutside_cons hsep, if_pos ⟨rfl, rfl⟩, Option.map_map]
  congr 1
  funext pieces
  simp [foldr_consHead_cons]

/-- Pieces that are joined with the separator are cut apart again. -/
theorem cutOutside_intercalate {sep : Char} (hsep : IsPlain sep) {pieces : List (List Char)}
    (hne : pieces ≠ []) (h : ∀ a ∈ pieces, Outside (· != sep) a) :
    cutOutside sep [] ([sep].intercalate pieces) = some pieces := by
  induction pieces with
  | nil => contradiction
  | cons a rest ih =>
      cases rest with
      | nil =>
          rw [List.intercalate_singleton]
          exact cutOutside_of_outside hsep (h a (by simp))
      | cons b rest =>
          rw [List.intercalate_cons_cons, List.append_assoc, List.singleton_append,
            cutOutside_append_sep hsep _ (h a (by simp)),
            ih (by simp) fun x hx => h x (by simp [hx])]
          rfl

/-- What is cut apart was joined with the separator, and each piece is nested properly. -/
theorem cutOutside_eq_some {sep : Char} (hsep : IsPlain sep) {awaited s : List Char}
    {pieces : List (List Char)} (h : cutOutside sep awaited s = some pieces) :
    ∃ first rest, pieces = first :: rest ∧ s = [sep].intercalate pieces ∧
      awaiting (· != sep) awaited first = some [] ∧ ∀ a ∈ rest, Outside (· != sep) a := by
  induction s generalizing awaited pieces with
  | nil =>
      cases awaited with
      | nil =>
          rw [cutOutside] at h
          exact ⟨[], [], (Option.some.inj h).symm, by simp [← Option.some.inj h], rfl, by simp⟩
      | cons d outer => simp [cutOutside] at h
  | cons c s ih =>
      rw [cutOutside_cons hsep] at h
      by_cases hcut : c = sep ∧ awaited = []
      -- The separator: the first piece is empty, and the others are those of the rest.
      · obtain ⟨rfl, rfl⟩ := hcut
        rw [if_pos ⟨rfl, rfl⟩] at h
        obtain ⟨inner, hinner, rfl⟩ := Option.map_eq_some_iff.1 h
        obtain ⟨first, rest, rfl, hs, hfirst, hrest⟩ := ih hinner
        refine ⟨[], first :: rest, rfl, ?_, rfl, ?_⟩
        · rw [List.intercalate_cons_cons, ← hs]
          rfl
        · intro a ha
          rcases List.mem_cons.1 ha with rfl | ha
          · exact hfirst
          · exact hrest a ha
      -- Any other character goes to the first piece.
      · rw [if_neg hcut] at h
        obtain ⟨after, hafter, h⟩ := Option.bind_eq_some_iff.1 h
        obtain ⟨inner, hinner, rfl⟩ := Option.map_eq_some_iff.1 h
        obtain ⟨first, rest, rfl, hs, hfirst, hrest⟩ := ih hinner
        refine ⟨c :: first, rest, rfl, ?_, ?_, hrest⟩
        · rw [hs]
          cases rest <;> simp [Text.consHead, List.intercalate_cons_cons]
        · rw [awaiting_cons, hafter]
          exact hfirst

/-! ## Taking a group -/

/-- The last bracket that is awaited ends the group; any other character belongs to it. -/
theorem takeGroup_cons (awaited : List Char) (c : Char) (s : List Char) :
    takeGroup awaited (c :: s) =
      if awaited = [c] ∧ isCloser c = true then some ([], s)
      else (await (fun _ => true) awaited c).bind fun after =>
        (takeGroup after s).map fun (inside, behind) => (c :: inside, behind) := by
  rw [takeGroup.eq_def]
  cases hopen : closer? c with
  | some d => simp [await, hopen, (closer?_eq_some hopen).1]
  | none =>
      cases hclose : isCloser c with
      | true =>
          rcases awaited with _ | ⟨d, _ | ⟨e, outer⟩⟩
          · simp [await, hopen, hclose]
          · by_cases hd : c = d
            · subst hd
              simp [hopen, hclose]
            · simp [await, hopen, hclose, hd, Ne.symm hd]
          · by_cases hd : c = d
            · subst hd
              simp [await, hopen, hclose]
            · simp [await, hopen, hclose, hd]
      | false => simp [await, hopen, hclose]

/-- A group ends at its own closing bracket. -/
theorem takeGroup_append {d : Char} (hd : isCloser d = true) {awaited inside : List Char}
    (behind : List Char) (h : awaiting (fun _ => true) awaited inside = some []) :
    takeGroup (awaited ++ [d]) (inside ++ d :: behind) = some (inside, behind) := by
  induction inside generalizing awaited with
  | nil =>
      rw [awaiting_nil] at h
      rw [Option.some.inj h, List.nil_append, List.nil_append, takeGroup_cons, if_pos ⟨rfl, hd⟩]
  | cons c inside ih =>
      rw [awaiting_cons] at h
      obtain ⟨middle, hmiddle, hrest⟩ := Option.bind_eq_some_iff.1 h
      have hstep : await (fun _ => true) (awaited ++ [d]) c = some (middle ++ [d]) :=
        await_frame (by simp) hmiddle
      -- With nothing awaited, a closing bracket would not belong to the text inside.
      have hother : ¬ (awaited ++ [d] = [c] ∧ isCloser c = true) := by
        rintro ⟨heq, hclose⟩
        have hnil : awaited = [] := by
          cases awaited with
          | nil => rfl
          | cons x xs => simp at heq
        subst hnil
        simp [await, closer?_of_isCloser hclose, hclose] at hmiddle
      rw [List.cons_append, takeGroup_cons, if_neg hother, hstep, Option.bind_some, ih hrest]
      rfl

theorem takeGroup_balanced {d : Char} (hd : isCloser d = true) {inside : List Char}
    (behind : List Char) (h : Balanced inside) :
    takeGroup [d] (inside ++ d :: behind) = some (inside, behind) :=
  @takeGroup_append d hd [] inside behind h

/-- A group that is taken is nested properly and ends at its closing bracket. -/
theorem takeGroup_eq_some {d : Char} {awaited s inside behind : List Char}
    (h : takeGroup (awaited ++ [d]) s = some (inside, behind)) :
    s = inside ++ d :: behind ∧ awaiting (fun _ => true) awaited inside = some [] := by
  induction s generalizing awaited inside with
  | nil => cases awaited <;> simp [takeGroup] at h
  | cons c s ih =>
      rw [takeGroup_cons] at h
      by_cases hend : awaited ++ [d] = [c] ∧ isCloser c = true
      · rw [if_pos hend] at h
        have hnil : awaited = [] := by
          cases awaited with
          | nil => rfl
          | cons x xs => simp at hend
        subst hnil
        have hcd : d = c := by simpa using hend.1
        obtain ⟨rfl, rfl⟩ : [] = inside ∧ s = behind := by simpa using h
        exact ⟨by rw [hcd]; rfl, rfl⟩
      · rw [if_neg hend] at h
        obtain ⟨after, hafter, h⟩ := Option.bind_eq_some_iff.1 h
        obtain ⟨⟨inner, rest⟩, hinner, heq⟩ := Option.map_eq_some_iff.1 h
        obtain ⟨rfl, rfl⟩ : c :: inner = inside ∧ rest = behind := by simpa using heq
        -- The step does not take the bracket at the bottom, which stays the last one awaited.
        obtain ⟨middle, rfl, hstep⟩ : ∃ middle, after = middle ++ [d] ∧
            await (fun _ => true) awaited c = some middle := by
          rcases await_eq_some hafter with ⟨e, he, -, rfl⟩ | ⟨hclose, heq⟩ | ⟨hplain, -, rfl⟩
          · exact ⟨e :: awaited, rfl, await_open _ he fun _ => rfl⟩
          · cases awaited with
            | nil =>
                obtain ⟨rfl, rfl⟩ : d = c ∧ [] = after := by simpa using heq
                exact absurd ⟨rfl, hclose⟩ hend
            | cons x xs =>
                obtain ⟨rfl, rfl⟩ : x = c ∧ xs ++ [d] = after := by simpa using heq
                exact ⟨xs, rfl, await_close _ hclose⟩
          · exact ⟨awaited, rfl, await_plain _ hplain fun _ => rfl⟩
        obtain ⟨rfl, hinside⟩ := ih hinner
        exact ⟨rfl, by rw [awaiting_cons, hstep]; exact hinside⟩

theorem takeGroup_single_eq_some {d : Char} {s inside behind : List Char}
    (h : takeGroup [d] s = some (inside, behind)) : s = inside ++ d :: behind ∧ Balanced inside :=
  @takeGroup_eq_some d [] s inside behind h

/-! ## Cutting at the first parenthesis -/

/-- A text is cut at a parenthesis, whatever the depth. -/
theorem eq_of_cutAtParen? {depth : Nat} {s before behind : List Char}
    (h : cutAtParen? depth s = some (before, behind)) : s = before ++ '(' :: behind := by
  induction s generalizing depth before with
  | nil => cases h
  | cons c s ih =>
      rw [cutAtParen?] at h
      split at h
      · rename_i hcut
        obtain ⟨rfl, rfl⟩ := Prod.mk.inj (Option.some.inj h)
        rw [hcut.1]
        rfl
      · obtain ⟨⟨front, rest⟩, hrest, heq⟩ := Option.map_eq_some_iff.1 h
        obtain ⟨rfl, rfl⟩ := Prod.mk.inj heq
        rw [ih hrest]
        rfl

/-- On brackets that are nested properly the depth that is counted is the number of brackets awaited. -/
theorem cutAtParen?_cons {awaited after : List Char} {c : Char}
    (h : await (fun _ => true) awaited c = some after) (s : List Char) :
    cutAtParen? awaited.length (c :: s) =
      if c = '(' ∧ awaited = [] then some ([], s)
      else (cutAtParen? after.length s).map fun (before, behind) => (c :: before, behind) := by
  rw [cutAtParen?]
  simp only [List.length_eq_zero_iff]
  by_cases hcut : c = '(' ∧ awaited = []
  · simp only [if_pos hcut]
  · simp only [if_neg hcut]
    rcases await_eq_some h with ⟨d, hd, -, rfl⟩ | ⟨hclose, rfl⟩ | ⟨hplain, -, rfl⟩
    · simp [hd]
    · simp [closer?_of_isCloser hclose, hclose]
    · simp [hplain.1, hplain.2]

theorem cutAtParen?_append {awaited after a : List Char} (b : List Char)
    (h : awaiting (· != '(') awaited a = some after) :
    cutAtParen? awaited.length (a ++ b) =
      (cutAtParen? after.length b).map fun (before, behind) => (a ++ before, behind) := by
  induction a generalizing awaited with
  | nil =>
      rw [awaiting_nil] at h
      rw [Option.some.inj h]
      simp
  | cons c a ih =>
      rw [awaiting_cons] at h
      obtain ⟨middle, hmiddle, hrest⟩ := Option.bind_eq_some_iff.1 h
      have hother : ¬ (c = '(' ∧ awaited = []) := by
        rintro ⟨rfl, rfl⟩
        simp [await, closer?] at hmiddle
      have hstep : await (fun _ => true) awaited c = some middle :=
        await_mono (fun _ _ => rfl) hmiddle
      rw [List.cons_append, cutAtParen?_cons hstep, if_neg hother, ih hrest, Option.map_map]
      rfl

/-- The first parenthesis behind a text that has none outside of its brackets. -/
theorem cutAtParen?_outside {a : List Char} (b : List Char) (h : Outside (· != '(') a) :
    cutAtParen? 0 (a ++ '(' :: b) = some (a, b) := by
  have hcut := @cutAtParen?_append [] [] a ('(' :: b) h
  simpa [cutAtParen?] using hcut

/-- The part in front of the first parenthesis has none outside of its brackets. -/
theorem cutAtParen?_eq_some {awaited final s before behind : List Char}
    (hs : awaiting (fun _ => true) awaited s = some final)
    (h : cutAtParen? awaited.length s = some (before, behind)) :
    s = before ++ '(' :: behind ∧ awaiting (· != '(') awaited before = some [] := by
  induction s generalizing awaited before with
  | nil => simp [cutAtParen?] at h
  | cons c s ih =>
      rw [awaiting_cons] at hs
      obtain ⟨middle, hmiddle, hrest⟩ := Option.bind_eq_some_iff.1 hs
      rw [cutAtParen?_cons hmiddle] at h
      by_cases hcut : c = '(' ∧ awaited = []
      · rw [if_pos hcut] at h
        obtain ⟨rfl, rfl⟩ := hcut
        obtain ⟨rfl, rfl⟩ : [] = before ∧ s = behind := by simpa using h
        exact ⟨rfl, rfl⟩
      · rw [if_neg hcut] at h
        obtain ⟨⟨inner, rest⟩, hinner, heq⟩ := Option.map_eq_some_iff.1 h
        obtain ⟨rfl, rfl⟩ : c :: inner = before ∧ rest = behind := by simpa using heq
        -- A parenthesis that is passed over stands inside of brackets.
        have hstep : await (· != '(') awaited c = some middle :=
          await_congr (fun hnil => by simpa using fun hc => hcut ⟨hc, hnil⟩) hmiddle
        obtain ⟨rfl, hbefore⟩ := ih hrest hinner
        exact ⟨rfl, by rw [awaiting_cons, hstep]; exact hbefore⟩

theorem cutAtParen?_zero_eq_some {s before behind : List Char} (hs : Balanced s)
    (h : cutAtParen? 0 s = some (before, behind)) :
    s = before ++ '(' :: behind ∧ Outside (· != '(') before :=
  @cutAtParen?_eq_some [] [] s before behind hs h

end ScriptBindings.CppType
