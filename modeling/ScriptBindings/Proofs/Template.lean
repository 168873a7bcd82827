import Mathlib
import ScriptBindings.Template

/-!
# Templates by their pieces

A template is scanned in turns.  Each turn passes over the text in front of the next brace and takes what
opens there: a doubled brace, a hole, or a brace that stands alone.  The turns of a template do not
depend on any values, there is one way to take them, and there are at most as many of them as braces in
the template.  What is rendered are the pieces that they yield, each shown on its own, so that a value is
never scanned.

Texts with doubled braces and holes with names free of braces can be put together in any order.  What
they show one by one is what their concatenation shows: no brace pairs up with the brace of a neighbour.
-/

namespace ScriptBindings.Template

/-! ## Pieces -/

/-- A piece of a template: text, or a hole to fill. -/
inductive Piece where
  | text (s : List Char)
  | hole (name : List Char)

/-- The characters with which a template says something. -/
def isBrace (c : Char) : Bool :=
  c == '\x7b' || c == '\x7d'

/-- Text without braces. -/
def Plain (s : List Char) : Prop :=
  ∀ c ∈ s, isBrace c = false

/-- How a character of a text is written in a template. -/
def doubled (c : Char) : List Char :=
  if isBrace c then [c, c] else [c]

/-- How a piece is written in a template. -/
def Piece.written : Piece → List Char
  | .text s => s.flatMap doubled
  | .hole name => '\x7b' :: name ++ ['\x7d']

/-- What a piece shows: itself, or the first value for its name, or the hole as it is written. -/
def Piece.shown (values : Values) : Piece → List Char
  | .text s => s
  | .hole name =>
      match values.find? fun value => value.1.toList = name with
      | some value => value.2.toList
      | none => '\x7b' :: name ++ ['\x7d']

variable {values : Values} {s front tail rest name : List Char} {brace : Char} {piece : Piece}

theorem lookup_eq_find? (values : Values) (name : List Char) :
    values.lookup (String.ofList name) = (values.find? fun value => value.1.toList = name).map (·.2) := by
  induction values with
  | nil => rfl
  | cons value values ih =>
      obtain ⟨key, v⟩ := value
      by_cases h : key.toList = name
      · have hkey : (String.ofList name == key) = true := by
          rw [← h, String.ofList_toList, beq_self_eq_true]
        rw [List.lookup, hkey, List.find?_cons_of_pos (by simpa using h)]
        rfl
      · have hkey : (String.ofList name == key) = false := by
          rw [beq_eq_false_iff_ne]
          rintro rfl
          exact h String.toList_ofList
        rw [List.lookup, hkey, List.find?_cons_of_neg (by simpa using h)]
        exact ih

theorem fill_eq (values : Values) (name : List Char) :
    fill values name = (Piece.hole name).shown values := by
  rw [fill, lookup_eq_find?, Piece.shown]
  cases values.find? fun value => value.1.toList = name <;> rfl

/-! ## Turns -/

/-- What opens with a brace: the piece that the brace and the text behind it begin with, and the text that is
left. -/
inductive Opening : Char → List Char → Piece → List Char → Prop
  | doubled (brace : Char) (s : List Char) : Opening brace (brace :: s) (.text [brace]) s
  | hole {name : List Char} (s : List Char) (hsingle : name.head? ≠ some '\x7b') (hname : '\x7d' ∉ name) :
      Opening '\x7b' (name ++ '\x7d' :: s) (.hole name) s
  | alone {brace : Char} {s : List Char} (hsingle : s.head? ≠ some brace)
      (hopen : brace = '\x7b' → '\x7d' ∉ s) : Opening brace s (.text [brace]) s

/-- A template is scanned in a number of turns, which yield pieces. -/
inductive Scan : List Char → Nat → List Piece → Prop
  | done {s : List Char} (h : Plain s) : Scan s 0 [.text s]
  | turn {front tail rest : List Char} {brace : Char} {piece : Piece} {turns : Nat} {pieces : List Piece}
      (hfront : Plain front) (hbrace : isBrace brace = true) (h : Opening brace tail piece rest)
      (hrest : Scan rest turns pieces) :
      Scan (front ++ brace :: tail) (turns + 1) (.text front :: piece :: pieces)

/-- Something opens with every brace. -/
theorem exists_opening (brace : Char) (tail : List Char) :
    ∃ piece rest, Opening brace tail piece rest := by
  by_cases hdouble : tail.head? = some brace
  · obtain ⟨s, rfl⟩ := List.head?_eq_some_iff.1 hdouble
    exact ⟨_, s, .doubled brace s⟩
  by_cases hhole : brace = '\x7b' ∧ '\x7d' ∈ tail
  · obtain ⟨rfl, hclose⟩ := hhole
    obtain ⟨name, s, rfl, hname⟩ := List.eq_append_cons_of_mem hclose
    refine ⟨_, s, .hole s (fun hhead => hdouble ?_) hname⟩
    rw [List.head?_append, hhead]
    rfl
  · exact ⟨_, tail, .alone hdouble fun hopen hclose => hhole ⟨hopen, hclose⟩⟩

theorem Opening.suffix (h : Opening brace tail piece rest) : rest <:+ tail := by
  cases h with
  | doubled => exact List.suffix_cons _ _
  | @hole name s hsingle hname =>
      exact ⟨name ++ ['\x7d'], by rw [List.append_assoc, List.singleton_append]⟩
  | alone => exact List.suffix_rfl

/-- The text in front of the first character of some kind ends at that character. -/
theorem append_cons_inj {p : Char → Bool} {front front' tail tail' : List Char} {c c' : Char}
    (hfront : ∀ d ∈ front, p d = false) (hfront' : ∀ d ∈ front', p d = false) (hc : p c = true)
    (hc' : p c' = true) (h : front ++ c :: tail = front' ++ c' :: tail') :
    front = front' ∧ c = c' ∧ tail = tail' := by
  induction front generalizing front' with
  | nil =>
      cases front' with
      | nil =>
          obtain ⟨rfl, rfl⟩ := List.cons.inj h
          exact ⟨rfl, rfl, rfl⟩
      | cons d front' =>
          obtain ⟨rfl, -⟩ := List.cons.inj h
          rw [hfront' c List.mem_cons_self] at hc
          cases hc
  | cons d front ih =>
      cases front' with
      | nil =>
          obtain ⟨rfl, -⟩ := List.cons.inj h
          rw [hfront d List.mem_cons_self] at hc'
          cases hc'
      | cons e front' =>
          rw [List.cons_append, List.cons_append] at h
          obtain ⟨rfl, hrest⟩ := List.cons.inj h
          obtain ⟨rfl, rfl, rfl⟩ := ih (fun d hd => hfront d (List.mem_cons_of_mem _ hd))
            (fun d hd => hfront' d (List.mem_cons_of_mem _ hd)) hrest
          exact ⟨rfl, rfl, rfl⟩

/-- A hole ends at the first brace that can close it. -/
theorem close_unique {name name' s s' : List Char} (hname : '\x7d' ∉ name) (hname' : '\x7d' ∉ name')
    (h : name ++ '\x7d' :: s = name' ++ '\x7d' :: s') : name = name' ∧ s = s' := by
  have hfree : ∀ t : List Char, '\x7d' ∉ t → ∀ d ∈ t, (d == '\x7d') = false :=
    fun t ht d hd => beq_false_of_ne fun heq => ht (heq ▸ hd)
  obtain ⟨rfl, -, rfl⟩ := append_cons_inj (hfree name hname) (hfree name' hname') rfl rfl h
  exact ⟨rfl, rfl⟩

/-- A hole does not open with a doubled brace. -/
theorem head?_close_ne (hsingle : name.head? ≠ some '\x7b') (s : List Char) :
    (name ++ '\x7d' :: s).head? ≠ some '\x7b' := by
  cases name with
  | nil => exact fun h => absurd (Option.some.inj h) (by decide)
  | cons => exact hsingle

/-- One thing opens with a brace. -/
theorem Opening.unique {piece' : Piece} {rest' : List Char} (h : Opening brace tail piece rest)
    (h' : Opening brace tail piece' rest') : piece = piece' ∧ rest = rest' := by
  cases h with
  | doubled s =>
      generalize htail : brace :: rest = tail at h'
      cases h' with
      | doubled => exact ⟨rfl, (List.cons.inj htail).2⟩
      | hole _ hsingle => exact absurd (by rw [← htail]; rfl) (head?_close_ne hsingle rest')
      | alone hsingle => exact absurd (by rw [← htail]; rfl) hsingle
  | @hole name s hsingle hname =>
      generalize htail : name ++ '\x7d' :: rest = tail at h'
      cases h' with
      | doubled => exact absurd (by rw [htail]; rfl) (head?_close_ne hsingle rest)
      | hole s' _ hname' =>
          obtain ⟨rfl, rfl⟩ := close_unique hname hname' htail
          exact ⟨rfl, rfl⟩
      | alone _ hopen => exact absurd (by rw [← htail]; simp) (hopen rfl)
  | alone hsingle hopen =>
      cases h' with
      | doubled => exact absurd rfl hsingle
      | hole => exact absurd (by simp) (hopen rfl)
      | alone => exact ⟨rfl, rfl⟩

theorem exists_split (s : List Char) :
    Plain s ∨ ∃ front brace tail, s = front ++ brace :: tail ∧ Plain front ∧ isBrace brace = true := by
  induction s with
  | nil => exact .inl fun c hc => absurd hc List.not_mem_nil
  | cons c s ih =>
      cases hc : isBrace c with
      | true => exact .inr ⟨[], c, s, rfl, fun d hd => absurd hd List.not_mem_nil, hc⟩
      | false =>
          rcases ih with hplain | ⟨front, brace, tail, rfl, hfront, hbrace⟩
          · exact .inl (List.forall_mem_cons.2 ⟨hc, hplain⟩)
          · exact .inr ⟨c :: front, brace, tail, rfl, List.forall_mem_cons.2 ⟨hc, hfront⟩, hbrace⟩

/-- Every template is scanned, in at most as many turns as it has braces. -/
theorem exists_scan (s : List Char) :
    ∃ turns pieces, turns ≤ s.countP isBrace ∧ Scan s turns pieces := by
  induction hlength : s.length using Nat.strong_induction_on generalizing s with
  | h length ih => ?_
  obtain hplain | ⟨front, brace, tail, rfl, hfront, hbrace⟩ := exists_split s
  · exact ⟨0, _, Nat.zero_le _, .done hplain⟩
  obtain ⟨piece, rest, hopening⟩ := exists_opening brace tail
  have hshorter : rest.length < length := by
    have hsuffix := hopening.suffix.length_le
    rw [← hlength, List.length_append, List.length_cons]
    omega
  obtain ⟨turns, pieces, hturns, hscan⟩ := ih _ hshorter rest rfl
  -- Each turn is at a brace in front of what the later turns see.
  refine ⟨turns + 1, _, ?_, .turn hfront hbrace hopening hscan⟩
  calc
    turns + 1 ≤ rest.countP isBrace + 1 := Nat.add_le_add_right hturns 1
    _ ≤ tail.countP isBrace + 1 := Nat.add_le_add_right (hopening.suffix.sublist.countP_le) 1
    _ = (brace :: tail).countP isBrace := (List.countP_cons_of_pos hbrace).symm
    _ ≤ (front ++ brace :: tail).countP isBrace := (List.sublist_append_right ..).countP_le

/-- There is one way to scan a template. -/
theorem Scan.unique {turns turns' : Nat} {pieces pieces' : List Piece} (h : Scan s turns pieces)
    (h' : Scan s turns' pieces') : turns = turns' ∧ pieces = pieces' := by
  induction h generalizing turns' pieces' with
  | done hplain =>
      cases h' with
      | done => exact ⟨rfl, rfl⟩
      | @turn front _ _ brace _ _ _ _ hbrace =>
          rw [hplain brace (by simp)] at hbrace
          cases hbrace
  | @turn front tail rest brace piece turns pieces hfront hbrace hopening _ ih =>
      generalize hs : front ++ brace :: tail = s at h'
      cases h' with
      | done hplain =>
          rw [hplain brace (by rw [← hs]; simp)] at hbrace
          cases hbrace
      | turn hfront' hbrace' hopening' hrest' =>
          obtain ⟨rfl, rfl, rfl⟩ := append_cons_inj hfront hfront' hbrace hbrace' hs
          obtain ⟨rfl, rfl⟩ := hopening.unique hopening'
          obtain ⟨rfl, rfl⟩ := ih hrest'
          exact ⟨rfl, rfl⟩

/-! ## Rendering -/

/-- A character that is not doubled opens a hole if it can, and else stands for itself. -/
theorem renderChars_single {c : Char} (hsingle : isBrace c = true → s.head? ≠ some c) :
    renderChars values none (c :: s) =
      if c = '\x7b' ∧ '\x7d' ∈ s then renderChars values (some []) s
      else c :: renderChars values none s := by
  rw [renderChars]
  · rintro s' rfl rfl
    exact hsingle rfl rfl
  · rintro s' rfl rfl
    exact hsingle rfl rfl

theorem renderChars_plain (hfront : Plain front) (s : List Char) :
    renderChars values none (front ++ s) = front ++ renderChars values none s := by
  induction front with
  | nil => rfl
  | cons c front ih =>
      obtain ⟨hc, hfront⟩ := List.forall_mem_cons.1 hfront
      have hopen : ¬(c = '\x7b' ∧ '\x7d' ∈ front ++ s) := by
        rintro ⟨rfl, -⟩
        cases hc
      rw [List.cons_append, renderChars_single fun hbrace => absurd hbrace (by simp [hc]), if_neg hopen,
        ih hfront, List.cons_append]

theorem renderChars_doubled (hbrace : isBrace brace = true) (s : List Char) :
    renderChars values none (brace :: brace :: s) = brace :: renderChars values none s := by
  obtain rfl | rfl : brace = '\x7b' ∨ brace = '\x7d' := by simpa [isBrace] using hbrace
  · rw [renderChars]
  · rw [renderChars]

/-- Inside of a hole, the name is read up to the first brace that closes it. -/
theorem renderChars_name (hname : '\x7d' ∉ name) (read s : List Char) :
    renderChars values (some read) (name ++ '\x7d' :: s) =
      fill values (read.reverse ++ name) ++ renderChars values none s := by
  induction name generalizing read with
  | nil => rw [List.nil_append, renderChars, if_pos rfl, List.append_nil]
  | cons c name ih =>
      obtain ⟨hc, hname⟩ := not_or.1 (List.mem_cons.not.1 hname)
      rw [List.cons_append, renderChars, if_neg (Ne.symm hc), ih hname, List.reverse_cons, List.append_assoc,
        List.singleton_append]

/-- A hole is filled, and nothing of what fills it is scanned. -/
theorem renderChars_hole (hsingle : name.head? ≠ some '\x7b') (hname : '\x7d' ∉ name) (s : List Char) :
    renderChars values none ('\x7b' :: (name ++ '\x7d' :: s)) =
      (Piece.hole name).shown values ++ renderChars values none s := by
  have hopen : '\x7b' = '\x7b' ∧ '\x7d' ∈ name ++ '\x7d' :: s := ⟨rfl, by simp⟩
  rw [renderChars_single fun _ => head?_close_ne hsingle s, if_pos hopen, renderChars_name hname, fill_eq,
    List.reverse_nil, List.nil_append]

/-- What opens with a brace shows its piece, whatever is left behind it. -/
theorem Opening.render (h : Opening brace tail piece rest) (hbrace : isBrace brace = true)
    (values : Values) :
    renderChars values none (brace :: tail) = piece.shown values ++ renderChars values none rest := by
  cases h with
  | doubled => exact renderChars_doubled hbrace rest
  | hole _ hsingle hname => exact renderChars_hole hsingle hname rest
  | alone hsingle hopen =>
      have hnot : ¬(brace = '\x7b' ∧ '\x7d' ∈ tail) := fun h => hopen h.1 h.2
      rw [renderChars_single fun _ => hsingle, if_neg hnot, Piece.shown, List.singleton_append]

/-- What is rendered are the pieces of the turns, each shown on its own. -/
theorem Scan.render {turns : Nat} {pieces : List Piece} (h : Scan s turns pieces) (values : Values) :
    renderChars values none s = pieces.flatMap (Piece.shown values) := by
  induction h with
  | @done s hplain =>
      have hs : renderChars values none (s ++ []) = s ++ renderChars values none [] :=
        renderChars_plain hplain []
      rw [List.append_nil, renderChars, List.append_nil] at hs
      rw [hs, List.flatMap_singleton, Piece.shown]
  | turn hfront hbrace hopening _ ih =>
      rw [renderChars_plain hfront, hopening.render hbrace, ih, List.flatMap_cons, List.flatMap_cons,
        Piece.shown]

/-! ## Putting pieces together -/

theorem renderChars_doubled_text (text s : List Char) :
    renderChars values none (text.flatMap doubled ++ s) = text ++ renderChars values none s := by
  induction text with
  | nil => rfl
  | cons c text ih =>
      cases hc : isBrace c with
      | true =>
          rw [List.flatMap_cons, doubled, hc, if_pos rfl, List.append_assoc, List.cons_append,
            List.singleton_append, renderChars_doubled hc, ih]
          rfl
      | false =>
          have hplain : Plain [c] := List.forall_mem_singleton.2 hc
          rw [List.flatMap_cons, doubled, hc, if_neg Bool.false_ne_true, List.append_assoc,
            renderChars_plain hplain, ih]
          rfl

/-- A written piece shows itself, whatever is written behind it. -/
theorem Piece.render_written (hname : ∀ name, piece = .hole name → Plain name) (s : List Char) :
    renderChars values none (piece.written ++ s) = piece.shown values ++ renderChars values none s := by
  cases piece with
  | text t => exact renderChars_doubled_text t s
  | hole name =>
      have hplain : Plain name := hname name rfl
      have hsingle : name.head? ≠ some '\x7b' :=
        fun h => absurd (hplain _ (List.mem_of_mem_head? h)) (by decide)
      have hclose : '\x7d' ∉ name := fun h => absurd (hplain _ h) (by decide)
      rw [Piece.written, List.append_assoc, List.cons_append, List.singleton_append]
      exact renderChars_hole hsingle hclose s

theorem renderChars_written {pieces : List Piece}
    (hnames : ∀ name, .hole name ∈ pieces → Plain name) :
    renderChars values none (pieces.flatMap Piece.written) = pieces.flatMap (Piece.shown values) := by
  induction pieces with
  | nil => rfl
  | cons piece pieces ih =>
      have hpiece : ∀ name, piece = .hole name → Plain name :=
        fun name h => hnames name (h ▸ List.mem_cons_self)
      have htail : ∀ name, .hole name ∈ pieces → Plain name :=
        fun name h => hnames name (List.mem_cons_of_mem _ h)
      rw [List.flatMap_cons, Piece.render_written hpiece, ih htail, List.flatMap_cons]

/-- Pieces that are put together show what they show one by one: texts are themselves, and a hole is the
first value for its name or, without one, the hole as it is written.  Every template has its pieces: it is
scanned in turns, in one way and in no more turns than it has braces, and whatever the values are, these
pieces are what it shows. -/
theorem render_eq_shown (pieces : List Piece) (values : Values) (template : String) :
    ((∀ name, .hole name ∈ pieces → Plain name) →
      render (String.ofList (pieces.flatMap Piece.written)) values =
        String.ofList (pieces.flatMap (Piece.shown values))) ∧
    ∃ turns found, turns ≤ template.toList.countP isBrace ∧ Scan template.toList turns found ∧
      (∀ turns' found', Scan template.toList turns' found' → turns' = turns ∧ found' = found) ∧
      ∀ values, render template values = String.ofList (found.flatMap (Piece.shown values)) := by
  refine ⟨fun hnames => ?_, ?_⟩
  · rw [render, String.toList_ofList, renderChars_written hnames]
  · obtain ⟨turns, found, hturns, hscan⟩ := exists_scan template.toList
    refine ⟨turns, found, hturns, hscan, fun _ _ hscan' => hscan'.unique hscan, fun values => ?_⟩
    rw [render, hscan.render values]

/-- A text that ends in a brace in front of a hole, and one that begins with a brace behind it: the hole is
filled with the first of two values, which looks like a hole itself, and a hole without a value is kept. -/
theorem render_eq_shown_neighbours :
    (∀ name, .hole name ∈ [Piece.text ['f', '\x7b'], .hole ['x'], .text ['\x7d'], .hole ['y']] →
      Plain name) ∧
    render "f\x7b\x7b\x7bx\x7d\x7d\x7d\x7by\x7d" [("x", "\x7by\x7d"), ("x", "1")] =
      "f\x7b\x7by\x7d\x7d\x7by\x7d" := by
  have hnames :
      ∀ name, .hole name ∈ [Piece.text ['f', '\x7b'], .hole ['x'], .text ['\x7d'], .hole ['y']] →
        Plain name := by
    intro name hname
    obtain rfl | rfl : name = ['x'] ∨ name = ['y'] := by simpa using hname
    · exact List.forall_mem_singleton.2 rfl
    · exact List.forall_mem_singleton.2 rfl
  refine ⟨hnames, ?_⟩
  simpa [Piece.written, Piece.shown, doubled, isBrace] using
    (render_eq_shown _ [("x", "\x7by\x7d"), ("x", "1")] "").1 hnames

end ScriptBindings.Template
