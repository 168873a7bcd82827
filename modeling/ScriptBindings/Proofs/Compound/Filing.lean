import Mathlib
import ScriptBindings.Proofs.CppType.Legible
import ScriptBindings.Proofs.Compound.PureVirtual
import ScriptBindings.Proofs.Name.Segments

/-!
# Where a class with template arguments is filed

The name of a specialised class is its scope, its own name and its template arguments.  Scope and name are told
apart at the last `::` of the whole text.  Where the arguments have no `::`, this is the one in front of the name:
the class is filed under its scope, and its constructors are the public members with its name that are read.
Where they have one, the cut goes through the arguments.
-/

namespace ScriptBindings

namespace Name

variable {a b : List Char} {name : String}

/-! ## Names with template arguments -/

/-- Behind a scope, two colons stand in the arguments of the name only. -/
theorem colons_infix_arguments_iff (hname : ':' ∉ a) :
    [':', ':'] <:+: ':' :: (a ++ '<' :: (b ++ ['>'])) ↔ [':', ':'] <:+: b := by
  rw [← List.cons_append, colons_infix_append_cons_iff (by decide), colons_infix_append_cons_iff (by decide),
    or_iff_right (not_infix_colons hname ':')]
  simp

theorem withoutTemplateArgs_append (h : CppType.isIdentifier name.toList = true) (rest : String) :
    withoutTemplateArgs (name ++ "<" ++ rest) = name := by
  have hident := CppType.isIdentChar_of_isIdentifier h
  have hopen : ∀ c ∈ name.toList, decide (c ≠ '<') = true := by
    rintro c hc
    refine decide_eq_true ?_
    rintro rfl
    cases hident '<' hc
  have htake : (name ++ "<" ++ rest).toList.takeWhile (· ≠ '<') = name.toList := by
    rw [String.toList_append, String.toList_append, List.append_assoc, List.takeWhile_append_of_pos hopen]
    exact List.append_nil _
  have htrim : Text.trimEnd name.toList = name.toList :=
    Text.trimEnd_eq_self fun c hc => CppType.isBlank_of_isIdentChar (hident c (List.mem_of_mem_getLast? hc))
  rw [withoutTemplateArgs, htake, htrim, String.ofList_toList]

variable {scope args front back : String}

/-- Without two colons in the arguments, the last ones stand in front of the name. -/
theorem parentScope_lastSegment_specialised (hname : ':' ∉ name.toList)
    (hargs : ¬ [':', ':'] <:+: args.toList) :
    parentScope (scope ++ "::" ++ (name ++ "<" ++ args ++ ">")) = scope ∧
      lastSegment (scope ++ "::" ++ (name ++ "<" ++ args ++ ">")) = name ++ "<" ++ args ++ ">" := by
  refine parentScope_lastSegment_append ?_
  simpa [colons_infix_arguments_iff hname] using hargs

/-- Otherwise the last ones stand in the arguments. -/
theorem parentScope_lastSegment_arguments (hback : ¬ [':', ':'] <:+: ':' :: back.toList) :
    parentScope (scope ++ "::" ++ (name ++ "<" ++ (front ++ "::" ++ back) ++ ">")) =
        scope ++ "::" ++ name ++ "<" ++ front ∧
      lastSegment (scope ++ "::" ++ (name ++ "<" ++ (front ++ "::" ++ back) ++ ">")) = back ++ ">" := by
  have hparts : scope ++ "::" ++ (name ++ "<" ++ (front ++ "::" ++ back) ++ ">") =
      (scope ++ "::" ++ name ++ "<" ++ front) ++ "::" ++ (back ++ ">") := by
    simp only [String.append_assoc]
  rw [hparts]
  refine parentScope_lastSegment_append ?_
  have hend : ¬ [':', ':'] <:+: ':' :: back.toList ++ ['>'] := by
    rw [colons_infix_append_cons_iff (by decide)]
    simpa using hback
  rw [String.toList_append]
  exact hend

/-- A scope that ends in the arguments is longer than the scope in front of the name. -/
theorem parentScope_ne_of_colons (hargs : [':', ':'] <:+: args.toList) :
    parentScope (scope ++ "::" ++ (name ++ "<" ++ args ++ ">")) ≠ scope := by
  cases hcut : Text.cutLast? [':', ':'] args.toList with
  | none => exact absurd hargs ((Text.cutLast?_eq_none_iff (List.cons_ne_nil _ _)).1 hcut)
  | some parts =>
      obtain ⟨hsplit, hback⟩ := (Text.cutLast?_eq_some_iff (List.cons_ne_nil _ _)).1 hcut
      have hjoin : args = String.ofList parts.1 ++ "::" ++ String.ofList parts.2 :=
        String.toList_injective (by simpa using hsplit)
      rw [hjoin, (parentScope_lastSegment_arguments (by simpa using hback)).1]
      intro heq
      have hlength := congrArg String.length heq
      have htwo : "::".length = 2 := by decide
      simp only [String.length_append] at hlength
      omega

end Name

namespace Compound

/-! ## Members that are constructors -/

/-- A callable that a member is read as, with whatever flags. -/
def ReadAs (s : Setting) (place : Place) (member : Xml.Element) (f : Callable) : Prop :=
  ∃ flags, callableSlot s place member flags = .ok (.concrete f)

instance (s : Setting) (place : Place) (e : Xml.Element) : Decidable (memberType s place e = .ok none) :=
  match memberType s place e with
  | .ok none => isTrue rfl
  | .ok (some _) => isFalse nofun
  | .error _ => isFalse nofun

instance (s : Setting) (place : Place) (member : Xml.Element) : Decidable (IsReadable s place member) :=
  decidable_of_iff' _ (isReadable_iff s place member)

/-- A public function with a name that can be read as a callable. -/
def IsPublicCallable (s : Setting) (place : Place) (name : String) (member : Xml.Element) : Prop :=
  member.attr? "kind" = some "function" ∧ visibilityOf (member.attr? "prot") = .pub ∧
    member.childText "name" = name ∧ IsReadable s place member

instance (s : Setting) (place : Place) (name : String) (member : Xml.Element) :
    Decidable (IsPublicCallable s place name member) :=
  inferInstanceAs (Decidable (_ ∧ _ ∧ _ ∧ _))

section Members

variable {s : Setting} {place : Place} {fqn : String} {ctx ctx' : FlagContext} {found : List ClassMember}
  {members : List Xml.Element}

/-- The functions that can be read are declared, in document order. -/
theorem forall₂_declaredIn (h : readClassMembers s place fqn ctx members = .ok (found, ctx')) :
    List.Forall₂ (fun member d => ∃ ctx, declared? s place ctx member = some d)
      (members.filter fun member => member.attr? "kind" = some "function" ∧ IsReadable s place member)
      (declaredIn s place fqn ctx members) := by
  induction members generalizing ctx found with
  | nil => exact .nil
  | cons member rest ih =>
      obtain ⟨here, after, later, hhere, hlater, rfl⟩ := readClassMembers_cons_eq_ok_iff.1 h
      rw [declaredIn, hhere]
      by_cases hread : member.attr? "kind" = some "function" ∧ IsReadable s place member
      · obtain ⟨d, hd⟩ := exists_declared? hhere hread.1 hread.2
        rw [List.filter_cons, if_pos (decide_eq_true hread), hd]
        exact .cons ⟨ctx, hd⟩ (ih hlater)
      · have hnone : declared? s place ctx member = none := by
          rw [Option.eq_none_iff_forall_ne_some]
          intro d hd
          obtain ⟨-, hfunction, hreadable, -⟩ := declared?_faithful hd
          exact hread ⟨hfunction, hreadable⟩
        rw [List.filter_cons, if_neg (by simpa using hread), hnone]
        exact ih hlater

/-- The constructors' shelf is filled with what public functions of the class's name are read as. -/
theorem forall₂_shelved_constructors (short : String)
    (h : readClassMembers s place fqn ctx members = .ok (found, ctx')) :
    List.Forall₂ (ReadAs s place) (members.filter fun member => IsPublicCallable s place short member)
      (shelved short .constructors (declaredIn s place fqn ctx members)) := by
  -- Being readable decides what is declared; the name and the visibility decide on the shelf.
  have hsplit : (members.filter fun member => IsPublicCallable s place short member) =
      (members.filter fun member =>
        member.attr? "kind" = some "function" ∧ IsReadable s place member).filter fun member =>
          member.childText "name" = short ∧ visibilityOf (member.attr? "prot") = .pub := by
    rw [List.filter_filter]
    refine List.filter_congr fun member _ => ?_
    rw [← Bool.decide_and, decide_eq_decide]
    unfold IsPublicCallable
    tauto
  rw [hsplit, shelved, List.forall₂_map_right_iff]
  refine List.Forall₂.imp ?_ (List.rel_filter ?_ (forall₂_declaredIn h))
  · rintro member d ⟨ctx, hd⟩
    exact ⟨_, (declared?_inv hd).2.2.1⟩
  · rintro member d ⟨ctx, hd⟩
    obtain ⟨rfl, -, -, hname, -⟩ := declared?_faithful hd
    show decide _ = true ↔ decide _ = true
    rw [decide_eq_true_iff, decide_eq_true_iff, ← hname, ← d.isExposed_iff, Declared.shelf]
    split
    · exact iff_of_true ‹_› rfl
    · refine iff_of_false ‹_› ?_
      split
      · exact Shelf.noConfusion
      · split <;> exact Shelf.noConfusion

end Members

/-! ## Documents of specialised classes -/

/-- The class of a document is filed under the two parts of its name. -/
theorem scope_name_of_addRoot {s : Setting} {x y : Extraction} {root compound : Xml.Element}
    (hcompound : documentedClass? root = some compound)
    (hskipped : isSkippedClass x.db compound = false) (h : x.addRoot s root = .ok y) :
    ∃ c, y.db.classes.get? (compound.childText "compoundname") = some c ∧
      c.scope = Name.parentScope (compound.childText "compoundname") ∧
      c.name = Name.lastSegment (compound.childText "compoundname") ∧
      List.Forall₂ (ReadAs s (classPlace (compound.childText "compoundname") (templateParams compound)))
        ((members compound).filter fun member => IsPublicCallable s
          (classPlace (compound.childText "compoundname") (templateParams compound))
          (Name.withoutTemplateArgs c.name) member)
        c.constructors := by
  obtain ⟨header, found, hheader, hmemberless, hfound, hdb⟩ :=
    readClass_inv (readClass_of_addRoot hcompound hskipped h)
  obtain ⟨-, -, hplace⟩ := header_of_readClassHeader hheader
  have hscope : (assembleClass header found).scope = header.scope :=
    foldl_unchanged (f := Class.scope) (by rintro c (_ | _ | _ | _ | _ | _ | _ | _) <;> rfl) _ _
  have hname : (assembleClass header found).name = header.name :=
    foldl_unchanged (f := Class.name) (by rintro c (_ | _ | _ | _ | _ | _ | _ | _) <;> rfl) _ _
  have hlast : header.name = Name.lastSegment (compound.childText "compoundname") :=
    Option.some.inj (congrArg Place.owner hplace)
  refine ⟨assembleClass header found, ?_, hscope.trans (congrArg Place.scope hplace), hname.trans hlast, ?_⟩
  · rw [hdb, Dict.get?_insert, if_pos rfl]
  · rw [hname, hlast, (bring_readClassMembers hfound).constructors hmemberless]
    exact forall₂_shelved_constructors _ hfound

/-- A class whose name has template arguments is filed under its scope and with its own name if and only if no `::`
stands in the arguments, and then its constructors are what the public functions of its name are read as.  Otherwise
its scope ends at the last `::` of the arguments. -/
theorem filed_of_addRoot {s : Setting} {x y : Extraction} {root compound : Xml.Element}
    {scope name args : String} (hcompound : documentedClass? root = some compound)
    (hskipped : isSkippedClass x.db compound = false)
    (hname : CppType.isIdentifier name.toList = true)
    (hfqn : compound.childText "compoundname" = scope ++ "::" ++ (name ++ "<" ++ args ++ ">"))
    (h : x.addRoot s root = .ok y) :
    ∃ c, y.db.classes.get? (compound.childText "compoundname") = some c ∧
      (c.scope = scope ∧ c.name = name ++ "<" ++ args ++ ">" ↔ ¬ [':', ':'] <:+: args.toList) ∧
      (¬ [':', ':'] <:+: args.toList → List.Forall₂
        (ReadAs s ⟨scope, some (name ++ "<" ++ args ++ ">"), templateParams compound⟩)
        ((members compound).filter fun member => IsPublicCallable s
          ⟨scope, some (name ++ "<" ++ args ++ ">"), templateParams compound⟩ name member)
        c.constructors) ∧
      ∀ front back, args = front ++ "::" ++ back → ¬ [':', ':'] <:+: ':' :: back.toList →
        c.scope = scope ++ "::" ++ name ++ "<" ++ front ∧ c.name = back ++ ">" := by
  obtain ⟨c, hc, hscope, hlast, hconstructors⟩ := scope_name_of_addRoot hcompound hskipped h
  have hcolon : ':' ∉ name.toList := fun hmem => by
    cases CppType.isIdentChar_of_isIdentifier hname ':' hmem
  rw [hfqn] at hscope hlast
  refine ⟨c, hc, ⟨?_, fun hplain => ?_⟩, fun hplain => ?_, ?_⟩
  · rintro ⟨hfiled, -⟩ hinside
    exact Name.parentScope_ne_of_colons hinside (hscope.symm.trans hfiled)
  · rw [hscope, hlast]
    exact Name.parentScope_lastSegment_specialised hcolon hplain
  · obtain ⟨hparent, hown⟩ := Name.parentScope_lastSegment_specialised hcolon hplain
    have hshort : Name.withoutTemplateArgs (name ++ "<" ++ args ++ ">") = name := by
      rw [String.append_assoc, Name.withoutTemplateArgs_append hname]
    rwa [classPlace, hlast, hfqn, hparent, hown, hshort] at hconstructors
  · rintro front back rfl hback
    rw [hscope, hlast]
    exact Name.parentScope_lastSegment_arguments hback

/-- A specialised class with constructors that are public, protected, and not readable, and with a method. -/
def specialisedClass (args : String) : Xml.Element :=
  ⟨"compounddef", [("id", "classns_1_1Box"), ("kind", "class"), ("prot", "public")], [
    .element ⟨"compoundname", [], [.text ("ns::Box<" ++ args ++ ">")]⟩,
    .element ⟨"sectiondef", [], [
      .element (functionElement "public" "b1" "" "Box"),
      .element (functionElement "protected" "b2" "" "Box"),
      .element (functionElement "public" "b3" "enable_if_t< N > 0 >" "Box"),
      .element (functionElement "public" "b4" "int" "get")]⟩,
    .element ⟨"location", [("file", "box.h"), ("line", "1")], []⟩]⟩

/-- The document of the specialised class. -/
def specialisedDocument (args : String) : Xml.Element :=
  ⟨"doxygen", [], [.element (specialisedClass args)]⟩

theorem filed_of_addRoot_pair : ∃ y c,
    (Extraction.start .empty).addRoot ⟨.empty, "/project"⟩ (specialisedDocument " Pair< int, T[] > * ") = .ok y ∧
      y.db.classes.get? "ns::Box< Pair< int, T[] > * >" = some c ∧ c.scope = "ns" ∧
      c.name = "Box< Pair< int, T[] > * >" ∧ c.constructors.length = 1 := by
  obtain ⟨y, hread⟩ := exists_of_isOk (x := (Extraction.start .empty).addRoot ⟨.empty, "/project"⟩
    (specialisedDocument " Pair< int, T[] > * ")) (by decide +kernel)
  have hplain : ¬ [':', ':'] <:+: " Pair< int, T[] > * ".toList := by decide
  have hfqn : (specialisedClass " Pair< int, T[] > * ").childText "compoundname" =
      "ns" ++ "::" ++ ("Box" ++ "<" ++ " Pair< int, T[] > * " ++ ">") := by decide +kernel
  obtain ⟨c, hc, hfiled, hconstructors, -⟩ :=
    filed_of_addRoot rfl (by decide +kernel) (by decide) hfqn hread
  have hfilter : ((members (specialisedClass " Pair< int, T[] > * ")).filter fun member =>
      IsPublicCallable ⟨.empty, "/project"⟩ ⟨"ns", some "Box< Pair< int, T[] > * >", []⟩ "Box"
        member).length = 1 := by decide +kernel
  obtain ⟨hscope, hname⟩ := hfiled.2 hplain
  exact ⟨y, c, hread, hc, hscope, hname, (hconstructors hplain).length_eq.symm.trans hfilter⟩

/-- The cut goes through an argument that is qualified. -/
theorem not_filed_of_addRoot : ¬ ∀ (s : Setting) (x y : Extraction) (root compound : Xml.Element)
    (scopes : List String) (name args : String) (c : Class), documentedClass? root = some compound →
      isSkippedClass x.db compound = false → x.addRoot s root = .ok y → scopes ≠ [] →
      (∀ part ∈ scopes, CppType.isIdentifier part.toList = true) →
      CppType.isIdentifier name.toList = true → CppType.Balanced args.toList →
      compound.childText "compoundname" = Name.joinScopes scopes ++ "::" ++ (name ++ "<" ++ args ++ ">") →
      y.db.classes.get? (compound.childText "compoundname") = some c →
      c.scope = Name.joinScopes scopes ∧ c.name = name ++ "<" ++ args ++ ">" := by
  intro hall
  obtain ⟨y, hread, hclass⟩ := exists_of_any_toOption
    (x := (Extraction.start .empty).addRoot ⟨.empty, "/project"⟩ (specialisedDocument "std::string"))
    (p := fun y => (y.db.classes.get? "ns::Box<std::string>").any fun c => c.scope = "ns::Box<std")
    (by decide +kernel)
  obtain ⟨c, hc, hscope⟩ := (Option.any_eq_true _ _).1 hclass
  have hfiled := hall _ _ y (specialisedDocument "std::string") _ ["ns"] "Box" "std::string" c rfl
    (by decide +kernel) hread (by decide) (by decide) (by decide) rfl (by decide +kernel) hc
  rw [of_decide_eq_true hscope] at hfiled
  exact absurd hfiled.1 (by decide)

end Compound

end ScriptBindings
