import Mathlib
import ScriptBindings.Compound.Extraction
import ScriptBindings.Proofs.Directive.Elsewhere

/-!
# A document without one of its members

The members of a compound stand in sections, among other content, and so does the compound in its document.
A gap is a place for a member: the document around it can be filled with the member, or be left without it.
Everything but the list of members is the same in both, and the list misses just the one.
-/

namespace ScriptBindings

namespace Xml

/-! ## Elements with a hole -/

/-- An element but for a part of its content. -/
structure Hole where
  tag : String
  attrs : List (String × String)
  before : List Node
  after : List Node

/-- The element with some content in its hole. -/
def Hole.fill (h : Hole) (filling : List Node) : Element :=
  ⟨h.tag, h.attrs, h.before ++ (filling ++ h.after)⟩

/-- The elements with a tag in some content, not those inside of them. -/
def tagged (tag : String) (content : List Node) : List Element :=
  (content.filterMap Node.element?).filter fun e => e.tag = tag

theorem tagged_append (tag : String) (front back : List Node) :
    tagged tag (front ++ back) = tagged tag front ++ tagged tag back := by
  rw [tagged, List.filterMap_append, List.filter_append]
  rfl

theorem tagged_singleton {tag : String} {e : Element} (h : e.tag = tag) :
    tagged tag [.element e] = [e] := by
  simp [tagged, Node.element?, h]

theorem tagged_singleton_of_ne {tag : String} {e : Element} (h : e.tag ≠ tag) :
    tagged tag [.element e] = [] := by
  simp [tagged, Node.element?, h]

theorem children_fill (h : Hole) (filling : List Node) (tag : String) :
    (h.fill filling).children tag = tagged tag h.before ++ (tagged tag filling ++ tagged tag h.after) := by
  rw [← tagged_append, ← tagged_append]
  rfl

/-- A child leaves a hole. -/
theorem exists_fill_of_mem_children {e c : Element} {tag : String} (h : c ∈ e.children tag) :
    ∃ hole : Hole, e = hole.fill [.element c] ∧ c.tag = tag := by
  obtain ⟨hmem, htag⟩ := List.mem_filter.1 h
  obtain ⟨n, hn, hc⟩ := List.mem_filterMap.1 hmem
  obtain rfl : n = .element c := by
    cases n with
    | element d => rw [Option.some.inj hc]
    | text s => cases hc
  obtain ⟨name, attrs, content⟩ := e
  obtain ⟨before, after, rfl⟩ := List.append_of_mem hn
  exact ⟨⟨name, attrs, before, after⟩, rfl, of_decide_eq_true htag⟩

/-- The first element with a tag stands behind content without such elements. -/
theorem exists_split_of_head? {tag : String} {content : List Node} {c : Element}
    (h : (tagged tag content).head? = some c) :
    ∃ before after, content = before ++ .element c :: after ∧ c.tag = tag ∧
      tagged tag before = [] := by
  induction content with
  | nil => cases h
  | cons n rest ih =>
      -- A node without the tag stands in front of the element that the rest begins with.
      have hskip : tagged tag [n] = [] → ∃ before after,
          n :: rest = before ++ .element c :: after ∧ c.tag = tag ∧ tagged tag before = [] := by
        intro hn
        rw [← List.singleton_append, tagged_append, hn, List.nil_append] at h
        obtain ⟨before, after, rfl, htag, hbefore⟩ := ih h
        refine ⟨n :: before, after, rfl, htag, ?_⟩
        rw [← List.singleton_append, tagged_append, hn, hbefore, List.nil_append]
      cases n with
      | text s => exact hskip rfl
      | element d =>
          by_cases hd : d.tag = tag
          · rw [← List.singleton_append, tagged_append, tagged_singleton hd] at h
            obtain rfl : d = c := Option.some.inj h
            exact ⟨[], rest, rfl, hd, rfl⟩
          · exact hskip (tagged_singleton_of_ne hd)

/-- The first child with a tag leaves a hole behind content without such elements. -/
theorem exists_fill_of_child? {e c : Element} {tag : String} (h : e.child? tag = some c) :
    ∃ hole : Hole, e = hole.fill [.element c] ∧ c.tag = tag ∧ tagged tag hole.before = [] := by
  obtain ⟨name, attrs, content⟩ := e
  obtain ⟨before, after, rfl, htag, hbefore⟩ := exists_split_of_head? h
  exact ⟨⟨name, attrs, before, after⟩, rfl, htag, hbefore⟩

/-- The first child is the one in the hole, if there is none before. -/
theorem child?_fill {h : Hole} {tag : String} {c : Element} (hc : c.tag = tag)
    (hbefore : tagged tag h.before = []) : (h.fill [.element c]).child? tag = some c := by
  unfold Element.child?
  rw [children_fill, hbefore, tagged_singleton hc]
  rfl

end Xml

namespace Compound

open Xml (Hole tagged)

/-! ## Gaps -/

/-- A place for a member in a document: a document with a hole for its compound, a compound with a hole for a
section, and a section with a hole for a member. -/
structure Gap where
  root : Hole
  compound : Hole
  group : Hole
  isCompound : compound.tag = "compounddef"
  isGroup : group.tag = "sectiondef"
  first : tagged "compounddef" root.before = []

namespace Gap

/-- The compound with some content in the gap. -/
def compoundWith (g : Gap) (filling : List Xml.Node) : Xml.Element :=
  g.compound.fill [.element (g.group.fill filling)]

/-- The document with some content in the gap. -/
def document (g : Gap) (filling : List Xml.Node) : Xml.Element :=
  g.root.fill [.element (g.compoundWith filling)]

theorem child?_document (g : Gap) (filling : List Xml.Node) :
    (g.document filling).child? "compounddef" = some (g.compoundWith filling) :=
  Xml.child?_fill g.isCompound g.first

/-- The members before the gap. -/
def before (g : Gap) : List Xml.Element :=
  (tagged "sectiondef" g.compound.before).flatMap (·.children "memberdef") ++
    tagged "memberdef" g.group.before

/-- The members behind the gap. -/
def after (g : Gap) : List Xml.Element :=
  tagged "memberdef" g.group.after ++
    (tagged "sectiondef" g.compound.after).flatMap (·.children "memberdef")

theorem members_compoundWith (g : Gap) (filling : List Xml.Node) :
    members (g.compoundWith filling) = g.before ++ (tagged "memberdef" filling ++ g.after) := by
  have hgroup : (g.group.fill filling).tag = "sectiondef" := g.isGroup
  rw [members, compoundWith, Xml.children_fill, Xml.tagged_singleton hgroup, List.flatMap_append,
    List.flatMap_append, List.flatMap_singleton, Xml.children_fill, before, after]
  simp only [List.append_assoc]

end Gap

/-- Every member of a document is in a gap of it. -/
theorem exists_gap {root compound m : Xml.Element} (hroot : root.child? "compounddef" = some compound)
    (hm : m ∈ members compound) : ∃ g : Gap, root = g.document [.element m] ∧ m.tag = "memberdef" := by
  obtain ⟨rootHole, rfl, hcompound, hfirst⟩ := Xml.exists_fill_of_child? hroot
  obtain ⟨group, hgroup, hmem⟩ := List.mem_flatMap.1 hm
  obtain ⟨compoundHole, rfl, htag⟩ := Xml.exists_fill_of_mem_children hgroup
  obtain ⟨groupHole, rfl, hmember⟩ := Xml.exists_fill_of_mem_children hmem
  exact ⟨⟨rootHole, compoundHole, groupHole, hcompound, htag, hfirst⟩, rfl, hmember⟩

/-! ## Compounds that differ by a member -/

/-- Two compounds that are the same but for a member of the second, which the first one misses. -/
structure Misses (m : Xml.Element) (before after : List Xml.Element) (c' c : Xml.Element) : Prop where
  attrs : c'.attrs = c.attrs
  children : ∀ tag, tag ≠ "sectiondef" → c'.children tag = c.children tag
  membersWithout : members c' = before ++ after
  membersWith : members c = before ++ m :: after

theorem Gap.misses (g : Gap) {m : Xml.Element} (hm : m.tag = "memberdef") :
    Misses m g.before g.after (g.compoundWith []) (g.compoundWith [.element m]) where
  attrs := rfl
  children tag htag := by
    have hgroup : ∀ filling, tagged tag [.element (g.group.fill filling)] = [] := fun filling =>
      Xml.tagged_singleton_of_ne fun heq => htag (heq.symm.trans g.isGroup)
    rw [compoundWith, compoundWith, Xml.children_fill, Xml.children_fill, hgroup, hgroup]
  membersWithout := g.members_compoundWith []
  membersWith := by
    rw [g.members_compoundWith, Xml.tagged_singleton hm]
    rfl

namespace Misses

variable {m c' c : Xml.Element} {before after : List Xml.Element}

theorem attr? (h : Misses m before after c' c) (name : String) : c'.attr? name = c.attr? name := by
  rw [Xml.Element.attr?, Xml.Element.attr?, h.attrs]

theorem attr (h : Misses m before after c' c) (name : String) : c'.attr name = c.attr name := by
  rw [Xml.Element.attr, Xml.Element.attr, h.attr?]

theorem child? (h : Misses m before after c' c) (tag : String) (htag : tag ≠ "sectiondef") :
    c'.child? tag = c.child? tag := by
  rw [Xml.Element.child?, Xml.Element.child?, h.children tag htag]

theorem childText (h : Misses m before after c' c) (tag : String) (htag : tag ≠ "sectiondef") :
    c'.childText tag = c.childText tag := by
  rw [Xml.Element.childText, Xml.Element.childText, h.child? tag htag]

/-- The directives of a compound are not those of its members. -/
theorem ofElement (h : Misses m before after c' c) : Directive.ofElement c' = Directive.ofElement c := by
  -- Directives stand in descriptions, and a description is no section.
  have hdescriptions : ["briefdescription", "detaileddescription"].filterMap c'.child? =
      ["briefdescription", "detaileddescription"].filterMap c.child? := by
    have hbrief : c'.child? "briefdescription" = c.child? "briefdescription" := h.child? _ (by decide)
    have hdetailed : c'.child? "detaileddescription" = c.child? "detaileddescription" :=
      h.child? _ (by decide)
    rw [List.filterMap_cons, List.filterMap_cons, List.filterMap_cons, List.filterMap_cons, hbrief,
      hdetailed]
    rfl
  rw [Directive.ofElement, Directive.ofElement, hdescriptions]

/-- The flags of a compound are not those of its members. -/
theorem flagsOf (h : Misses m before after c' c) (ctx : FlagContext) (fqn : String) :
    ctx.flagsOf c' fqn = ctx.flagsOf c fqn :=
  FlagContext.flagsOf_congr h.ofElement (h.attr "id") ctx fqn

/-- A class is described without regard to its members. -/
theorem readClassHeader (h : Misses m before after c' c) (s : Setting) (fqn : String) (flags : Flags) :
    Compound.readClassHeader s fqn flags c' = Compound.readClassHeader s fqn flags c := by
  have hlocation : Location.ofElement c' fqn s.root = Location.ofElement c fqn s.root := by
    rw [Location.ofElement, Location.ofElement, h.child? _ (by decide)]
  have hparams : templateParams c' = templateParams c := by
    rw [templateParams, templateParams, h.child? _ (by decide)]
  unfold Compound.readClassHeader
  rw [hlocation, hparams, h.children _ (by decide), h.attr, h.attr?, h.childText _ (by decide)]

end Misses

end Compound

end ScriptBindings
