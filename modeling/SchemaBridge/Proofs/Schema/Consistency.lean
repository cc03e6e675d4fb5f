/-
  The invariant of schemas. Class names are distinct, numbers of relations ascend below
  `nextRelation`, and the links of every class are exactly the live relations that connect it with
  another class, by ascending number. Every operation keeps the invariant, and it determines a
  schema by its outline (classes with their fields), its relations and its next number.
-/
import SchemaBridge.Proofs.Schema.Links
import SchemaBridge.Schema.Basic

namespace SchemaBridge

/-! ## The two ends of a relation -/

namespace Relation

theorem ends_of_source {r : Relation} {cls : String} (h : r.source.cls = cls) :
    r.ends cls = some (r.source, r.target) := by
  unfold ends
  rw [if_pos h]

theorem ends_of_target {r : Relation} {cls : String} (h : r.target.cls = cls)
    (hne : r.source.cls ≠ cls) : r.ends cls = some (r.target, r.source) := by
  unfold ends
  rw [if_neg hne, if_pos h]

theorem ends_eq_none_iff {r : Relation} {cls : String} :
    r.ends cls = none ↔ r.source.cls ≠ cls ∧ r.target.cls ≠ cls := by
  unfold ends
  split
  · simp [*]
  · split <;> simp [*]

/-- The end of its own that a class sees bears its name. -/
theorem cls_of_ends {r : Relation} {cls : String} {e : End × End} (h : r.ends cls = some e) :
    e.1.cls = cls := by
  unfold ends at h
  split at h
  · cases h
    assumption
  · split at h <;> cases h
    assumption

/-- A relation connects a class with the one at the other end, and with no other. -/
theorem connects_iff {r : Relation} {cls other : String} :
    r.connects cls other = true ↔ ∃ e, r.ends cls = some e ∧ e.2.cls = other := by
  unfold connects
  by_cases hs : r.source.cls = cls
  · rw [ends_of_source hs]
    simp only [hs, beq_self_eq_true, Bool.true_and, Bool.or_eq_true, beq_iff_eq,
      Bool.and_eq_true, Option.some.injEq, exists_eq_left']
    constructor
    · rintro (h | ⟨h1, h2⟩)
      · exact h
      · rw [h2, h1]
    · exact Or.inl
  · by_cases ht : r.target.cls = cls
    · rw [ends_of_target ht hs]
      simp [hs, ht]
    · rw [ends_eq_none_iff.mpr ⟨hs, ht⟩]
      simp [hs, ht]

end Relation

namespace Schema

variable {s : Schema}

/-! ## Looking things up -/

/-- The classes with their fields, without their links. -/
def outline (s : Schema) : List (String × List Field) :=
  s.classes.map fun c => (c.name, c.fields)

/-- The names of the classes, in order. -/
def names (s : Schema) : List String :=
  s.classes.map Class.name

theorem names_eq_outline (s : Schema) : s.names = s.outline.map Prod.fst := by
  unfold names outline
  rw [List.map_map]
  rfl

theorem contains_iff {name : String} : s.contains name = true ↔ name ∈ s.names := by
  simp [contains, names]

theorem find?_some_mem {name : String} {c : Class} (h : s.find? name = some c) :
    c ∈ s.classes ∧ c.name = name := by
  unfold find? at h
  exact ⟨List.mem_of_find?_eq_some h, by simpa using List.find?_some h⟩

theorem find?_eq_none_iff {name : String} : s.find? name = none ↔ name ∉ s.names := by
  simp [find?, names]

theorem exists_find? {name : String} (h : name ∈ s.names) : ∃ c, s.find? name = some c := by
  cases hf : s.find? name with
  | none => exact absurd h (find?_eq_none_iff.mp hf)
  | some c => exact ⟨c, rfl⟩

theorem relation?_some_mem {id : RelationId} {r : Relation} (h : s.relation? id = some r) :
    (id, r) ∈ s.relations := by
  obtain ⟨before, after, hs, -⟩ := List.lookup_eq_some_iff.mp h
  rw [hs]
  simp

theorem mem_relationsBetween {cls other : String} {id : RelationId} :
    id ∈ s.relationsBetween cls other ↔
      ∃ r, (id, r) ∈ s.relations ∧ r.connects cls other = true := by
  simp [relationsBetween]

/-! ## The invariant -/

/-- What every schema satisfies that the operations can build. -/
structure Consistent (s : Schema) : Prop where
  names_nodup : s.names.Nodup
  ids_ascend : s.relations.Pairwise fun p q => p.1 < q.1
  ids_lt : ∀ p ∈ s.relations, p.1 < s.nextRelation
  links_canonical : ∀ c ∈ s.classes, c.links.Canonical
  get_links : ∀ c ∈ s.classes, ∀ other, c.links.get other = s.relationsBetween c.name other

theorem consistent_empty : Consistent .empty where
  names_nodup := List.nodup_nil
  ids_ascend := List.Pairwise.nil
  ids_lt _ h := absurd h List.not_mem_nil
  links_canonical _ h := absurd h List.not_mem_nil
  get_links _ h := absurd h List.not_mem_nil

namespace Consistent

theorem ids_nodup (h : s.Consistent) : (s.relations.map Prod.fst).Nodup := by
  rw [List.Nodup, List.pairwise_map]
  exact h.ids_ascend.imp fun hlt => Nat.ne_of_lt hlt

/-- A number stands for one relation. -/
theorem relation_unique (h : s.Consistent) {id : RelationId} {r r' : Relation}
    (hr : (id, r) ∈ s.relations) (hr' : (id, r') ∈ s.relations) : r = r' := by
  have heq := List.inj_on_of_nodup_map h.ids_nodup hr hr' rfl
  exact congrArg Prod.snd heq

theorem relation?_eq_some_iff (h : s.Consistent) {id : RelationId} {r : Relation} :
    s.relation? id = some r ↔ (id, r) ∈ s.relations := by
  refine ⟨relation?_some_mem, fun hr => ?_⟩
  cases hl : s.relation? id with
  | none =>
    have hnone := List.lookup_eq_none_iff.mp hl (id, r) hr
    simp at hnone
  | some r' => rw [h.relation_unique (relation?_some_mem hl) hr]

theorem find?_eq_some_iff (h : s.Consistent) {name : String} {c : Class} :
    s.find? name = some c ↔ c ∈ s.classes ∧ c.name = name := by
  refine ⟨find?_some_mem, fun ⟨hc, hn⟩ => ?_⟩
  obtain ⟨c', hc'⟩ := exists_find? (s := s) (List.mem_map.mpr ⟨c, hc, hn⟩)
  have hmem := find?_some_mem hc'
  rw [hc', List.inj_on_of_nodup_map h.names_nodup hmem.1 hc (hmem.2.trans hn.symm)]

/-- A relation is filed under exactly the class at its other end. -/
theorem mem_get_links (h : s.Consistent) {c : Class} (hc : c ∈ s.classes) {other : String}
    {id : RelationId} : id ∈ c.links.get other ↔
      ∃ r, (id, r) ∈ s.relations ∧ ∃ e, r.ends c.name = some e ∧ e.2.cls = other := by
  rw [h.get_links c hc, mem_relationsBetween]
  simp only [Relation.connects_iff]

/-- Outline, relations and next number determine a consistent schema. -/
theorem ext {t : Schema} (hs : s.Consistent) (ht : t.Consistent) (houtline : s.outline = t.outline)
    (hrelations : s.relations = t.relations) (hnext : s.nextRelation = t.nextRelation) : s = t := by
  have hclasses : s.classes = t.classes := by
    apply List.ext_getElem?
    intro i
    have hi := congrArg (·[i]?) houtline
    simp only [outline, List.getElem?_map] at hi
    cases hsi : s.classes[i]? with
    | none =>
      rw [hsi] at hi
      exact (Option.map_eq_none_iff.mp hi.symm).symm
    | some c =>
      rw [hsi] at hi
      obtain ⟨d, htd, hd⟩ := Option.map_eq_some_iff.mp hi.symm
      rw [htd]
      have hc := List.mem_of_getElem? hsi
      have hd' := List.mem_of_getElem? htd
      have hname : d.name = c.name := congrArg Prod.fst hd
      have hlinks : d.links = c.links := by
        apply (ht.links_canonical d hd').ext (hs.links_canonical c hc)
        intro other
        rw [ht.get_links d hd', hs.get_links c hc, hname]
        unfold relationsBetween
        rw [hrelations]
      obtain ⟨name, fields, links⟩ := c
      obtain ⟨name', fields', links'⟩ := d
      simp only [Prod.mk.injEq] at hd
      simp_all
  cases s
  cases t
  simp_all

end Consistent

/-! ## Classes -/

/-- The links of a class with one relation more. -/
def linkTo (r : Relation) (id : RelationId) (name : String) (links : Links) : Links :=
  match r.ends name with
  | some (_, other) => links.add other.cls id
  | none => links

theorem canonical_linkTo {links : Links} (h : links.Canonical) (r : Relation) (id : RelationId)
    (name : String) : (linkTo r id name links).Canonical := by
  unfold linkTo
  split
  · exact h.add _ _
  · exact h

theorem get_linkTo {links : Links} (h : links.Canonical) (r : Relation) (id : RelationId)
    (name other : String) : (linkTo r id name links).get other =
      links.get other ++ if r.connects name other then [id] else [] := by
  unfold linkTo
  cases he : r.ends name with
  | none =>
    have hno : r.connects name other = false := by
      rw [Bool.eq_false_iff]
      intro hc
      obtain ⟨e, he', _⟩ := Relation.connects_iff.mp hc
      rw [he] at he'
      cases he'
    simp [hno]
  | some e =>
    have hiff : r.connects name other = true ↔ other = e.2.cls := by
      rw [Relation.connects_iff, he]
      simp [eq_comm]
    dsimp only
    rw [h.get_add]
    by_cases hn : other = e.2.cls
    · rw [if_pos hn, if_pos (hiff.mpr hn)]
    · rw [if_neg hn, if_neg (fun hc => hn (hiff.mp hc)), List.append_nil]

/-- Linking relations one after the other files each under the class at its other end. -/
theorem linkTo_foldl (relations : List (RelationId × Relation)) (name : String) {links : Links}
    (h : links.Canonical) :
    (relations.foldl (fun links p => linkTo p.2 p.1 name links) links).Canonical ∧
      ∀ other, (relations.foldl (fun links p => linkTo p.2 p.1 name links) links).get other =
        links.get other ++ (relations.filter fun p => p.2.connects name other).map Prod.fst := by
  induction relations generalizing links with
  | nil => exact ⟨h, fun other => by simp⟩
  | cons p rest ih =>
    have hp := canonical_linkTo h p.2 p.1 name
    refine ⟨(ih hp).1, fun other => ?_⟩
    rw [List.foldl_cons, (ih hp).2, get_linkTo h, List.filter_cons]
    by_cases hc : p.2.connects name other = true <;> simp [hc]

theorem linksOf_eq_foldl (s : Schema) (name : String) :
    s.linksOf name = s.relations.foldl (fun links p => linkTo p.2 p.1 name links) [] := rfl

theorem canonical_linksOf (s : Schema) (name : String) : (s.linksOf name).Canonical :=
  (linkTo_foldl s.relations name Links.canonical_nil).1

theorem get_linksOf (s : Schema) (name other : String) :
    (s.linksOf name).get other = s.relationsBetween name other := by
  rw [linksOf_eq_foldl, (linkTo_foldl s.relations name Links.canonical_nil).2]
  rfl

theorem ensureClass_of_mem {name : String} (h : name ∈ s.names) : s.ensureClass name = s := by
  unfold ensureClass
  rw [if_pos (contains_iff.mpr h)]

theorem ensureClass_of_not_mem {name : String} (h : name ∉ s.names) :
    s.ensureClass name =
      { s with classes := s.classes ++ [{ name, links := s.linksOf name }] } := by
  unfold ensureClass
  rw [if_neg (fun hc => h (contains_iff.mp hc))]

theorem Consistent.ensureClass (h : s.Consistent) (name : String) :
    (s.ensureClass name).Consistent := by
  by_cases hn : name ∈ s.names
  · rwa [ensureClass_of_mem hn]
  rw [ensureClass_of_not_mem hn]
  constructor
  · rw [names, List.map_append, List.nodup_append]
    refine ⟨h.names_nodup, List.nodup_singleton _, ?_⟩
    intro a ha b hb hab
    rw [List.map_singleton, List.mem_singleton] at hb
    rw [hab, hb] at ha
    exact hn ha
  · exact h.ids_ascend
  · exact h.ids_lt
  · intro c hc
    rcases List.mem_append.mp hc with hc | hc
    · exact h.links_canonical c hc
    · rw [List.mem_singleton.mp hc]
      exact canonical_linksOf s name
  · intro c hc other
    rcases List.mem_append.mp hc with hc | hc
    · exact h.get_links c hc other
    · rw [List.mem_singleton.mp hc]
      exact get_linksOf s name other

/-- Changes to fields leave names and links alone. -/
theorem Consistent.modify_fields (h : s.Consistent) (name : String)
    (f : List Field → List Field) :
    (s.modify name fun c => { c with fields := f c.fields }).Consistent := by
  have hsame : ∀ c ∈ (s.modify name fun c => { c with fields := f c.fields }).classes,
      ∃ d ∈ s.classes, c.name = d.name ∧ c.links = d.links := by
    intro c hc
    obtain ⟨d, hd, rfl⟩ := List.mem_map.mp hc
    refine ⟨d, hd, ?_⟩
    by_cases hn : d.name = name <;> simp [hn]
  constructor
  · have hnames : (s.modify name fun c => { c with fields := f c.fields }).names = s.names := by
      unfold names modify
      rw [List.map_map]
      apply List.map_congr_left
      intro c _
      by_cases hn : c.name = name <;> simp [hn]
    rw [hnames]
    exact h.names_nodup
  · exact h.ids_ascend
  · exact h.ids_lt
  · intro c hc
    obtain ⟨d, hd, -, hlinks⟩ := hsame c hc
    rw [hlinks]
    exact h.links_canonical d hd
  · intro c hc other
    obtain ⟨d, hd, hname, hlinks⟩ := hsame c hc
    rw [hlinks, hname]
    exact h.get_links d hd other

/-! ## Relations -/

/-- A relation is linked once with each of its classes. -/
theorem addRelation_eq (s : Schema) (r : Relation) :
    s.addRelation r =
      { classes := s.classes.map fun c =>
          { c with links := linkTo r s.nextRelation c.name c.links }
        relations := s.relations ++ [(s.nextRelation, r)]
        nextRelation := s.nextRelation + 1 } := by
  unfold addRelation modify linkTo
  by_cases hself : r.source.cls = r.target.cls
  · have hb : r.isSelf = true := by simpa [Relation.isSelf] using hself
    simp only [hb, if_true, Schema.mk.injEq, and_true]
    apply List.map_congr_left
    intro c _
    by_cases hs : c.name = r.source.cls
    · rw [if_pos hs, Relation.ends_of_source hs.symm]
    · rw [if_neg hs, Relation.ends_eq_none_iff.mpr ⟨Ne.symm hs, hself ▸ Ne.symm hs⟩]
  · have hb : r.isSelf = false := by simpa [Relation.isSelf] using hself
    simp only [hb, Bool.false_eq_true, if_false, List.map_map, Schema.mk.injEq, and_true]
    apply List.map_congr_left
    intro c _
    rw [Function.comp_apply]
    by_cases hs : c.name = r.source.cls
    · have ht : ¬c.name = r.target.cls := fun ht => hself (hs.symm.trans ht)
      rw [if_pos hs, if_neg ht, Relation.ends_of_source hs.symm]
    · rw [if_neg hs]
      by_cases ht : c.name = r.target.cls
      · rw [if_pos ht, Relation.ends_of_target ht.symm (Ne.symm hs)]
      · rw [if_neg ht, Relation.ends_eq_none_iff.mpr ⟨Ne.symm hs, Ne.symm ht⟩]

theorem Consistent.addRelation (h : s.Consistent) (r : Relation) :
    (s.addRelation r).Consistent := by
  rw [addRelation_eq]
  constructor
  · rw [names, List.map_map]
    exact h.names_nodup
  · rw [List.pairwise_append]
    refine ⟨h.ids_ascend, List.pairwise_singleton _ _, ?_⟩
    intro p hp q hq
    rw [List.mem_singleton.mp hq]
    exact h.ids_lt p hp
  · intro p hp
    rcases List.mem_append.mp hp with hp | hp
    · exact Nat.lt_succ_of_lt (h.ids_lt p hp)
    · rw [List.mem_singleton.mp hp]
      exact Nat.lt_succ_self _
  · intro c hc
    obtain ⟨d, hd, rfl⟩ := List.mem_map.mp hc
    exact canonical_linkTo (h.links_canonical d hd) _ _ _
  · intro c hc other
    obtain ⟨d, hd, rfl⟩ := List.mem_map.mp hc
    dsimp only
    rw [get_linkTo (h.links_canonical d hd), h.get_links d hd]
    unfold relationsBetween
    rw [List.filter_append, List.map_append, List.filter_singleton]
    by_cases hc : r.connects d.name other = true <;> simp [hc]

/-- The links of a class with one relation less. -/
def unlinkFrom (r : Relation) (id : RelationId) (name : String) (links : Links) : Links :=
  match r.ends name with
  | some (_, other) => links.remove other.cls id
  | none => links

/-- Removing a relation takes it out of the links of its two classes. Both steps of removal meet in
a class that is related to itself, where the second finds nothing left to do. -/
theorem Consistent.removeRelation_eq (h : s.Consistent) {id : RelationId} {r : Relation}
    (hr : (id, r) ∈ s.relations) :
    s.removeRelation id =
      { s with
        classes := s.classes.map fun c => { c with links := unlinkFrom r id c.name c.links }
        relations := s.relations.filter (·.1 != id) } := by
  unfold removeRelation modify unlinkFrom
  rw [h.relation?_eq_some_iff.mpr hr]
  simp only [List.map_map, Schema.mk.injEq, and_true]
  apply List.map_congr_left
  intro c hc
  have hcan := h.links_canonical c hc
  rw [Function.comp_apply]
  by_cases hs : c.name = r.source.cls
  · rw [if_pos hs, Relation.ends_of_source hs.symm]
    by_cases ht : c.name = r.target.cls
    · rw [if_pos ht, ← hs, ← ht]
      have htwice : (c.links.remove c.name id).remove c.name id = c.links.remove c.name id := by
        apply ((hcan.remove _ _).remove _ _).ext (hcan.remove _ _)
        intro other
        rw [(hcan.remove _ _).get_remove, hcan.get_remove]
        by_cases hn : other = c.name <;> simp [hn, List.filter_filter]
      rw [htwice, ht]
    · rw [if_neg ht]
  · rw [if_neg hs]
    by_cases ht : c.name = r.target.cls
    · rw [if_pos ht, Relation.ends_of_target ht.symm (Ne.symm hs)]
    · rw [if_neg ht, Relation.ends_eq_none_iff.mpr ⟨Ne.symm hs, Ne.symm ht⟩]

theorem removeRelation_of_none {id : RelationId} (h : s.relation? id = none) :
    s.removeRelation id = s := by
  unfold removeRelation
  rw [h]

/-- The links of a class lose the relation, wherever they held it. -/
theorem Consistent.get_unlinkFrom (h : s.Consistent) {id : RelationId} {r : Relation}
    (hr : (id, r) ∈ s.relations) {c : Class} (hc : c ∈ s.classes) (other : String) :
    (unlinkFrom r id c.name c.links).get other = (c.links.get other).filter (· != id) := by
  have hcan := h.links_canonical c hc
  have hstays : ∀ other, r.connects c.name other = false →
      (c.links.get other).filter (· != id) = c.links.get other := by
    intro other hno
    apply List.filter_eq_self.mpr
    intro i hi
    rw [h.get_links c hc, mem_relationsBetween] at hi
    obtain ⟨r', hr', hcon⟩ := hi
    rw [bne_iff_ne]
    rintro rfl
    rw [h.relation_unique hr' hr, hno] at hcon
    cases hcon
  unfold unlinkFrom
  cases he : r.ends c.name with
  | none =>
    dsimp only
    rw [hstays other]
    rw [Bool.eq_false_iff]
    intro hcon
    obtain ⟨e, he', _⟩ := Relation.connects_iff.mp hcon
    rw [he] at he'
    cases he'
  | some e =>
    dsimp only
    rw [hcan.get_remove]
    by_cases hn : other = e.2.cls
    · rw [if_pos hn]
    · rw [if_neg hn, hstays other]
      rw [Bool.eq_false_iff]
      intro hcon
      obtain ⟨e', he', hcls⟩ := Relation.connects_iff.mp hcon
      rw [he] at he'
      cases he'
      exact hn hcls.symm

theorem Consistent.removeRelation (h : s.Consistent) (id : RelationId) :
    (s.removeRelation id).Consistent := by
  cases hrel : s.relation? id with
  | none => rwa [removeRelation_of_none hrel]
  | some r =>
    have hr := relation?_some_mem hrel
    rw [h.removeRelation_eq hr]
    constructor
    · rw [names, List.map_map]
      exact h.names_nodup
    · exact h.ids_ascend.filter _
    · intro p hp
      exact h.ids_lt p (List.mem_filter.mp hp).1
    · intro c hc
      obtain ⟨d, hd, rfl⟩ := List.mem_map.mp hc
      unfold unlinkFrom
      dsimp only
      split
      · exact (h.links_canonical d hd).remove _ _
      · exact h.links_canonical d hd
    · intro c hc other
      obtain ⟨d, hd, rfl⟩ := List.mem_map.mp hc
      dsimp only
      rw [h.get_unlinkFrom hr hd, h.get_links d hd]
      unfold relationsBetween
      rw [List.filter_map, List.filter_filter, List.filter_filter]
      congr 1
      apply List.filter_congr
      intro p _
      exact Bool.and_comm _ _

theorem Consistent.removeRelations (h : s.Consistent) (ids : List RelationId) :
    (ids.foldl Schema.removeRelation s).Consistent := by
  induction ids generalizing s with
  | nil => exact h
  | cons id rest ih => exact ih (h.removeRelation id)

theorem Consistent.eraseClass (h : s.Consistent) (name : String) :
    Consistent { s with classes := s.classes.eraseP (·.name == name) } where
  names_nodup := (List.eraseP_sublist.map Class.name).nodup h.names_nodup
  ids_ascend := h.ids_ascend
  ids_lt := h.ids_lt
  links_canonical := fun c hc => h.links_canonical c (List.mem_of_mem_eraseP hc)
  get_links := fun c hc => h.get_links c (List.mem_of_mem_eraseP hc)

theorem Consistent.removeClass (h : s.Consistent) (name : String) :
    (s.removeClass name).Consistent := by
  unfold Schema.removeClass
  split
  · exact (h.eraseClass name).removeRelations _
  · exact h

theorem Consistent.setMultiplicities (h : s.Consistent) (id : RelationId)
    (source target : Multiplicity) : (s.setMultiplicities id source target).Consistent := by
  have hfst : ∀ p : RelationId × Relation,
      (if p.1 = id then (p.1, (⟨⟨p.2.source.cls, source⟩, ⟨p.2.target.cls, target⟩⟩ : Relation))
        else p).1 = p.1 := by
    intro p
    split <;> rfl
  constructor
  · exact h.names_nodup
  · unfold Schema.setMultiplicities
    dsimp only
    rw [List.pairwise_map]
    apply h.ids_ascend.imp
    intro p q hpq
    rwa [hfst, hfst]
  · intro p hp
    obtain ⟨q, hq, rfl⟩ := List.mem_map.mp hp
    rw [hfst]
    exact h.ids_lt q hq
  · exact h.links_canonical
  · intro c hc other
    rw [h.get_links c hc]
    unfold relationsBetween Schema.setMultiplicities
    rw [List.filter_map, List.map_map]
    have hconnects : (fun p : RelationId × Relation => p.2.connects c.name other) ∘
        (fun p => if p.1 = id then
          (p.1, (⟨⟨p.2.source.cls, source⟩, ⟨p.2.target.cls, target⟩⟩ : Relation)) else p) =
        fun p => p.2.connects c.name other := by
      funext p
      rw [Function.comp_apply]
      split <;> rfl
    rw [hconnects]
    apply List.map_congr_left
    intro p _
    rw [Function.comp_apply, hfst]

end Schema

end SchemaBridge
