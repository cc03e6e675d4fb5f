/-
  What the operations do to the outline of a schema, its classes with their fields, and to the
  relations.
-/
import SchemaBridge.Proofs.Schema.Consistency

namespace SchemaBridge.Schema

variable {s : Schema}

theorem outline_ensureClass_of_mem {name : String} (h : name ∈ s.names) :
    (s.ensureClass name).outline = s.outline := by
  rw [ensureClass_of_mem h]

theorem outline_ensureClass_of_not_mem {name : String} (h : name ∉ s.names) :
    (s.ensureClass name).outline = s.outline ++ [(name, [])] := by
  rw [ensureClass_of_not_mem h]
  unfold outline
  rw [List.map_append]
  rfl

theorem mem_outline_ensureClass {name : String} {e : String × List Field}
    (h : e ∈ (s.ensureClass name).outline) : e ∈ s.outline ∨ e = (name, []) := by
  by_cases hn : name ∈ s.names
  · rw [outline_ensureClass_of_mem hn] at h
    exact .inl h
  · rw [outline_ensureClass_of_not_mem hn] at h
    exact (List.mem_append.mp h).imp_right List.mem_singleton.mp

theorem ne_of_mem_outline {name : String} (h : name ∉ s.names) {e : String × List Field}
    (he : e ∈ s.outline) : e.1 ≠ name := by
  rintro rfl
  rw [names_eq_outline] at h
  exact h (List.mem_map_of_mem he)

/-- What is done to one class leaves an outline without it alone. -/
theorem map_outline_of_not_mem {name : String} (h : name ∉ s.names)
    (f : String × List Field → String × List Field) :
    (s.outline.map fun e => if e.1 = name then f e else e) = s.outline :=
  calc
    s.outline.map (fun e => if e.1 = name then f e else e)
      = s.outline.map id := List.map_congr_left fun _ he => if_neg (ne_of_mem_outline h he)
    _ = s.outline := List.map_id _

theorem relations_ensureClass (s : Schema) (name : String) :
    (s.ensureClass name).relations = s.relations := by
  unfold ensureClass
  split <;> rfl

theorem nextRelation_ensureClass (s : Schema) (name : String) :
    (s.ensureClass name).nextRelation = s.nextRelation := by
  unfold ensureClass
  split <;> rfl

theorem outline_modify_fields (s : Schema) (name : String) (f : List Field → List Field) :
    (s.modify name fun c => { c with fields := f c.fields }).outline =
      s.outline.map fun e => if e.1 = name then (e.1, f e.2) else e := by
  unfold outline modify
  rw [List.map_map, List.map_map]
  apply List.map_congr_left
  intro c _
  rw [Function.comp_apply, Function.comp_apply]
  split <;> rfl

/-- A class that is made along with its fields comes last. -/
theorem outline_setFields_of_not_mem {name : String} (h : name ∉ s.names)
    (f : List Field → List Field) :
    ((s.ensureClass name).modify name fun c => { c with fields := f c.fields }).outline =
      s.outline ++ [(name, f [])] := by
  rw [outline_modify_fields, outline_ensureClass_of_not_mem h, List.map_append,
    map_outline_of_not_mem h, List.map_singleton, if_pos rfl]

theorem relations_modify (s : Schema) (name : String) (f : Class → Class) :
    (s.modify name f).relations = s.relations := rfl

theorem outline_addRelation (s : Schema) (r : Relation) :
    (s.addRelation r).outline = s.outline := by
  rw [addRelation_eq]
  unfold outline
  rw [List.map_map]
  rfl

theorem relations_addRelation (s : Schema) (r : Relation) :
    (s.addRelation r).relations = s.relations ++ [(s.nextRelation, r)] := by
  rw [addRelation_eq]

theorem nextRelation_addRelation (s : Schema) (r : Relation) :
    (s.addRelation r).nextRelation = s.nextRelation + 1 := by
  rw [addRelation_eq]

theorem outline_removeRelation (h : s.Consistent) (id : RelationId) :
    (s.removeRelation id).outline = s.outline := by
  cases hrel : s.relation? id with
  | none => rw [removeRelation_of_none hrel]
  | some r =>
    rw [h.removeRelation_eq (relation?_some_mem hrel)]
    unfold outline
    rw [List.map_map]
    rfl

theorem relations_removeRelation (h : s.Consistent) (id : RelationId) :
    (s.removeRelation id).relations = s.relations.filter (·.1 != id) := by
  cases hrel : s.relation? id with
  | none =>
    rw [removeRelation_of_none hrel, List.filter_eq_self.mpr]
    intro p hp
    rw [bne_iff_ne]
    rintro rfl
    rw [h.relation?_eq_some_iff.mpr hp] at hrel
    cases hrel
  | some r => rw [h.removeRelation_eq (relation?_some_mem hrel)]

theorem nextRelation_removeRelation (s : Schema) (id : RelationId) :
    (s.removeRelation id).nextRelation = s.nextRelation := by
  unfold removeRelation
  split <;> rfl

theorem outline_removeRelations (h : s.Consistent) (ids : List RelationId) :
    (ids.foldl removeRelation s).outline = s.outline := by
  induction ids generalizing s with
  | nil => rfl
  | cons id rest ih => rw [List.foldl_cons, ih (h.removeRelation id), outline_removeRelation h]

theorem relations_removeRelations (h : s.Consistent) (ids : List RelationId) :
    (ids.foldl removeRelation s).relations = s.relations.filter fun p => !ids.contains p.1 := by
  induction ids generalizing s with
  | nil => exact (List.filter_eq_self.mpr fun _ _ => rfl).symm
  | cons id rest ih =>
    rw [List.foldl_cons, ih (h.removeRelation id), relations_removeRelation h, List.filter_filter]
    apply List.filter_congr
    intro p _
    rw [List.contains_cons, Bool.not_or, Bool.and_comm]
    rfl

theorem nextRelation_removeRelations (s : Schema) (ids : List RelationId) :
    (ids.foldl removeRelation s).nextRelation = s.nextRelation := by
  induction ids generalizing s with
  | nil => rfl
  | cons id rest ih => rw [List.foldl_cons, ih, nextRelation_removeRelation]

theorem removeClass_of_not_mem {name : String} (h : name ∉ s.names) : s.removeClass name = s :=
  if_neg fun hcontains => h (contains_iff.mp hcontains)

/-! ## Removing a class -/

section RemoveClass

variable {name : String} (hs : s.Consistent) (hname : name ∈ s.names)

include hs hname

theorem outline_removeClass :
    (s.removeClass name).outline = s.outline.eraseP (·.1 == name) := by
  unfold removeClass
  dsimp only
  rw [if_pos (contains_iff.mpr hname), outline_removeRelations (hs.eraseClass name)]
  unfold outline
  rw [List.eraseP_map]
  rfl

/-- The relations that involve the class go with it, and no others. -/
theorem relations_removeClass :
    (s.removeClass name).relations = s.relations.filter fun p => !p.2.involves name := by
  unfold removeClass
  dsimp only
  rw [if_pos (contains_iff.mpr hname), relations_removeRelations (hs.eraseClass name)]
  apply List.filter_congr
  intro p hp
  congr 1
  rw [Bool.eq_iff_iff, List.contains_iff_mem, List.mem_map]
  constructor
  · rintro ⟨q, hq, hid⟩
    obtain ⟨hmem, hinvolves⟩ := List.mem_filter.mp hq
    have hq : (p.1, q.2) ∈ s.relations := hid ▸ hmem
    rw [← hs.relation_unique hq hp]
    exact hinvolves
  · exact fun hinvolves => ⟨p, List.mem_filter.mpr ⟨hp, hinvolves⟩, rfl⟩

omit hs in
theorem nextRelation_removeClass : (s.removeClass name).nextRelation = s.nextRelation := by
  unfold removeClass
  dsimp only
  rw [if_pos (contains_iff.mpr hname), nextRelation_removeRelations]

end RemoveClass

end SchemaBridge.Schema
