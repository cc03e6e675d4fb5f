/-
  Plans realise relations. A relation with an owner in the schema gets one foreign key, in the
  table of its owner or among the deferred ones; a junction gets one table with a key for each of
  its ends; and nothing else is planned. The tables are planned from the links of the ordered
  schema, the junctions from its relations and the deferred keys from what ordering took out, so
  the three are brought together through the relations of the schema that was given.
  Main result: `realises_ofOrder`.
-/
import SchemaBridge.Project
import SchemaBridge.Proofs.Schema.CreationOrder
import SchemaBridge.Proofs.Schema.Ownership
import Mathlib.Data.List.Flatten

namespace SchemaBridge

/-! ## Lists without duplicates -/

/-- If the images of a list are distinct, one element has a given image. -/
theorem filter_eq_singleton {α β : Type} [DecidableEq β] {f : α → β} {l : List α} {a : α}
    (hnodup : (l.map f).Nodup) (ha : a ∈ l) : (l.filter fun x => f x = f a) = [a] := by
  induction l with
  | nil => exact absurd ha List.not_mem_nil
  | cons x rest ih =>
    rw [List.map_cons, List.nodup_cons] at hnodup
    rcases List.mem_cons.mp ha with rfl | ha
    · rw [List.filter_cons_of_pos (by simp)]
      congr 1
      apply List.filter_eq_nil_iff.mpr
      intro y hy heq
      simp only [decide_eq_true_eq] at heq
      exact hnodup.1 (List.mem_map.mpr ⟨y, hy, heq⟩)
    · rw [List.filter_cons_of_neg, ih hnodup.2 ha]
      simp only [decide_eq_true_eq]
      intro heq
      exact hnodup.1 (List.mem_map.mpr ⟨a, ha, heq.symm⟩)

/-- If every element has an image, the images are as many, and in the same order. -/
theorem map_filterMap_of_some {α β γ : Type} {f : α → Option β} {g : β → γ} {h : α → γ} {l : List α}
    (hf : ∀ a ∈ l, ∃ b, f a = some b ∧ g b = h a) : (l.filterMap f).map g = l.map h := by
  induction l with
  | nil => rfl
  | cons a rest ih =>
    obtain ⟨b, hb, hgb⟩ := hf a List.mem_cons_self
    rw [List.filterMap_cons_some hb, List.map_cons, List.map_cons, hgb,
      ih fun x hx => hf x (List.mem_cons_of_mem _ hx)]

/-- Lists with members of different images have no member in common. -/
theorem nodup_flatMap_of_label {α β γ : Type} {f : α → List β} (label : β → γ) (key : α → γ)
    {l : List α} (hkeys : (l.map key).Nodup) (hlabel : ∀ a ∈ l, ∀ b ∈ f a, label b = key a)
    (hnodup : ∀ a ∈ l, (f a).Nodup) : (l.flatMap f).Nodup := by
  induction l with
  | nil => exact List.nodup_nil
  | cons a rest ih =>
    rw [List.map_cons, List.nodup_cons] at hkeys
    rw [List.flatMap_cons, List.nodup_append]
    refine ⟨hnodup a List.mem_cons_self, ?_, ?_⟩
    · exact ih hkeys.2 (fun x hx => hlabel x (List.mem_cons_of_mem _ hx))
        fun x hx => hnodup x (List.mem_cons_of_mem _ hx)
    · rintro b hb c hc rfl
      obtain ⟨x, hx, hbx⟩ := List.mem_flatMap.mp hc
      have h1 := hlabel a List.mem_cons_self b hb
      have h2 := hlabel x (List.mem_cons_of_mem _ hx) b hbx
      exact hkeys.1 (List.mem_map.mpr ⟨x, hx, h2.symm.trans h1⟩)

namespace Schema

/-! ## The outline decides about keys -/

theorem find?_fields (s : Schema) (name : String) :
    (s.find? name).map Class.fields = (s.outline.find? (·.1 == name)).map Prod.snd := by
  unfold find? outline
  rw [List.find?_map, Option.map_map]
  rfl

theorem referencedKeys_of_outline_eq {s t : Schema} (h : t.outline = s.outline)
    (composite : Bool) (cls : String) :
    Plan.referencedKeys t composite cls = Plan.referencedKeys s composite cls := by
  have hfields : (t.find? cls).map Class.fields = (s.find? cls).map Class.fields := by
    rw [find?_fields, find?_fields, h]
  unfold Plan.referencedKeys
  cases ht : t.find? cls with
  | none =>
    rw [ht] at hfields
    rw [Option.map_eq_none_iff.mp hfields.symm]
  | some c =>
    rw [ht] at hfields
    obtain ⟨d, hd, hcd⟩ := Option.map_eq_some_iff.mp hfields.symm
    rw [hd]
    dsimp only
    unfold Plan.keysOf Class.field?
    rw [hcd]

end Schema

namespace Plan

/-! ## What a key and a junction have to say -/

/-- The key `k` stands for the relation `r`, numbered `id`, in the table of `owner`. -/
structure ForeignKey.Realises (s : Schema) (composite : Bool) (id : RelationId) (r : Relation)
    (owner : String) (k : ForeignKey) : Prop where
  relation_eq : k.relation = id
  table_eq : k.table = Naming.tableName owner
  /-- It points at the class at the other end. Between a class and itself the more restrictive
  end is the one pointed at. -/
  ends : ∃ mine theirs, r.ends owner = some (mine, theirs) ∧ k.related = theirs.cls ∧
    k.target = Naming.tableName theirs.cls ∧
    (k.nullable = true ↔ (if r.isSelf then mine.multiplicity.min theirs.multiplicity
      else theirs.multiplicity) = .zeroOrOne) ∧
    (k.unique = true ↔ (if r.isSelf then mine.multiplicity.max theirs.multiplicity
      else mine.multiplicity).isSingle = true)
  /-- Its columns refer to those of the key there. -/
  columns_eq : k.columns.map (fun c => (c.references, c.type)) =
    (referencedKeys s composite k.related).map fun key => (key.name, key.type)

/-- The key `k` is that of a junction for the end at the class `related`. -/
structure ForeignKey.Joins (s : Schema) (composite : Bool) (id : RelationId) (table : String)
    (related : String) (k : ForeignKey) : Prop where
  relation_eq : k.relation = id
  table_eq : k.table = table
  related_eq : k.related = related
  target_eq : k.target = Naming.tableName related
  columns_eq : k.columns.map (fun c => (c.references, c.type)) =
    (referencedKeys s composite related).map fun key => (key.name, key.type)
  required : k.nullable = false
  repeatable : k.unique = false

/-- The junction `j` stands for the relation `r`, numbered `id`. It has a key for each end, the one
for the source first, and no other. -/
structure Junction.Realises (s : Schema) (composite : Bool) (id : RelationId) (r : Relation)
    (j : Junction) : Prop where
  isJunction : r.isJunction = true
  table_eq : j.table = Naming.junctionTable r.source.cls r.target.cls
  keys : ∃ k l, j.foreignKeys = [k, l] ∧ k.Joins s composite id j.table r.source.cls ∧
    l.Joins s composite id j.table r.target.cls

/-- All foreign keys of a plan but those of its junctions. -/
def foreignKeys (p : Plan) : List ForeignKey :=
  p.tables.flatMap (·.foreignKeys) ++ p.deferred

/-- The junction holds a key of this relation. -/
def Junction.carries (j : Junction) (id : RelationId) : Bool :=
  j.foreignKeys.any (·.relation == id)

/-- How a plan stands to the schema `s` it was made for. -/
structure Realises (s : Schema) (composite : Bool) (p : Plan) : Prop where
  /-- There is one table for each class. -/
  tables_nodup : (p.tables.map (·.cls)).Nodup
  mem_tables : ∀ name, name ∈ p.tables.map (·.cls) ↔ name ∈ s.names
  table_of_class : ∀ t ∈ p.tables, t.table = Naming.tableName t.cls ∧
    t.keys = referencedKeys s composite t.cls
  /-- A relation has one key, in the table of its owner or among those added last. -/
  one_key : ∀ id r owner, (id, r) ∈ s.relations → r.ownership owner = some .own →
    owner ∈ s.names → ∃ k, (p.foreignKeys.filter fun k => k.relation = id) = [k] ∧
      k.Realises s composite id r owner ∧
      ((∃ t ∈ p.tables, t.cls = owner ∧ k ∈ t.foreignKeys) ∨ k ∈ p.deferred)
  /-- Every key is that of such a relation. -/
  key_of_relation : ∀ k ∈ p.foreignKeys, ∃ r owner, (k.relation, r) ∈ s.relations ∧
    r.ownership owner = some .own ∧ owner ∈ s.names
  /-- A junction has one table, with a key for each end. -/
  one_junction : ∀ id r, (id, r) ∈ s.relations → r.isJunction = true →
    ∃ j, (p.junctions.filter fun j => j.carries id) = [j] ∧ j.Realises s composite id r
  /-- The junctions are those of such relations, one for each of them and in their order. -/
  junctions : List.Forall₂ (fun j e => j.Realises s composite e.1 e.2) p.junctions
    (s.relations.filter fun e => e.2.isJunction)

/-! ## Single keys -/

variable {s t : Schema} {composite : Bool}

theorem otherEnd_of_ends {r : Relation} {owner : String} {mine theirs : End}
    (h : r.ends owner = some (mine, theirs)) : otherEnd r owner = theirs.cls := by
  unfold otherEnd
  rw [h]

theorem map_keyColumns (composite : Bool) (related suffix : String) :
    (keyColumns t composite related suffix).map (fun c => (c.references, c.type)) =
      (referencedKeys t composite related).map fun key => (key.name, key.type) := by
  unfold keyColumns
  rw [List.map_map]
  rfl

/-- A key can be planned for each end of a relation. -/
theorem foreignKey_realises (houtline : t.outline = s.outline) (composite : Bool) (id : RelationId)
    {r : Relation} {owner : String} {mine theirs : End} (he : r.ends owner = some (mine, theirs))
    (number : Option Nat) :
    ∃ k, foreignKey t composite id r owner number = some k ∧
      k.Realises s composite id r owner := by
  unfold foreignKey Relation.referencedMultiplicity Relation.owningMultiplicity
  rw [he, otherEnd_of_ends he]
  refine ⟨_, rfl, rfl, rfl, ⟨mine, theirs, he, rfl, rfl, ?_, Iff.rfl⟩, ?_⟩
  · simp only [beq_iff_eq]
  · rw [map_keyColumns, Schema.referencedKeys_of_outline_eq houtline]

/-! ## The keys of a table -/

theorem mem_ownedIn (ht : t.Consistent) {cls : String} {ids : List RelationId} {id : RelationId}
    {r : Relation} : (id, r) ∈ ownedIn t cls ids ↔
      id ∈ ids ∧ (id, r) ∈ t.relations ∧ r.ownership cls = some .own := by
  unfold ownedIn
  rw [List.mem_filterMap]
  constructor
  · rintro ⟨i, hi, h⟩
    split at h
    · rename_i r' hr'
      split at h <;> cases h
      rename_i hown
      exact ⟨hi, Schema.relation?_some_mem hr', owns_iff.mp hown⟩
    · cases h
  · rintro ⟨hid, hr, hown⟩
    refine ⟨id, hid, ?_⟩
    rw [ht.relation?_eq_some_iff.mpr hr]
    dsimp only
    rw [if_pos (owns_iff.mpr hown)]

theorem map_fst_ownedIn_sublist (t : Schema) (cls : String) (ids : List RelationId) :
    ((ownedIn t cls ids).map Prod.fst).Sublist ids := by
  unfold ownedIn
  induction ids with
  | nil => exact List.Sublist.slnil
  | cons id rest ih =>
    rw [List.filterMap_cons]
    split
    · exact ih.cons _
    · rename_i p hp
      split at hp
      · split at hp <;> cases hp
        exact ih.cons_cons _
      · cases hp

/-- The keys that a class stores for its relations to one other class. -/
def keysTo (t : Schema) (composite : Bool) (cls : String) (ids : List RelationId) :
    List ForeignKey :=
  let owned := ownedIn t cls ids
  (owned.zipIdx 1).filterMap fun p =>
    foreignKey t composite p.1.1 p.1.2 cls (if 1 < owned.length then some p.2 else none)

theorem foreignKeysOf_eq (t : Schema) (composite : Bool) (c : Class) :
    foreignKeysOf t composite c = c.links.flatMap fun link => keysTo t composite c.name link.2 :=
  rfl

/-- Each owned relation gets its key, in order. -/
theorem map_relation_keysTo (ht : t.Consistent) (cls : String) (ids : List RelationId) :
    (keysTo t composite cls ids).map (·.relation) = (ownedIn t cls ids).map Prod.fst := by
  unfold keysTo
  dsimp only
  have hfst : ((ownedIn t cls ids).zipIdx 1).map (Prod.fst ∘ Prod.fst) =
      (ownedIn t cls ids).map Prod.fst := by
    rw [← List.map_map, List.zipIdx_map_fst]
  rw [← hfst]
  apply map_filterMap_of_some
  intro p hp
  have hmem := (mem_ownedIn ht).mp (List.fst_mem_of_mem_zipIdx hp)
  obtain ⟨mine, theirs, he⟩ := Relation.ends_of_owner hmem.2.2
  obtain ⟨k, hk, hreal⟩ := foreignKey_realises (s := t) (t := t) rfl composite
    p.1.1 he (if 1 < (ownedIn t cls ids).length then some p.2 else none)
  exact ⟨k, hk, hreal.relation_eq⟩

theorem mem_keysTo (ht : t.Consistent) (houtline : t.outline = s.outline) {cls : String}
    {ids : List RelationId} {k : ForeignKey} (h : k ∈ keysTo t composite cls ids) :
    ∃ r, (k.relation, r) ∈ t.relations ∧ k.relation ∈ ids ∧ r.ownership cls = some .own ∧
      k.Realises s composite k.relation r cls := by
  unfold keysTo at h
  obtain ⟨⟨p, n⟩, hp, hk⟩ := List.mem_filterMap.mp h
  have hmem := (mem_ownedIn ht).mp (List.fst_mem_of_mem_zipIdx hp)
  obtain ⟨mine, theirs, he⟩ := Relation.ends_of_owner hmem.2.2
  obtain ⟨k', hk', hreal⟩ := foreignKey_realises houtline composite p.1 he
    (if 1 < (ownedIn t cls ids).length then some n else none)
  rw [hk'] at hk
  cases hk
  rw [hreal.relation_eq]
  exact ⟨p.2, hmem.2.1, hmem.1, hmem.2.2, hreal⟩

/-- A class stores a key for each relation it owns. -/
theorem mem_map_foreignKeysOf (ht : t.Consistent) {c : Class} (hc : c ∈ t.classes)
    {id : RelationId} : id ∈ (foreignKeysOf t composite c).map (·.relation) ↔
      ∃ r, (id, r) ∈ t.relations ∧ r.ownership c.name = some .own := by
  rw [foreignKeysOf_eq, List.map_flatMap, List.mem_flatMap]
  constructor
  · rintro ⟨link, -, hid⟩
    rw [map_relation_keysTo ht] at hid
    obtain ⟨⟨i, r⟩, hmem, rfl⟩ := List.mem_map.mp hid
    obtain ⟨-, hr, hown⟩ := (mem_ownedIn ht).mp hmem
    exact ⟨r, hr, hown⟩
  · rintro ⟨r, hr, hown⟩
    obtain ⟨mine, theirs, he⟩ := Relation.ends_of_owner hown
    have hid : id ∈ c.links.get theirs.cls := (ht.mem_get_links hc).mpr ⟨r, hr, _, he, rfl⟩
    refine ⟨(theirs.cls, c.links.get theirs.cls),
      Links.mem_of_get_ne_nil (List.ne_nil_of_mem hid), ?_⟩
    rw [map_relation_keysTo ht]
    exact List.mem_map.mpr ⟨(id, r), (mem_ownedIn ht).mpr ⟨hid, hr, hown⟩, rfl⟩

theorem mem_foreignKeysOf (ht : t.Consistent) (houtline : t.outline = s.outline) {c : Class}
    {k : ForeignKey} (h : k ∈ foreignKeysOf t composite c) :
    ∃ r, (k.relation, r) ∈ t.relations ∧ r.ownership c.name = some .own ∧
      k.Realises s composite k.relation r c.name := by
  rw [foreignKeysOf_eq] at h
  obtain ⟨link, -, hk⟩ := List.mem_flatMap.mp h
  obtain ⟨r, hr, -, hown, hreal⟩ := mem_keysTo ht houtline hk
  exact ⟨r, hr, hown, hreal⟩

theorem nodup_get_links (ht : t.Consistent) {c : Class} (hc : c ∈ t.classes) (other : String) :
    (c.links.get other).Nodup := by
  rw [ht.get_links c hc]
  unfold Schema.relationsBetween
  exact (List.filter_sublist.map Prod.fst).nodup ht.ids_nodup

/-- A class is linked by each of its relations once: it is filed under the other class only. -/
theorem nodup_ids_links (ht : t.Consistent) {c : Class} (hc : c ∈ t.classes) :
    c.links.ids.Nodup := by
  have hcan := ht.links_canonical c hc
  apply nodup_flatMap_of_label
    (fun id => ((t.relation? id).map fun r => otherEnd r c.name).getD "") Prod.fst
  · rw [List.Nodup, List.pairwise_map]
    exact hcan.ascending.imp fun hlt => ne_of_lt hlt
  · intro link hlink id hid
    rw [← hcan.get_of_mem hlink, ht.mem_get_links hc] at hid
    obtain ⟨r, hr, ⟨mine, theirs⟩, he, hcls⟩ := hid
    rw [ht.relation?_eq_some_iff.mpr hr]
    exact (otherEnd_of_ends he).trans hcls
  · intro link hlink
    rw [← hcan.get_of_mem hlink]
    exact nodup_get_links ht hc link.1

/-- A class stores no key twice. -/
theorem nodup_map_foreignKeysOf (ht : t.Consistent) {c : Class} (hc : c ∈ t.classes) :
    ((foreignKeysOf t composite c).map (·.relation)).Nodup := by
  have howned : ((foreignKeysOf t composite c).map (·.relation)).Sublist c.links.ids := by
    rw [foreignKeysOf_eq, List.map_flatMap]
    refine List.Sublist.flatMap_right c.links fun link _ => ?_
    rw [map_relation_keysTo ht]
    exact map_fst_ownedIn_sublist t c.name link.2
  exact howned.nodup (nodup_ids_links ht hc)

/-! ## The plan as a whole -/

theorem deferredKey_of_owner (composite : Bool) (id : RelationId) {r : Relation} {owner : String}
    (hown : r.ownership owner = some .own) (houtline : t.outline = s.outline) :
    ∃ k, deferredKey t composite id r = some k ∧ k.Realises s composite id r owner := by
  obtain ⟨mine, theirs, he⟩ := Relation.ends_of_owner hown
  unfold deferredKey
  rw [ownerOf_eq hown]
  exact foreignKey_realises houtline composite id he _

theorem map_relation_filterMap_deferredKey {deferred : List (RelationId × Relation)}
    (h : ∀ e ∈ deferred, ∃ owner, e.2.ownership owner = some .own) :
    (deferred.filterMap fun e => deferredKey t composite e.1 e.2).map (·.relation) =
      deferred.map Prod.fst := by
  apply map_filterMap_of_some
  intro e he
  obtain ⟨owner, hown⟩ := h e he
  obtain ⟨k, hk, hreal⟩ := deferredKey_of_owner (s := t) composite e.1 hown rfl
  exact ⟨k, hk, hreal.relation_eq⟩

/-- The classes of an order, looked up in a schema that has them. -/
theorem filterMap_find?_of_order (names : List String) (h : ∀ n ∈ names, n ∈ t.names) :
    (names.filterMap t.find?).map Class.name = names := by
  refine (map_filterMap_of_some ?_).trans (List.map_id _)
  intro n hn
  obtain ⟨c, hc⟩ := Schema.exists_find? (h n hn)
  exact ⟨c, hc, (Schema.find?_some_mem hc).2⟩

theorem junctionKey_joins (houtline : t.outline = s.outline) (id : RelationId)
    (table related suffix : String) :
    (junctionKey t composite id table related suffix).Joins s composite id table related := by
  refine ⟨rfl, rfl, rfl, rfl, ?_, rfl, rfl⟩
  unfold junctionKey
  rw [map_keyColumns, Schema.referencedKeys_of_outline_eq houtline]

theorem junctionOf_joins (houtline : t.outline = s.outline) (id : RelationId) (r : Relation) :
    ∃ k l, (junctionOf t composite id r).foreignKeys = [k, l] ∧
      k.Joins s composite id (junctionOf t composite id r).table r.source.cls ∧
      l.Joins s composite id (junctionOf t composite id r).table r.target.cls := by
  unfold junctionOf
  dsimp only
  generalize Naming.junctionTable r.source.cls r.target.cls = table
  exact ⟨_, _, rfl, junctionKey_joins houtline id table _ _,
    junctionKey_joins houtline id table _ _⟩

theorem junctionOf_realises (houtline : t.outline = s.outline) (id : RelationId) {r : Relation}
    (hj : r.isJunction = true) : (junctionOf t composite id r).Realises s composite id r where
  isJunction := hj
  table_eq := by
    unfold junctionOf
    dsimp only
  keys := junctionOf_joins houtline id r

theorem junctionOf_carries (t : Schema) (composite : Bool) (id i : RelationId) (r : Relation) :
    (junctionOf t composite id r).carries i = true ↔ id = i := by
  simp [Junction.carries, junctionOf, junctionKey]

section OfOrder

variable {o : ClassOrder}

/-- The class at which ordering took a relation out owns it. -/
theorem owner_of_deferred (hs : s.Consistent) (ho : s.IsCreationOrder t o)
    {e : RelationId × Relation} (he : e ∈ o.deferred) :
    ∃ owner ∈ s.names, e.2.ownership owner = some .own := by
  obtain ⟨owner, howner, -, -, r, mine, theirs, hr, -, -, -, hown⟩ := ho.deferred_refers e he
  refine ⟨owner, howner, ?_⟩
  rw [hs.relation_unique (ho.deferred_live e he) hr]
  exact hown

theorem map_relation_deferred (hs : s.Consistent) (ho : s.IsCreationOrder t o) :
    ((ofOrder t o composite).deferred).map (·.relation) = o.deferred.map Prod.fst := by
  apply map_relation_filterMap_deferredKey
  intro e he
  obtain ⟨owner, -, hown⟩ := owner_of_deferred hs ho he
  exact ⟨owner, hown⟩

theorem names_eq_of_order (ho : s.IsCreationOrder t o) : t.names = s.names := by
  rw [Schema.names_eq_outline, Schema.names_eq_outline, ho.outline_eq]

/-- The tables are those of the classes, in the order given. -/
theorem map_cls_tables (ho : s.IsCreationOrder t o) :
    ((ofOrder t o composite).tables).map (·.cls) = o.classes := by
  have hclasses := filterMap_find?_of_order (t := t) o.classes fun n hn => by
    rw [names_eq_of_order ho]
    exact (ho.mem_classes n).mp hn
  unfold ofOrder
  rw [List.map_map]
  exact hclasses

theorem mem_tables_iff (ht : t.Consistent) (ho : s.IsCreationOrder t o) {table : Table} :
    table ∈ (ofOrder t o composite).tables ↔ ∃ c ∈ t.classes, table = tableOf t composite c := by
  unfold ofOrder
  rw [List.mem_map]
  constructor
  · rintro ⟨c, hc, rfl⟩
    obtain ⟨n, -, hn⟩ := List.mem_filterMap.mp hc
    exact ⟨c, (Schema.find?_some_mem hn).1, rfl⟩
  · rintro ⟨c, hc, rfl⟩
    refine ⟨c, List.mem_filterMap.mpr ⟨c.name, ?_, ht.find?_eq_some_iff.mpr ⟨hc, rfl⟩⟩, rfl⟩
    rw [ho.mem_classes, ← names_eq_of_order ho]
    exact List.mem_map.mpr ⟨c, hc, rfl⟩

theorem map_relation_tables (t : Schema) (o : ClassOrder) (composite : Bool) :
    (((ofOrder t o composite).tables).flatMap (·.foreignKeys)).map (·.relation) =
      (o.classes.filterMap t.find?).flatMap fun c =>
        (foreignKeysOf t composite c).map (·.relation) := by
  unfold ofOrder
  rw [List.map_flatMap, List.flatMap_map]
  rfl

/-- The relations with a key in a table are those left in the schema whose owner is there. -/
theorem mem_map_relation_tables (ht : t.Consistent) (ho : s.IsCreationOrder t o)
    {id : RelationId} : id ∈ (((ofOrder t o composite).tables).flatMap (·.foreignKeys)).map
      (·.relation) ↔ ∃ r owner, (id, r) ∈ t.relations ∧ r.ownership owner = some .own ∧
        owner ∈ s.names := by
  rw [map_relation_tables, List.mem_flatMap]
  constructor
  · rintro ⟨c, hc, hid⟩
    obtain ⟨n, hn, hf⟩ := List.mem_filterMap.mp hc
    obtain ⟨hmem, hname⟩ := Schema.find?_some_mem hf
    obtain ⟨r, hr, hown⟩ := (mem_map_foreignKeysOf ht hmem).mp hid
    exact ⟨r, c.name, hr, hown, (ho.mem_classes _).mp (hname ▸ hn)⟩
  · rintro ⟨r, owner, hr, hown, howner⟩
    obtain ⟨c, hf⟩ := Schema.exists_find? (s := t) (show owner ∈ t.names by
      rwa [names_eq_of_order ho])
    obtain ⟨hmem, hname⟩ := Schema.find?_some_mem hf
    refine ⟨c, List.mem_filterMap.mpr ⟨owner, (ho.mem_classes _).mpr howner, hf⟩, ?_⟩
    exact (mem_map_foreignKeysOf ht hmem).mpr ⟨r, hr, hname ▸ hown⟩

theorem nodup_map_relation_tables (ht : t.Consistent) (ho : s.IsCreationOrder t o) :
    ((((ofOrder t o composite).tables).flatMap (·.foreignKeys)).map (·.relation)).Nodup := by
  have hmem : ∀ c ∈ o.classes.filterMap t.find?, c ∈ t.classes := by
    intro c hc
    obtain ⟨n, -, hn⟩ := List.mem_filterMap.mp hc
    exact (Schema.find?_some_mem hn).1
  rw [map_relation_tables]
  apply nodup_flatMap_of_label (fun id => ((t.relation? id).map ownerOf).getD "") Class.name
  · rw [filterMap_find?_of_order]
    · exact ho.classes_nodup
    · intro n hn
      rw [names_eq_of_order ho]
      exact (ho.mem_classes n).mp hn
  · intro c hc id hid
    obtain ⟨r, hr, hown⟩ := (mem_map_foreignKeysOf ht (hmem c hc)).mp hid
    rw [ht.relation?_eq_some_iff.mpr hr]
    exact ownerOf_eq hown
  · exact fun c hc => nodup_map_foreignKeysOf ht (hmem c hc)

/-- No relation has two keys: those in tables belong to relations that are left, the deferred ones
to relations that were taken out. -/
theorem nodup_map_relation_foreignKeys (hs : s.Consistent) (ht : t.Consistent)
    (ho : s.IsCreationOrder t o) :
    ((ofOrder t o composite).foreignKeys.map (·.relation)).Nodup := by
  unfold foreignKeys
  rw [List.map_append, List.nodup_append]
  refine ⟨nodup_map_relation_tables ht ho, ?_, ?_⟩
  · rw [map_relation_deferred hs ho]
    exact ho.deferred_nodup
  · rintro id hid i hi rfl
    obtain ⟨r, owner, hr, -, -⟩ := (mem_map_relation_tables ht ho).mp hid
    rw [map_relation_deferred hs ho] at hi
    rw [ho.relations_eq, List.mem_filter, decide_eq_true_eq] at hr
    exact hr.2 hi

/-- The relations with a key are those whose owner is in the schema. -/
theorem mem_map_relation_foreignKeys (composite : Bool) (hs : s.Consistent) (ht : t.Consistent)
    (ho : s.IsCreationOrder t o) {id : RelationId} :
    id ∈ (ofOrder t o composite).foreignKeys.map (·.relation) ↔
      ∃ r owner, (id, r) ∈ s.relations ∧ r.ownership owner = some .own ∧ owner ∈ s.names := by
  unfold foreignKeys
  rw [List.map_append, List.mem_append, mem_map_relation_tables ht ho,
    map_relation_deferred hs ho, ho.relations_eq]
  constructor
  · rintro (⟨r, owner, hr, hown, howner⟩ | hid)
    · exact ⟨r, owner, (List.mem_filter.mp hr).1, hown, howner⟩
    · obtain ⟨e, he, rfl⟩ := List.mem_map.mp hid
      obtain ⟨owner, howner, hown⟩ := owner_of_deferred hs ho he
      exact ⟨e.2, owner, ho.deferred_live e he, hown, howner⟩
  · rintro ⟨r, owner, hr, hown, howner⟩
    by_cases hdef : id ∈ o.deferred.map Prod.fst
    · exact .inr hdef
    · exact .inl ⟨r, owner, List.mem_filter.mpr ⟨hr, by simpa using hdef⟩, hown, howner⟩

/-- A key realises its relation, in the table of its owner or after all tables. -/
theorem realises_of_mem_foreignKeys (hs : s.Consistent) (ht : t.Consistent)
    (ho : s.IsCreationOrder t o) {k : ForeignKey} (hk : k ∈ (ofOrder t o composite).foreignKeys)
    {r : Relation} {owner : String} (hr : (k.relation, r) ∈ s.relations)
    (hown : r.ownership owner = some .own) : k.Realises s composite k.relation r owner ∧
      ((∃ table ∈ (ofOrder t o composite).tables, table.cls = owner ∧ k ∈ table.foreignKeys) ∨
        k ∈ (ofOrder t o composite).deferred) := by
  rcases List.mem_append.mp hk with hk | hk
  · obtain ⟨table, htable, hk⟩ := List.mem_flatMap.mp hk
    obtain ⟨c, hc, rfl⟩ := (mem_tables_iff ht ho).mp htable
    obtain ⟨r', hr', hown', hreal⟩ := mem_foreignKeysOf ht ho.outline_eq hk
    rw [ho.relations_eq] at hr'
    have hsame := hs.relation_unique (List.mem_filter.mp hr').1 hr
    subst hsame
    have howner := Relation.owner_unique hown' hown
    rw [← howner]
    exact ⟨hreal, .inl ⟨_, htable, rfl, hk⟩⟩
  · refine ⟨?_, .inr hk⟩
    obtain ⟨e, he, hkey⟩ := List.mem_filterMap.mp hk
    obtain ⟨owner', -, hown'⟩ := owner_of_deferred hs ho he
    obtain ⟨k', hk', hreal⟩ := deferredKey_of_owner composite e.1 hown' ho.outline_eq
    rw [hk'] at hkey
    cases hkey
    rw [hreal.relation_eq] at hr ⊢
    have hsame := hs.relation_unique (ho.deferred_live e he) hr
    subst hsame
    rw [← Relation.owner_unique hown' hown]
    exact hreal

theorem junctions_ofOrder (ho : s.IsCreationOrder t o) (hs : s.Consistent) :
    (ofOrder t o composite).junctions =
      (s.relations.filter fun p => p.2.isJunction).map fun p => junctionOf t composite p.1 p.2 := by
  unfold ofOrder
  dsimp only
  rw [ho.relations_eq, List.filter_filter]
  congr 1
  apply List.filter_congr
  intro p hp
  -- A deferred relation has an owner, so it is no junction.
  by_cases hj : p.2.isJunction = true
  · have hnot : p.1 ∉ o.deferred.map Prod.fst := by
      intro hdef
      obtain ⟨e, he, heq⟩ := List.mem_map.mp hdef
      obtain ⟨owner, -, hown⟩ := owner_of_deferred hs ho he
      have hlive := ho.deferred_live e he
      rw [show e = (p.1, e.2) by rw [← heq]] at hlive
      rw [hs.relation_unique hlive hp] at hown
      rw [Relation.not_isJunction_of_owner hown] at hj
      cases hj
    simp [hj, hnot]
  · simp [hj]

/-- A junction carries the number of one relation. -/
theorem filter_carries_junctions (hs : s.Consistent) (ho : s.IsCreationOrder t o) {id : RelationId}
    {r : Relation} (hr : (id, r) ∈ s.relations) (hj : r.isJunction = true) :
    ((ofOrder t o composite).junctions.filter fun j => j.carries id) =
      [junctionOf t composite id r] := by
  have hmem : (id, r) ∈ s.relations.filter fun p => p.2.isJunction := List.mem_filter.mpr ⟨hr, hj⟩
  have hone := filter_eq_singleton (f := Prod.fst)
    ((List.filter_sublist.map Prod.fst).nodup hs.ids_nodup) hmem
  have hsame : (fun j : Junction => j.carries id) ∘
      (fun p : RelationId × Relation => junctionOf t composite p.1 p.2) =
      fun p => decide (p.1 = id) := by
    funext p
    rw [Function.comp_apply, Bool.eq_iff_iff, junctionOf_carries, decide_eq_true_eq]
  rw [junctions_ofOrder ho hs, List.filter_map, hsame, hone]
  rfl

theorem realises_ofOrder (hs : s.Consistent) (ht : t.Consistent) (ho : s.IsCreationOrder t o) :
    (ofOrder t o composite).Realises s composite := by
  constructor
  · rw [map_cls_tables ho]
    exact ho.classes_nodup
  · intro name
    rw [map_cls_tables ho]
    exact ho.mem_classes name
  · intro table htable
    obtain ⟨c, hc, rfl⟩ := (mem_tables_iff ht ho).mp htable
    refine ⟨rfl, ?_⟩
    rw [← Schema.referencedKeys_of_outline_eq ho.outline_eq]
    unfold referencedKeys tableOf
    dsimp only
    rw [ht.find?_eq_some_iff.mpr ⟨hc, rfl⟩]
  · intro id r owner hr hown howner
    obtain ⟨k, hk, rfl⟩ := List.mem_map.mp
      ((mem_map_relation_foreignKeys composite hs ht ho).mpr ⟨r, owner, hr, hown, howner⟩)
    obtain ⟨hreal, hplace⟩ := realises_of_mem_foreignKeys hs ht ho hk hr hown
    exact ⟨k, filter_eq_singleton (nodup_map_relation_foreignKeys hs ht ho) hk, hreal, hplace⟩
  · intro k hk
    exact (mem_map_relation_foreignKeys composite hs ht ho).mp (List.mem_map_of_mem hk)
  · intro id r hr hj
    exact ⟨junctionOf t composite id r, filter_carries_junctions hs ho hr hj,
      junctionOf_realises ho.outline_eq id hj⟩
  · rw [junctions_ofOrder ho hs, List.forall₂_map_left_iff, List.forall₂_same]
    intro e he
    exact junctionOf_realises ho.outline_eq e.1 (List.mem_filter.mp he).2

end OfOrder

/-- The plan of a reachable schema has one table for each class, one key for each relation that a
class of the schema owns, one junction for each relation that nobody owns, and nothing else. The
tables stand in the order of creation, and the deferred keys in the order of deferral. -/
theorem plan_realises_relations (h : s.Reachable) (options : Options) :
    (generate s options).plan.Realises s options.compositeKeys ∧
      (generate s options).plan.tables.map (·.cls) = s.order.2.classes ∧
      (generate s options).plan.deferred.map (·.relation) = s.order.2.deferred.map Prod.fst := by
  have hs := h.consistent
  have ho := Schema.isCreationOrder_order hs
  exact ⟨realises_ofOrder hs (Schema.consistent_order hs) ho, map_cls_tables ho,
    map_relation_deferred hs ho⟩

theorem plan_realises_crossed : Schema.crossed.Reachable ∧
    (generate Schema.crossed {}).plan.Realises Schema.crossed false ∧
      (generate Schema.crossed {}).plan.tables.map (·.cls) = Schema.crossed.order.2.classes ∧
      (generate Schema.crossed {}).plan.deferred.map (·.relation) =
        Schema.crossed.order.2.deferred.map Prod.fst :=
  ⟨Schema.reachable_crossed, plan_realises_relations Schema.reachable_crossed {}⟩

end Plan

end SchemaBridge
