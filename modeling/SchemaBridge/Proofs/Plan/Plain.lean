/-
  The plan of a schema whose names are names is plain: its tables and columns can be quoted, its
  columns are declared by column methods, and no key is without a column.
  Main result: `plain_plan`.
-/
import SchemaBridge.Plan.Build
import SchemaBridge.Proofs.Diagram.Names
import SchemaBridge.Proofs.Schema.CreationOrder
import SchemaBridge.Proofs.Statement.Lexer

namespace SchemaBridge.Plan

open Statement (isPlainWord)

/-- The word declares a column. -/
structure IsMethod (m : String) : Prop where
  word : isPlainWord m.toList = true
  kind : Statement.Kind.ofWord m.toList = .type

theorem isMethod_of_method? {t : ColumnType} {m : String} (h : t.method? = some m) :
    IsMethod m := by
  cases t <;> cases h <;> exact ⟨by decide, by decide⟩

structure Column.Plain (c : Column) : Prop where
  name : Harmless c.name
  method : IsMethod c.method

structure KeyColumn.Plain (c : KeyColumn) : Prop where
  name : Harmless c.name
  references : Harmless c.references
  /-- The name is that of a class and that of a column there, with an underscore between them. -/
  joined : '_' ∈ c.name.toList

structure ForeignKey.Plain (k : ForeignKey) : Prop where
  table : Harmless k.table
  target : Harmless k.target
  columns : ∀ c ∈ k.columns, c.Plain
  columns_ne : k.columns ≠ []

/-- The lines of the key can be written: it has columns, and every name in it can be quoted. -/
structure ForeignKey.Writable (k : ForeignKey) : Prop where
  table : Harmless k.table
  target : Harmless k.target
  columns : ∀ c ∈ k.columns, Harmless c.name ∧ Harmless c.references
  columns_ne : k.columns ≠ []

theorem ForeignKey.Plain.writable {k : ForeignKey} (h : k.Plain) : k.Writable where
  table := h.table
  target := h.target
  columns := fun c hc => ⟨(h.columns c hc).name, (h.columns c hc).references⟩
  columns_ne := h.columns_ne

structure Table.Plain (t : Table) : Prop where
  table : Harmless t.table
  keys : ∀ k ∈ t.keys, Harmless k.name
  keys_ne : t.keys ≠ []
  columns : ∀ c ∈ t.columns, c.Plain
  foreignKeys : ∀ k ∈ t.foreignKeys, k.Plain

structure Junction.Plain (j : Junction) : Prop where
  table : Harmless j.table
  foreignKeys : ∀ k ∈ j.foreignKeys, k.Plain

/-- Everything in the plan is plain. -/
structure Plain (p : Plan) : Prop where
  tables : ∀ t ∈ p.tables, t.Plain
  junctions : ∀ j ∈ p.junctions, j.Plain
  deferred : ∀ k ∈ p.deferred, k.Plain

/-! ## Keys -/

theorem harmless_id : Harmless "id" := by decide

theorem harmless_empty : Harmless "" := by decide

theorem keysOf_ne_nil (c : Class) (composite : Bool) : keysOf c composite ≠ [] := by
  unfold keysOf
  split
  · exact List.cons_ne_nil _ _
  · split
    · exact List.cons_ne_nil _ _
    · exact List.cons_ne_nil _ _
    · rename_i hnil _
      split
      · exact fun h => hnil (List.map_eq_nil_iff.mp h)
      · exact List.cons_ne_nil _ _

/-- A key is named `id` or as a field. -/
theorem name_of_mem_keysOf {c : Class} {composite : Bool} {k : Key} (h : k ∈ keysOf c composite) :
    k.name = "id" ∨ ∃ f ∈ c.fields, k.name = f.name := by
  unfold keysOf at h
  split at h
  · rename_i f hf
    rw [List.mem_singleton.mp h]
    exact .inr ⟨f, List.mem_of_find?_eq_some hf, rfl⟩
  · split at h
    · rw [List.mem_singleton.mp h]
      exact .inl rfl
    · rename_i f hf
      rw [List.mem_singleton.mp h]
      have hmem : f ∈ c.fields.filter (·.flags.primary) := by
        rw [hf]
        exact List.mem_singleton.mpr rfl
      exact .inr ⟨f, (List.mem_filter.mp hmem).1, rfl⟩
    · split at h
      · obtain ⟨f, hf, rfl⟩ := List.mem_map.mp h
        exact .inr ⟨f, (List.mem_filter.mp hf).1, rfl⟩
      · rw [List.mem_singleton.mp h]
        exact .inl rfl

variable {s : Schema} {composite : Bool}

theorem harmless_keysOf (hs : s.Spelled) {c : Class} (hc : c ∈ s.classes) {k : Key}
    (h : k ∈ keysOf c composite) : Harmless k.name := by
  have houtline : (c.name, c.fields) ∈ s.outline := List.mem_map_of_mem hc
  rcases name_of_mem_keysOf h with hid | ⟨f, hf, hname⟩
  · rw [hid]
    exact harmless_id
  · rw [hname]
    exact ((hs.classes _ houtline).2 f hf).harmless

theorem harmless_referencedKeys (hs : s.Spelled) {cls : String} {k : Key}
    (h : k ∈ referencedKeys s composite cls) : Harmless k.name := by
  unfold referencedKeys at h
  split at h
  · rename_i c hc
    exact harmless_keysOf hs (List.mem_of_find?_eq_some hc) h
  · rw [List.mem_singleton.mp h]
    exact harmless_id

theorem referencedKeys_ne_nil (s : Schema) (composite : Bool) (cls : String) :
    referencedKeys s composite cls ≠ [] := by
  unfold referencedKeys
  split
  · exact keysOf_ne_nil _ _
  · exact List.cons_ne_nil _ _

theorem keyColumns_ne_nil (s : Schema) (composite : Bool) (related suffix : String) :
    keyColumns s composite related suffix ≠ [] :=
  fun h => referencedKeys_ne_nil s composite related (List.map_eq_nil_iff.mp h)

theorem plain_keyColumns (hs : s.Spelled) {related suffix : String} (hrelated : Harmless related)
    (hsuffix : Harmless suffix) : ∀ c ∈ keyColumns s composite related suffix, c.Plain := by
  intro c hc
  obtain ⟨k, hk, rfl⟩ := List.mem_map.mp hc
  have hkey := harmless_referencedKeys hs hk
  have hdash : Harmless "_" := by decide
  refine ⟨(((Naming.harmless_snake hrelated).append hdash).append hkey).append hsuffix, hkey, ?_⟩
  rw [String.toList_append, String.toList_append, String.toList_append]
  exact List.mem_append_left _ (List.mem_append_left _ (List.mem_append_right _
    (List.mem_singleton.mpr rfl)))

theorem harmless_suffixText (number : Option Nat) : Harmless (suffixText number) := by
  cases number with
  | none => exact harmless_empty
  | some n => exact harmless_repr n

theorem harmless_otherEnd {r : Relation} (hsource : Harmless r.source.cls)
    (htarget : Harmless r.target.cls) (cls : String) : Harmless (otherEnd r cls) := by
  unfold otherEnd Relation.ends
  split
  · rename_i h
    split at h
    · cases h
      exact htarget
    · split at h <;> cases h
      exact hsource
  · exact htarget

theorem plain_foreignKey (hs : s.Spelled) {id : RelationId} {r : Relation} {owner : String}
    {number : Option Nat} {k : ForeignKey} (hsource : Harmless r.source.cls)
    (htarget : Harmless r.target.cls) (howner : Harmless owner)
    (h : foreignKey s composite id r owner number = some k) : k.Plain := by
  have hother := harmless_otherEnd hsource htarget owner
  unfold foreignKey at h
  split at h <;> cases h
  exact ⟨Naming.harmless_tableName howner, Naming.harmless_tableName hother,
    plain_keyColumns hs hother (harmless_suffixText number), keyColumns_ne_nil _ _ _ _⟩

theorem plain_foreignKeysOf (hs : s.Spelled) {c : Class} (hc : c ∈ s.classes) :
    ∀ k ∈ foreignKeysOf s composite c, k.Plain := by
  have hname := ((hs.classes (c.name, c.fields) (List.mem_map_of_mem hc)).1).harmless
  intro k hk
  obtain ⟨link, -, hk⟩ := List.mem_flatMap.mp hk
  obtain ⟨⟨p, n⟩, hp, hkey⟩ := List.mem_filterMap.mp hk
  obtain ⟨id, -, hown⟩ := List.mem_filterMap.mp (List.fst_mem_of_mem_zipIdx hp)
  split at hown
  · rename_i r hr
    split at hown <;> cases hown
    have hends := hs.relations _ (Schema.relation?_some_mem hr)
    exact plain_foreignKey hs hends.1.harmless hends.2.harmless hname hkey
  · cases hown

/-! ## Tables -/

theorem plain_columnsOf (hs : s.Spelled) {c : Class} (hc : c ∈ s.classes) (usesId : Bool) :
    ∀ column ∈ columnsOf c usesId, column.Plain := by
  intro column hcolumn
  obtain ⟨f, hf, h⟩ := List.mem_filterMap.mp hcolumn
  have hname := ((hs.classes (c.name, c.fields) (List.mem_map_of_mem hc)).2 f hf).harmless
  split at h <;> cases h
  rename_i hof
  unfold columnOf at hof
  split at hof
  · cases hof
  · split at hof
    · cases hof
    · split at hof <;> cases hof
      rename_i hmethod
      exact ⟨hname, isMethod_of_method? hmethod⟩

theorem plain_tableOf (hs : s.Spelled) {c : Class} (hc : c ∈ s.classes) :
    (tableOf s composite c).Plain where
  table := Naming.harmless_tableName
    (hs.classes (c.name, c.fields) (List.mem_map_of_mem hc)).1.harmless
  keys := fun _ hk => harmless_keysOf hs hc hk
  keys_ne := keysOf_ne_nil c composite
  columns := plain_columnsOf hs hc _
  foreignKeys := plain_foreignKeysOf hs hc

theorem plain_junctionKey (hs : s.Spelled) (id : RelationId) {table related suffix : String}
    (htable : Harmless table) (hrelated : Harmless related) (hsuffix : Harmless suffix) :
    (junctionKey s composite id table related suffix).Plain :=
  ⟨htable, Naming.harmless_tableName hrelated, plain_keyColumns hs hrelated hsuffix,
    keyColumns_ne_nil _ _ _ _⟩

theorem plain_junctionOf (hs : s.Spelled) (id : RelationId) {r : Relation}
    (hsource : Harmless r.source.cls) (htarget : Harmless r.target.cls) :
    (junctionOf s composite id r).Plain := by
  have htable := Naming.harmless_junctionTable hsource htarget
  have hsuffix : ∀ n : Nat, Harmless (if r.isSelf then toString n else "") := by
    intro n
    by_cases hself : r.isSelf = true
    · rw [if_pos hself]
      exact harmless_repr n
    · rw [if_neg hself]
      exact harmless_empty
  constructor
  · unfold junctionOf
    dsimp only
    exact htable
  · intro k hk
    rcases List.mem_cons.mp hk with rfl | hk
    · exact plain_junctionKey hs id htable hsource (hsuffix 1)
    · rw [List.mem_singleton.mp hk]
      exact plain_junctionKey hs id htable htarget (hsuffix 2)

/-- Ordering takes no name into a schema. -/
theorem spelled_order (hs : s.Spelled) (hc : s.Consistent) : s.order.1.Spelled := by
  have ho := Schema.isCreationOrder_order hc
  constructor
  · rw [ho.outline_eq]
    exact hs.classes
  · rw [ho.relations_eq]
    exact fun p hp => hs.relations p (List.mem_filter.mp hp).1

theorem plain_plan (hs : s.Spelled) (hc : s.Consistent) (options : Options) :
    (s.plan options).2.Plain := by
  have ho := Schema.isCreationOrder_order hc
  have ht := spelled_order hs hc
  constructor
  · intro table htable
    obtain ⟨c, hc, rfl⟩ := List.mem_map.mp htable
    obtain ⟨name, -, hname⟩ := List.mem_filterMap.mp hc
    exact plain_tableOf ht (List.mem_of_find?_eq_some hname)
  · intro j hj
    obtain ⟨p, hp, rfl⟩ := List.mem_map.mp hj
    have hends := ht.relations p (List.mem_filter.mp hp).1
    exact plain_junctionOf ht p.1 hends.1.harmless hends.2.harmless
  · intro k hk
    obtain ⟨e, he, hkey⟩ := List.mem_filterMap.mp hk
    have hends := hs.relations e (ho.deferred_live e he)
    have howner : Harmless (ownerOf e.2) := by
      unfold ownerOf
      split
      · exact hends.2.harmless
      · exact hends.1.harmless
    exact plain_foreignKey ht hends.1.harmless hends.2.harmless howner hkey

end SchemaBridge.Plan
