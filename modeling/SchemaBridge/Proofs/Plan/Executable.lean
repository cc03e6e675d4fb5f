/-
  Plans can be carried out in order. A key that comes with its table refers to a table made
  before, to its own or to one outside the schema; junctions and deferred keys come when all tables
  are there; and a column that a key refers to is one that its table really has. Where the tables
  stand is decided by the creation order, which columns they have by the fields of their classes,
  and what the keys refer to by the keys of the class at the other end.
  Main result: `executable_ofOrder`.
-/
import SchemaBridge.Proofs.Output.Written
import SchemaBridge.Proofs.Plan.Realisation

namespace SchemaBridge

/-- Every primary field has a type that a column can be declared with. -/
def Schema.KeysDeclarable (s : Schema) : Prop :=
  ∀ c ∈ s.classes, ∀ f ∈ c.fields, f.flags.primary = true →
    ∃ type method, f.type = some type ∧ type.method? = some method

namespace Plan

/-! ## What can be carried out -/

/-- The table is made with a column of this name, its `id` or one that holds a field. -/
def Table.Makes (t : Table) (name : String) : Prop :=
  (name = "id" ∧ t.usesId = true) ∨ name ∈ t.columns.map (·.name)

/-- The key refers to the columns of the table's key, and these are made with the table. -/
structure ForeignKey.PointsInto (k : ForeignKey) (t : Table) : Prop where
  related_eq : k.related = t.cls
  target_eq : k.target = t.table
  columns_eq : k.columns.map (fun c => (c.references, c.type)) =
    t.keys.map fun key => (key.name, key.type)
  makes : ∀ c ∈ k.columns, t.Makes c.references

/-- The foreign keys of the junctions of a plan. -/
def junctionKeys (p : Plan) : List ForeignKey :=
  p.junctions.flatMap (·.foreignKeys)

/-- How a plan for the schema `s` can be carried out. -/
structure Executable (s : Schema) (p : Plan) : Prop where
  /-- A key of a table refers to a class outside the schema, to that of the table, or to that of
  an earlier one. -/
  earlier : ∀ (i : Nat) t, p.tables[i]? = some t → ∀ k ∈ t.foreignKeys,
    k.related ∉ s.names ∨ k.related = t.cls ∨
      ∃ j u, j < i ∧ p.tables[j]? = some u ∧ u.cls = k.related
  /-- A key of a junction refers to a class outside the schema or to one with a table. -/
  junctions : ∀ k ∈ p.junctionKeys, k.related ∉ s.names ∨ ∃ t ∈ p.tables, t.cls = k.related
  /-- A deferred key is added to the table of one class of the schema, the owner of its relation,
  and refers to that of another. -/
  deferred : ∀ k ∈ p.deferred,
    (∃ t ∈ p.tables, t.cls ∈ s.names ∧ k.table = t.table ∧
      ∃ r, (k.relation, r) ∈ s.relations ∧ r.ownership t.cls = some .own) ∧
    k.related ∈ s.names ∧ ∃ t ∈ p.tables, t.cls = k.related
  /-- Every key that refers to a class of the schema points into the table of that class. -/
  points : ∀ k ∈ p.foreignKeys ++ p.junctionKeys, k.related ∈ s.names →
    ∃ t ∈ p.tables, k.PointsInto t

/-! ## The key of a table -/

/-- A field with a usable type has a column, unless it is the `id` of a table with one. -/
theorem mem_columnsOf {c : Class} {usesId : Bool} {f : Field} (hf : f ∈ c.fields)
    (hid : (usesId && f.name == "id") = false) {type : ColumnType} {method : String}
    (htype : f.type = some type) (hmethod : type.method? = some method) :
    f.name ∈ (columnsOf c usesId).map (·.name) := by
  have hcolumn : columnOf c.name usesId f = some (.ok
      { name := f.name, method
        nullable := !f.flags.primary && f.flags.nullable
        unique := !f.flags.primary && f.flags.unique }) := by
    unfold columnOf
    rw [if_neg (Bool.eq_false_iff.mp hid), htype]
    dsimp only
    rw [hmethod]
  have hmem : (⟨f.name, method, !f.flags.primary && f.flags.nullable,
      !f.flags.primary && f.flags.unique⟩ : Column) ∈ columnsOf c usesId :=
    List.mem_filterMap.mpr ⟨f, hf, by rw [hcolumn]⟩
  exact List.mem_map_of_mem hmem

/-- Without a field `id` every primary field with a usable type has a column. -/
theorem mem_columnsOf_of_primary {c : Class} (usesId : Bool) (hno : c.field? "id" = none)
    (hdecl : ∀ f ∈ c.fields, f.flags.primary = true →
      ∃ type method, f.type = some type ∧ type.method? = some method)
    {f : Field} (hf : f ∈ c.fields.filter (·.flags.primary)) :
    f.name ∈ (columnsOf c usesId).map (·.name) := by
  obtain ⟨hmem, hprimary⟩ := List.mem_filter.mp hf
  obtain ⟨type, method, htype, hmethod⟩ := hdecl f hmem hprimary
  have hname : (f.name == "id") = false := by
    have hnot := List.find?_eq_none.mp hno f hmem
    exact Bool.eq_false_iff.mpr hnot
  exact mem_columnsOf hmem (by rw [hname, Bool.and_false]) htype hmethod

/-- A table has the columns of its own key. -/
theorem makes_tableOf {s : Schema} {composite : Bool} {c : Class}
    (hdecl : ∀ f ∈ c.fields, f.flags.primary = true →
      ∃ type method, f.type = some type ∧ type.method? = some method) :
    ∀ key ∈ (tableOf s composite c).keys, (tableOf s composite c).Makes key.name := by
  have hself : ∀ keys, keysOf c composite = keys → ∀ key ∈ keys,
      (key.name = "id" ∧ usesId keys = true) ∨
        key.name ∈ (columnsOf c (usesId keys)).map (·.name) := by
    intro keys hkeys key hkey
    unfold keysOf at hkeys
    split at hkeys
    · rename_i f hf
      have hfind : c.fields.find? (·.name == "id") = some f := hf
      have hname : f.name = "id" := by simpa using List.find?_some hfind
      subst hkeys
      rw [List.mem_singleton.mp hkey]
      exact .inl ⟨hname, beq_iff_eq.mpr hname⟩
    · rename_i hno
      split at hkeys
      · subst hkeys
        rw [List.mem_singleton.mp hkey]
        exact .inl ⟨rfl, rfl⟩
      · rename_i f hone
        subst hkeys
        rw [List.mem_singleton.mp hkey]
        refine .inr (mem_columnsOf_of_primary _ hno hdecl (f := f) ?_)
        rw [hone]
        exact List.mem_singleton.mpr rfl
      · split at hkeys
        · subst hkeys
          obtain ⟨f, hf, rfl⟩ := List.mem_map.mp hkey
          exact .inr (mem_columnsOf_of_primary _ hno hdecl hf)
        · subst hkeys
          rw [List.mem_singleton.mp hkey]
          exact .inl ⟨rfl, rfl⟩
  exact hself _ rfl

/-! ## The plan of an order -/

section OfOrder

variable {s t : Schema} {composite : Bool} {o : ClassOrder}

theorem exists_table (composite : Bool) (ho : s.IsCreationOrder t o) {cls : String}
    (h : cls ∈ s.names) : ∃ table ∈ (ofOrder t o composite).tables, table.cls = cls := by
  have hcls : ((ofOrder t o composite).tables).map (·.cls) = o.classes := map_cls_tables ho
  rw [← ho.mem_classes, ← hcls] at h
  exact List.mem_map.mp h

theorem makes_of_mem_tables (ht : t.Consistent) (ho : s.IsCreationOrder t o)
    (hdecl : s.KeysDeclarable) {table : Table} (h : table ∈ (ofOrder t o composite).tables) :
    ∀ key ∈ table.keys, table.Makes key.name := by
  obtain ⟨c, hc, rfl⟩ := (mem_tables_iff ht ho).mp h
  apply makes_tableOf
  have hmem : (c.name, c.fields) ∈ s.outline := by
    rw [← ho.outline_eq]
    exact List.mem_map_of_mem hc
  obtain ⟨d, hd, heq⟩ := List.mem_map.mp hmem
  have hfields : d.fields = c.fields := congrArg Prod.snd heq
  exact hfields ▸ hdecl d hd

/-- Whose columns refer to the key of a class points into the table of that class. -/
theorem pointsInto_of_columns_eq (ht : t.Consistent) (ho : s.IsCreationOrder t o)
    (hdecl : s.KeysDeclarable) (hreal : (ofOrder t o composite).Realises s composite)
    {k : ForeignKey} (htarget : k.target = Naming.tableName k.related)
    (hcolumns : k.columns.map (fun c => (c.references, c.type)) =
      (referencedKeys s composite k.related).map fun key => (key.name, key.type))
    (h : k.related ∈ s.names) : ∃ table ∈ (ofOrder t o composite).tables, k.PointsInto table := by
  obtain ⟨table, htable, hcls⟩ := exists_table composite ho h
  obtain ⟨hname, hkeys⟩ := hreal.table_of_class table htable
  rw [← hcls, ← hkeys] at hcolumns
  refine ⟨table, htable, hcls.symm, ?_, hcolumns, fun c hc => ?_⟩
  · rw [htarget, hname, hcls]
  · have hpair : (c.references, c.type) ∈ table.keys.map fun key => (key.name, key.type) :=
      hcolumns ▸ List.mem_map_of_mem (f := fun c : KeyColumn => (c.references, c.type)) hc
    obtain ⟨key, hkey, heq⟩ := List.mem_map.mp hpair
    have hname : key.name = c.references := congrArg Prod.fst heq
    rw [← hname]
    exact makes_of_mem_tables ht ho hdecl htable key hkey

/-- A key that its table holds belongs to a relation that ordering left in the schema. -/
theorem refers_of_mem_tables (ht : t.Consistent) (ho : s.IsCreationOrder t o) {table : Table}
    (htable : table ∈ (ofOrder t o composite).tables) {k : ForeignKey}
    (hk : k ∈ table.foreignKeys) :
    k.related = table.cls ∨ t.RefersBy table.cls k.relation k.related := by
  obtain ⟨c, hc, rfl⟩ := (mem_tables_iff ht ho).mp htable
  obtain ⟨r, hr, hown, hreal⟩ := mem_foreignKeysOf ht ho.outline_eq hk
  obtain ⟨mine, theirs, he, hrelated, -⟩ := hreal.ends
  by_cases hself : r.isSelf = true
  · exact .inl (hrelated.trans ((Relation.isSelf_iff_of_ends he).mp hself))
  · exact .inr ⟨r, mine, theirs, hr, Bool.eq_false_iff.mpr hself, he, hrelated.symm, hown⟩

theorem earlier_of_mem_tables (ht : t.Consistent) (ho : s.IsCreationOrder t o) {i : Nat}
    {table : Table} (hi : (ofOrder t o composite).tables[i]? = some table) {k : ForeignKey}
    (hk : k ∈ table.foreignKeys) : k.related ∉ s.names ∨ k.related = table.cls ∨
      ∃ j u, j < i ∧ (ofOrder t o composite).tables[j]? = some u ∧ u.cls = k.related := by
  have htable := List.mem_of_getElem? hi
  rcases refers_of_mem_tables ht ho htable hk with hself | hrefers
  · exact .inr (.inl hself)
  by_cases hrelated : k.related ∈ s.names
  · have hcls : ((ofOrder t o composite).tables).map (·.cls) = o.classes := map_cls_tables ho
    have hplace : o.classes[i]? = some table.cls := by
      rw [← hcls, List.getElem?_map, hi]
      rfl
    have howner : table.cls ∈ s.names := (ho.mem_classes _).mp (List.mem_of_getElem? hplace)
    obtain ⟨a, b, hab, ha, hb⟩ := ho.referenced_first _ _ _ hrefers howner hrelated
    have hbi : b = i :=
      (List.getElem?_inj (List.getElem?_eq_some_iff.mp hb).1 ho.classes_nodup).mp
        (hb.trans hplace.symm)
    rw [← hcls, List.getElem?_map] at ha
    obtain ⟨u, hu, hname⟩ := Option.map_eq_some_iff.mp ha
    exact .inr (.inr ⟨a, u, hbi ▸ hab, hu, hname⟩)
  · exact .inl hrelated

/-- A deferred key belongs to a relation between two classes of the schema. -/
theorem ends_of_mem_deferred (hs : s.Consistent) (ho : s.IsCreationOrder t o) {k : ForeignKey}
    (hk : k ∈ (ofOrder t o composite).deferred) : ∃ r owner, (k.relation, r) ∈ s.relations ∧
      r.ownership owner = some .own ∧ owner ∈ s.names ∧ k.related ∈ s.names ∧
      k.Realises s composite k.relation r owner := by
  obtain ⟨e, he, hkey⟩ := List.mem_filterMap.mp hk
  obtain ⟨owner, howner, other, hother, r, mine, theirs, hr, -, hends, hcls, hown⟩ :=
    ho.deferred_refers e he
  have hsame := hs.relation_unique (ho.deferred_live e he) hr
  obtain ⟨k', hk', hreal⟩ := deferredKey_of_owner (s := s) composite e.1
    (hsame ▸ hown) ho.outline_eq
  rw [hk'] at hkey
  cases hkey
  obtain ⟨mine', theirs', hends', hrelated, -⟩ := hreal.ends
  rw [hsame, hends] at hends'
  cases hends'
  rw [hreal.relation_eq]
  refine ⟨r, owner, hr, hown, howner, ?_, hsame ▸ hreal⟩
  rw [hrelated, hcls]
  exact hother

/-- A key of a junction joins the table of the junction to the one it refers to. -/
theorem joins_of_mem_junctionKeys (hs : s.Consistent) (ho : s.IsCreationOrder t o) {k : ForeignKey}
    (hk : k ∈ (ofOrder t o composite).junctionKeys) :
    ∃ id table, k.Joins s composite id table k.related := by
  obtain ⟨j, hj, hk⟩ := List.mem_flatMap.mp hk
  rw [junctions_ofOrder ho hs] at hj
  obtain ⟨p, -, rfl⟩ := List.mem_map.mp hj
  obtain ⟨a, b, hkeys, ha, hb⟩ : ∃ a b,
      (junctionOf t composite p.1 p.2).foreignKeys = [a, b] ∧ _ ∧ _ :=
    junctionOf_joins ho.outline_eq p.1 p.2
  rw [hkeys, List.mem_cons, List.mem_singleton] at hk
  rcases hk with rfl | rfl
  · exact ⟨_, _, ha.related_eq ▸ ha⟩
  · exact ⟨_, _, hb.related_eq ▸ hb⟩

theorem executable_ofOrder (hs : s.Consistent) (ht : t.Consistent) (ho : s.IsCreationOrder t o)
    (hdecl : s.KeysDeclarable) : (ofOrder t o composite).Executable s := by
  have hreal : (ofOrder t o composite).Realises s composite := realises_ofOrder hs ht ho
  constructor
  · exact fun i table hi k hk => earlier_of_mem_tables ht ho hi hk
  · intro k _
    by_cases hrelated : k.related ∈ s.names
    · exact .inr (exists_table composite ho hrelated)
    · exact .inl hrelated
  · intro k hk
    obtain ⟨r, owner, hr, hown, howner, hrelated, hkey⟩ := ends_of_mem_deferred hs ho hk
    obtain ⟨table, htable, hcls⟩ := exists_table composite ho howner
    refine ⟨⟨table, htable, hcls ▸ howner, ?_, r, hr, hcls ▸ hown⟩, hrelated,
      exists_table composite ho hrelated⟩
    rw [hkey.table_eq, (hreal.table_of_class table htable).1, hcls]
  · intro k hk hrelated
    rcases List.mem_append.mp hk with hk | hk
    · obtain ⟨r, owner, hr, hown, -⟩ := hreal.key_of_relation k hk
      obtain ⟨hkey, -⟩ := realises_of_mem_foreignKeys hs ht ho hk hr hown
      obtain ⟨_, _, -, hother, htarget, -⟩ := hkey.ends
      exact pointsInto_of_columns_eq ht ho hdecl hreal (hother ▸ htarget) hkey.columns_eq hrelated
    · obtain ⟨id, table, hjoin⟩ := joins_of_mem_junctionKeys hs ho hk
      exact pointsInto_of_columns_eq ht ho hdecl hreal hjoin.target_eq hjoin.columns_eq hrelated

end OfOrder

/-! ## The files of a plan -/

open Output (Written migrations) in
/-- The migrations of the tables come before those of the junctions and of the deferred keys. -/
theorem migrations_in_order (p : Plan) (options : Options) :
    ∃ made added, migrations p options = made ++ added ∧
      List.Forall₂ (fun t f => (Written.ofTable t options.timestamps).StandsIn f.contents)
        p.tables made ∧
      List.Forall₂ (fun w f => w.StandsIn f.contents)
        (p.junctions.map (Written.ofJunction · options.timestamps)
          ++ p.deferred.map Written.ofKey) added := by
  have hfiles := (Output.standsIn_migrations p options).flip
  unfold Output.writtenIn at hfiles
  rw [List.append_assoc] at hfiles
  have hmade := (List.forall₂_take_append _ _ _ hfiles).flip
  have hadded := (List.forall₂_drop_append _ _ _ hfiles).flip
  exact ⟨_, _, (List.take_append_drop _ _).symm, List.forall₂_map_left_iff.mp hmade, hadded⟩

variable {s : Schema}

/-- The plan of a reachable schema whose primary fields can be declared can be carried out in the
order in which its migrations stand: those of the tables first, each after the tables its keys
refer to, and then those of the junctions and of the deferred keys. -/
theorem plan_executable (h : s.Reachable) (hdecl : s.KeysDeclarable) (options : Options) :
    (generate s options).plan.Executable s ∧
      ∃ made added, (generate s options).migrations = made ++ added ∧
        List.Forall₂
          (fun t f => (Output.Written.ofTable t options.timestamps).StandsIn f.contents)
          (generate s options).plan.tables made ∧
        List.Forall₂ (fun w f => w.StandsIn f.contents)
          ((generate s options).plan.junctions.map (Output.Written.ofJunction · options.timestamps)
            ++ (generate s options).plan.deferred.map Output.Written.ofKey) added := by
  have hs := h.consistent
  have ho := Schema.isCreationOrder_order hs
  exact ⟨executable_ofOrder hs (Schema.consistent_order hs) ho hdecl, migrations_in_order _ options⟩

/-- Two classes that refer to each other, by a key of two columns and by a key of one, a junction
between them, and a class that refers to itself. -/
def circle : Schema :=
  ((((((((Schema.empty.ensureClass "Course").ensureClass "Term").ensureClass "Person").modify
    "Course" fun c => { c with fields := c.fields ++
      [⟨"code", some .string, { primary := true }⟩, ⟨"year", some .int, { primary := true }⟩,
        ⟨"title", none, {}⟩] }).modify
    "Term" fun c => { c with fields := c.fields ++ [⟨"name", some .string, { primary := true }⟩] }
    ).addRelation ⟨⟨"Course", .any⟩, ⟨"Term", .one⟩⟩).addRelation
    ⟨⟨"Term", .zeroOrOne⟩, ⟨"Course", .one⟩⟩).addRelation
    ⟨⟨"Course", .any⟩, ⟨"Term", .any⟩⟩).addRelation ⟨⟨"Person", .any⟩, ⟨"Person", .zeroOrOne⟩⟩

theorem reachable_circle : circle.Reachable :=
  ((((((((Schema.Reachable.empty.ensureClass _).ensureClass _).ensureClass _).setFields _
    (· ++ _)).setFields _ (· ++ _)).addRelation _).addRelation _).addRelation _).addRelation _

theorem keysDeclarable_circle : circle.KeysDeclarable := by
  have hall : circle.classes.all (fun c => c.fields.all fun f =>
      !f.flags.primary || (f.type.bind ColumnType.method?).isSome) = true := by decide
  intro c hc f hf hprimary
  have hfield := List.all_eq_true.mp (List.all_eq_true.mp hall c hc) f hf
  rw [hprimary, Bool.not_true, Bool.false_or] at hfield
  obtain ⟨method, hmethod⟩ := Option.isSome_iff_exists.mp hfield
  obtain ⟨type, htype, hof⟩ := Option.bind_eq_some_iff.mp hmethod
  exact ⟨type, method, htype, hof⟩

theorem plan_executable_circle : circle.Reachable ∧ circle.KeysDeclarable ∧
    (generate circle { compositeKeys := true }).plan.Executable circle :=
  ⟨reachable_circle, keysDeclarable_circle,
    (plan_executable reachable_circle keysDeclarable_circle { compositeKeys := true }).1⟩

end Plan

end SchemaBridge
