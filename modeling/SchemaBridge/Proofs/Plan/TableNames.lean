/-
  The tables that a plan makes. The tables of classes have different names if the classes' names in
  the plural differ. Junctions are named after their two classes alone and are not numbered, so two
  of them are one table when two relations link the same classes many to many; for classes of one
  word that is the only way.
  Main result: `nodup_tableNames_iff`.
-/
import SchemaBridge.Proofs.Plan.Executable
import Mathlib.Data.List.Basic

namespace SchemaBridge

/-! ## Names of junctions -/

namespace Naming

theorem junctionTable_comm (a b : String) : junctionTable a b = junctionTable b a := by
  unfold junctionTable
  by_cases hab : snake a ≤ snake b <;> by_cases hba : snake b ≤ snake a
  · rw [if_pos hab, if_pos hba, String.le_antisymm hab hba]
  · rw [if_pos hab, if_neg hba]
  · rw [if_neg hab, if_pos hba]
  · exact absurd ((String.le_total _ _).resolve_left hab) hba

/-- Names of one word can be told from their junction. -/
theorem eq_of_join_eq {a b c d : String} (ha : '_' ∉ a.toList) (hb : '_' ∉ b.toList)
    (h : a ++ "_" ++ b = c ++ "_" ++ d) : a = c ∧ b = d := by
  have hchars := congrArg String.toList h
  simp only [String.toList_append, List.append_assoc] at hchars
  obtain ⟨hac, -, hbd⟩ := (List.append_cons_inj_of_notMem ha hb).mp hchars
  exact ⟨String.toList_inj.mp hac, String.toList_inj.mp hbd⟩

theorem snake_eq_of_junctionTable_eq {a b c d : String} (ha : '_' ∉ (snake a).toList)
    (hb : '_' ∉ (snake b).toList) (h : junctionTable a b = junctionTable c d) :
    (snake a = snake c ∧ snake b = snake d) ∨ (snake a = snake d ∧ snake b = snake c) := by
  unfold junctionTable at h
  split at h <;> split at h
  · exact .inl (eq_of_join_eq ha hb h)
  · exact .inr (eq_of_join_eq ha hb h)
  · exact .inr (eq_of_join_eq hb ha h).symm
  · exact .inl (eq_of_join_eq hb ha h).symm

end Naming

/-- The relations that get a junction. -/
def Schema.manyToMany (s : Schema) : List (RelationId × Relation) :=
  s.relations.filter fun e => e.2.isJunction

/-- The table of the junction of a relation. -/
def Relation.junctionTable (r : Relation) : String :=
  Naming.junctionTable r.source.cls r.target.cls

/-- The junctions of any two relations are different tables. -/
def Schema.JunctionsApart (s : Schema) : Prop :=
  s.manyToMany.Pairwise fun e f => e.2.junctionTable ≠ f.2.junctionTable

/-- No two relations link the same classes many to many. -/
def Schema.LinkedOnce (s : Schema) : Prop :=
  s.manyToMany.Pairwise fun e f => f.2.connects e.2.source.cls e.2.target.cls = false

/-- Every class has a table of its own. -/
def Schema.TablesApart (s : Schema) : Prop :=
  ∀ c ∈ s.names, ∀ d ∈ s.names, Naming.tableName c = Naming.tableName d → c = d

/-- The name of every class is one word. -/
def Schema.OneWorded (s : Schema) : Prop :=
  ∀ c ∈ s.names, '_' ∉ (Naming.snake c).toList

namespace Relation

theorem junctionTable_eq_of_connects {r q : Relation}
    (h : q.connects r.source.cls r.target.cls = true) : r.junctionTable = q.junctionTable := by
  unfold connects at h
  unfold junctionTable
  simp only [Bool.or_eq_true, Bool.and_eq_true, beq_iff_eq] at h
  rcases h with ⟨hs, ht⟩ | ⟨hs, ht⟩
  · rw [hs, ht]
  · rw [hs, ht, Naming.junctionTable_comm]

end Relation

namespace Schema

variable {s : Schema}

theorem JunctionsApart.linkedOnce (h : s.JunctionsApart) : s.LinkedOnce :=
  List.Pairwise.imp (fun hne => Bool.eq_false_iff.mpr fun hconnects =>
    hne (Relation.junctionTable_eq_of_connects hconnects)) h

/-- Classes with tables of their own have different names in the singular too. -/
theorem TablesApart.eq_of_snake_eq (h : s.TablesApart) {c d : String} (hc : c ∈ s.names)
    (hd : d ∈ s.names) (hsnake : Naming.snake c = Naming.snake d) : c = d :=
  h c hc d hd (congrArg Naming.pluralize hsnake)

/-- Relations between classes of one word have one junction table only if they link the same
classes. -/
theorem LinkedOnce.junctionsApart (h : s.LinkedOnce) (hclosed : s.Closed) (htables : s.TablesApart)
    (hwords : s.OneWorded) : s.JunctionsApart := by
  refine List.Pairwise.imp_of_mem ?_ h
  intro e f he hf hconnects htable
  obtain ⟨hes, het⟩ := hclosed e (List.mem_filter.mp he).1
  obtain ⟨hfs, hft⟩ := hclosed f (List.mem_filter.mp hf).1
  have hsame : f.2.connects e.2.source.cls e.2.target.cls = true := by
    unfold Relation.connects
    rcases Naming.snake_eq_of_junctionTable_eq (hwords _ hes) (hwords _ het) htable with
      ⟨hs, ht⟩ | ⟨hs, ht⟩
    · rw [htables.eq_of_snake_eq hes hfs hs, htables.eq_of_snake_eq het hft ht]
      simp
    · rw [htables.eq_of_snake_eq hes hft hs, htables.eq_of_snake_eq het hfs ht]
      simp
  rw [hconnects] at hsame
  cases hsame

end Schema

namespace Plan

/-! ## Names of all tables -/

/-- The names of the tables of classes and then those of junctions. -/
def tableNames (p : Plan) : List String :=
  p.tables.map (·.table) ++ p.junctions.map (·.table)

/-- The tables that statements make. -/
def createdTables (ws : List Output.Written) : List String :=
  (ws.filter fun w => w.action = .create).map (·.table)

theorem createdTables_append (ws us : List Output.Written) :
    createdTables (ws ++ us) = createdTables ws ++ createdTables us := by
  unfold createdTables
  rw [List.filter_append, List.map_append]

theorem createdTables_of_create {ws : List Output.Written} (h : ∀ w ∈ ws, w.action = .create) :
    createdTables ws = ws.map (·.table) := by
  unfold createdTables
  rw [List.filter_eq_self.mpr fun w hw => decide_eq_true (h w hw)]

/-- The statements of a plan make its tables, each as often as it is named. -/
theorem createdTables_writtenIn (p : Plan) (timestamps : Bool) :
    createdTables (Output.writtenIn p timestamps) = p.tableNames := by
  have htables : createdTables (p.tables.map fun t => .ofTable t timestamps) =
      p.tables.map (·.table) := by
    rw [createdTables_of_create (List.forall_mem_map.mpr fun _ _ => rfl), List.map_map]
    rfl
  have hjunctions : createdTables (p.junctions.map fun j => .ofJunction j timestamps) =
      p.junctions.map (·.table) := by
    rw [createdTables_of_create (List.forall_mem_map.mpr fun _ _ => rfl), List.map_map]
    rfl
  have hkeys : createdTables (p.deferred.map Output.Written.ofKey) = [] := by
    unfold createdTables
    rw [List.filter_eq_nil_iff.mpr (List.forall_mem_map.mpr fun _ _ => Bool.false_ne_true)]
    rfl
  unfold Output.writtenIn tableNames
  rw [createdTables_append, createdTables_append, htables, hjunctions, hkeys, List.append_nil]

theorem table_junctionOf (t : Schema) (composite : Bool) (id : RelationId) (r : Relation) :
    (junctionOf t composite id r).table = r.junctionTable := by
  unfold junctionOf Relation.junctionTable
  dsimp only

section OfOrder

variable {s t : Schema} {composite : Bool} {o : ClassOrder}

theorem map_table_tables (ho : s.IsCreationOrder t o) :
    ((ofOrder t o composite).tables).map (·.table) = o.classes.map Naming.tableName := by
  have hcls : ((ofOrder t o composite).tables).map (·.cls) = o.classes := map_cls_tables ho
  rw [← hcls, List.map_map]
  unfold ofOrder
  rw [List.map_map, List.map_map]
  rfl

theorem map_table_junctions (hs : s.Consistent) (ho : s.IsCreationOrder t o) :
    ((ofOrder t o composite).junctions).map (·.table) =
      s.manyToMany.map fun e => e.2.junctionTable := by
  rw [junctions_ofOrder ho hs, List.map_map]
  exact List.map_congr_left fun e _ => table_junctionOf t composite e.1 e.2

/-- If classes have tables of their own, apart from those of junctions, tables can only clash where
junctions do. -/
theorem nodup_tableNames_iff (hs : s.Consistent) (ho : s.IsCreationOrder t o)
    (htables : s.TablesApart) (hfree : ∀ c ∈ s.names, ∀ j ∈ (ofOrder t o composite).junctions,
      Naming.tableName c ≠ j.table) :
    (ofOrder t o composite).tableNames.Nodup ↔ s.JunctionsApart := by
  have hclasses : (((ofOrder t o composite).tables).map (·.table)).Nodup := by
    rw [map_table_tables ho]
    refine ho.classes_nodup.map_on fun c hc d hd hsame => ?_
    exact htables c ((ho.mem_classes c).mp hc) d ((ho.mem_classes d).mp hd) hsame
  have hdisjoint : ∀ a ∈ ((ofOrder t o composite).tables).map (·.table),
      ∀ b ∈ ((ofOrder t o composite).junctions).map (·.table), a ≠ b := by
    rintro a ha b hb rfl
    rw [map_table_tables ho] at ha
    obtain ⟨c, hc, rfl⟩ := List.mem_map.mp ha
    obtain ⟨j, hj, hname⟩ := List.mem_map.mp hb
    exact hfree c ((ho.mem_classes c).mp hc) j hj hname.symm
  have hjunctions : (((ofOrder t o composite).junctions).map (·.table)).Nodup ↔
      s.JunctionsApart := by
    rw [map_table_junctions hs ho, List.Nodup, List.pairwise_map]
    exact Iff.rfl
  unfold tableNames
  rw [List.nodup_append, hjunctions]
  exact ⟨fun h => h.2.1, fun h => ⟨hclasses, h, hdisjoint⟩⟩

end OfOrder

variable {s : Schema}

/-- The migrations of a reachable schema make the tables that its plan names. If its classes have
tables of their own, apart from those of junctions, none is made twice just if the junctions are
different tables. Then no two relations link the same classes many to many, and for classes of one
word that is enough. -/
theorem tables_made_once_iff (h : s.Reachable) (options : Options) (htables : s.TablesApart)
    (hfree : ∀ c ∈ s.names, ∀ j ∈ (generate s options).plan.junctions,
      Naming.tableName c ≠ j.table) :
    ((generate s options).plan.tableNames.Nodup ↔ s.JunctionsApart) ∧
      (s.JunctionsApart → s.LinkedOnce) ∧
      (s.Closed → s.OneWorded → s.LinkedOnce → s.JunctionsApart) ∧
      ∃ ws, List.Forall₂ (fun w f => w.StandsIn f.contents) ws (generate s options).migrations ∧
        createdTables ws = (generate s options).plan.tableNames :=
  ⟨nodup_tableNames_iff h.consistent (Schema.isCreationOrder_order h.consistent) htables hfree,
    Schema.JunctionsApart.linkedOnce,
    fun hclosed hwords honce => honce.junctionsApart hclosed htables hwords,
    _, Output.standsIn_migrations _ options, createdTables_writtenIn _ _⟩

/-- A tag and a post, linked many to many, and a post linked to itself. -/
def tagged : Schema :=
  ((((Schema.empty.ensureClass "Post").ensureClass "Tag").addRelation
    ⟨⟨"Post", .any⟩, ⟨"Tag", .any⟩⟩).addRelation ⟨⟨"Post", .any⟩, ⟨"Post", .atLeastOne⟩⟩)

theorem tables_made_once_tagged : tagged.Reachable ∧ tagged.TablesApart ∧
    (∀ c ∈ tagged.names, ∀ j ∈ (generate tagged {}).plan.junctions,
      Naming.tableName c ≠ j.table) ∧ (generate tagged {}).plan.tableNames.Nodup := by
  have hreachable : tagged.Reachable :=
    (((Schema.Reachable.empty.ensureClass _).ensureClass _).addRelation _).addRelation _
  have htables : tagged.TablesApart := by
    unfold Schema.TablesApart
    decide +kernel
  have hfree : ∀ c ∈ tagged.names, ∀ j ∈ (generate tagged {}).plan.junctions,
      Naming.tableName c ≠ j.table := by decide +kernel
  have hapart : tagged.JunctionsApart := by
    unfold Schema.JunctionsApart
    decide +kernel
  exact ⟨hreachable, htables, hfree,
    (tables_made_once_iff hreachable {} htables hfree).1.mpr hapart⟩

/-- Two classes with two links between them. -/
def doubled : Schema :=
  (((Schema.empty.ensureClass "A").ensureClass "B").addRelation
    ⟨⟨"A", .any⟩, ⟨"B", .any⟩⟩).addRelation ⟨⟨"A", .any⟩, ⟨"B", .any⟩⟩

/-- Both junctions are the table `a_b`. -/
theorem table_made_twice_doubled : doubled.Reachable ∧ doubled.TablesApart ∧
    (∀ c ∈ doubled.names, ∀ j ∈ (generate doubled {}).plan.junctions,
      Naming.tableName c ≠ j.table) ∧ ¬(generate doubled {}).plan.tableNames.Nodup := by
  refine ⟨(((Schema.Reachable.empty.ensureClass _).ensureClass _).addRelation _).addRelation _,
    ?_, ?_, ?_⟩
  · unfold Schema.TablesApart
    decide +kernel
  · decide +kernel
  · decide +kernel

end Plan

end SchemaBridge
