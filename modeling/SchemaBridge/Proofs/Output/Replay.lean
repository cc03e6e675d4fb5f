/-
  All statements of a plan, one after the other. Those that make tables add the classes, in order,
  and the relations of their keys; those of junctions and of deferred keys add relations only.
  Main results: `applyAll_writtenIn` and `Schema.migrate_keyLines`.
-/
import SchemaBridge.Proofs.Output.Portable
import SchemaBridge.Proofs.Schema.Reachable
import SchemaBridge.Proofs.Statement.Effect

namespace SchemaBridge

open Output
open Statement (TableChange)
open Statement.TableChange (withFlags)

namespace Output

/-- Applies statements one after the other. -/
def applyAll (ws : List Written) (s : Schema) : Schema :=
  ws.foldl (fun s w => w.statement.apply s) s

theorem applyAll_append (ws more : List Written) (s : Schema) :
    applyAll (ws ++ more) s = applyAll more (applyAll ws s) :=
  List.foldl_append

/-! ## Tables -/

/-- The statement of a table adds a class with fields, and the relations of its keys. -/
structure Fits (t : Plan.Table) : Prop where
  cls_eq : Naming.className t.table = t.cls
  keys : ∀ k ∈ t.foreignKeys, Points k ∧ k.table = t.table
  clear : Clear (tableChange t) t.foreignKeys
  no_junction : (tableChange t).junction = none

/-- The class that a table stands for, with its fields. -/
def entryOf (t : Plan.Table) : String × List Field :=
  (t.cls, withFlags (tableFields t) (primaryModifiers t))

theorem outline_apply_table {t : Plan.Table} (ht : Fits t) (timestamps : Bool) {s : Schema}
    (hfresh : t.cls ∉ s.names) :
    ((Written.ofTable t timestamps).statement.apply s).outline = s.outline ++ [entryOf t] ∧
      values ((Written.ofTable t timestamps).statement.apply s) =
        values s ++ t.foreignKeys.map relationOf := by
  obtain ⟨houtline, hvalues⟩ := apply_ofTable timestamps (fun k hk => (ht.keys k hk).1) ht.clear
    ht.no_junction (ht.cls_eq ▸ hfresh)
  have hkeys : (t.foreignKeys.map fun k =>
      (settledKey k).relation (Naming.className t.table)) = t.foreignKeys.map relationOf := by
    apply List.map_congr_left
    intro k hk
    unfold relationOf
    rw [(ht.keys k hk).2]
  unfold entryOf
  rw [houtline, hvalues, hkeys, ht.cls_eq]
  exact ⟨rfl, rfl⟩

/-- The statements of tables add their classes in order. -/
theorem outline_applyAll_tables {ts : List Plan.Table} (hts : ∀ t ∈ ts, Fits t)
    (hnodup : (ts.map (·.cls)).Nodup) (timestamps : Bool) {s : Schema}
    (hfresh : ∀ t ∈ ts, t.cls ∉ s.names) :
    (applyAll (ts.map fun t => Written.ofTable t timestamps) s).outline =
        s.outline ++ ts.map entryOf ∧
      values (applyAll (ts.map fun t => Written.ofTable t timestamps) s) =
        values s ++ ts.flatMap fun t => t.foreignKeys.map relationOf := by
  unfold applyAll
  induction ts generalizing s with
  | nil => exact ⟨(List.append_nil _).symm, (List.append_nil _).symm⟩
  | cons t rest ih =>
    rw [List.map_cons, List.nodup_cons] at hnodup
    obtain ⟨houtline, hvalues⟩ := outline_apply_table (hts t List.mem_cons_self) timestamps
      (hfresh t List.mem_cons_self)
    have hnext : ∀ u ∈ rest, u.cls ∉ ((Written.ofTable t timestamps).statement.apply s).names := by
      intro u hu hmem
      rw [Schema.names_eq_outline, houtline, List.map_append, ← Schema.names_eq_outline,
        List.mem_append] at hmem
      rcases hmem with hmem | hmem
      · exact hfresh u (List.mem_cons_of_mem _ hu) hmem
      · have hsame : u.cls = t.cls := List.mem_singleton.mp hmem
        exact hnodup.1 (hsame ▸ List.mem_map_of_mem hu)
    obtain ⟨houtlines, hallvalues⟩ := ih (fun u hu => hts u (List.mem_cons_of_mem _ hu)) hnodup.2
      hnext
    rw [List.map_cons, List.foldl_cons, houtlines, hallvalues, houtline, hvalues, List.map_cons,
      List.flatMap_cons, List.append_assoc, List.append_assoc]
    exact ⟨rfl, rfl⟩

/-! ## Junctions -/

/-- The statement of a junction adds this relation. -/
structure Joins (j : Plan.Junction) (r : Relation) : Prop where
  keys : ∀ k ∈ j.foreignKeys, Points k
  no_id : "id" ∉ namesOf j.foreignKeys
  classes : ∃ a b, Naming.junctionClasses j.table = some (a, b) ∧
    (⟨⟨a, .any⟩, ⟨b, .any⟩⟩ : Relation) = r

theorem outline_applyAll_junctions {js : List Plan.Junction} {rs : List Relation}
    (h : List.Forall₂ Joins js rs) (timestamps : Bool) (s : Schema) :
    (applyAll (js.map fun j => Written.ofJunction j timestamps) s).outline = s.outline ∧
      values (applyAll (js.map fun j => Written.ofJunction j timestamps) s) =
        values s ++ rs := by
  unfold applyAll
  induction h generalizing s with
  | nil => exact ⟨rfl, (List.append_nil _).symm⟩
  | @cons j r js rs hj _ ih =>
    obtain ⟨a, b, hclasses, rfl⟩ := hj.classes
    have hone := apply_ofJunction timestamps hj.keys hj.no_id hclasses s
    obtain ⟨houtline, hvalues⟩ := ih ((Written.ofJunction j timestamps).statement.apply s)
    rw [List.map_cons, List.foldl_cons, houtline, hvalues, hone, Schema.outline_addRelation,
      values_addRelation, List.append_assoc]
    exact ⟨rfl, rfl⟩

/-! ## Deferred keys -/

/-- The key can be added to a table of the schema without taking one of its fields. -/
def AddsTo (s : Schema) (k : Plan.ForeignKey) : Prop :=
  Points k ∧ ∃ e ∈ s.outline, e.1 = Naming.className k.table ∧
    ∀ f ∈ e.2, f.name ∉ columnNames k

theorem outline_applyAll_keys {ks : List Plan.ForeignKey} {s : Schema} (hs : s.Reachable)
    (hks : ∀ k ∈ ks, AddsTo s k) :
    (applyAll (ks.map Written.ofKey) s).outline = s.outline ∧
      values (applyAll (ks.map Written.ofKey) s) = values s ++ ks.map relationOf := by
  unfold applyAll
  induction ks generalizing s with
  | nil => exact ⟨rfl, (List.append_nil _).symm⟩
  | cons k rest ih =>
    obtain ⟨hpoints, e, he, hname, hapart⟩ := hks k List.mem_cons_self
    obtain ⟨x, hx, rfl⟩ := List.mem_map.mp he
    have hone := apply_ofKey hpoints hs.consistent hx hname hapart
    have hrest : ∀ l ∈ rest, AddsTo ((Written.ofKey k).statement.apply s) l := by
      intro l hl
      unfold AddsTo
      rw [hone, Schema.outline_addRelation]
      exact hks l (List.mem_cons_of_mem _ hl)
    obtain ⟨houtline, hvalues⟩ := ih (Statement.reachable_apply _ hs) hrest
    rw [List.map_cons, List.foldl_cons, houtline, hvalues, hone, Schema.outline_addRelation,
      values_addRelation, List.map_cons, List.append_assoc]
    exact ⟨rfl, rfl⟩

theorem reachable_applyAll (ws : List Written) {s : Schema} (hs : s.Reachable) :
    (applyAll ws s).Reachable :=
  Schema.Reachable.foldl (fun _ w ht => Statement.reachable_apply w.statement ht) ws hs

/-- What all statements of a plan make of the schema without classes. -/
theorem applyAll_writtenIn {p : Plan} {rs : List Relation} (htables : ∀ t ∈ p.tables, Fits t)
    (hnodup : (p.tables.map (·.cls)).Nodup) (hjunctions : List.Forall₂ Joins p.junctions rs)
    (hdeferred : ∀ k ∈ p.deferred, Points k ∧ ∃ t ∈ p.tables,
      (entryOf t).1 = Naming.className k.table ∧ ∀ f ∈ (entryOf t).2, f.name ∉ columnNames k)
    (timestamps : Bool) :
    (applyAll (writtenIn p timestamps) .empty).outline = p.tables.map entryOf ∧
      values (applyAll (writtenIn p timestamps) .empty) =
        (p.tables.flatMap fun t => t.foreignKeys.map relationOf) ++ rs ++
          p.deferred.map relationOf := by
  unfold writtenIn
  rw [applyAll_append, applyAll_append]
  obtain ⟨houtline₁, hvalues₁⟩ := outline_applyAll_tables htables hnodup timestamps
    (s := .empty) fun _ _ => List.not_mem_nil
  obtain ⟨houtline₂, hvalues₂⟩ := outline_applyAll_junctions hjunctions timestamps
    (applyAll (p.tables.map fun t => Written.ofTable t timestamps) .empty)
  have hreachable := reachable_applyAll (p.junctions.map fun j => Written.ofJunction j timestamps)
    (reachable_applyAll (p.tables.map fun t => Written.ofTable t timestamps) .empty)
  have hadds : ∀ k ∈ p.deferred, AddsTo (applyAll
      (p.junctions.map fun j => Written.ofJunction j timestamps)
        (applyAll (p.tables.map fun t => Written.ofTable t timestamps) .empty)) k := by
    intro k hk
    obtain ⟨hpoints, t, ht, hname, hapart⟩ := hdeferred k hk
    refine ⟨hpoints, entryOf t, ?_, hname, hapart⟩
    rw [houtline₂, houtline₁]
    exact List.mem_append_right _ (List.mem_map_of_mem ht)
  obtain ⟨houtline₃, hvalues₃⟩ := outline_applyAll_keys hreachable hadds
  rw [houtline₃, houtline₂, houtline₁, hvalues₃, hvalues₂, hvalues₁]
  exact ⟨rfl, rfl⟩

end Output

/-! ## A key by itself -/

/-- The lines of a foreign key are read back as the key that they were written for, whatever its
columns refer to. They add its relation and nothing else: the classes keep their fields, so that no
column of the key is left behind as one, and the relations that were there stay as they are. -/
theorem Schema.migrate_keyLines {s : Schema} (hs : s.Reachable) {k : Plan.ForeignKey}
    (hk : k.Writable) (hadds : AddsTo s k) :
    let r : Relation := ⟨⟨Naming.className k.table, if k.unique then .zeroOrOne else .any⟩,
      ⟨k.related, if k.nullable then .zeroOrOne else .one⟩⟩
    s.migrate (statementText "table" k.table (foreignKeyChains k)) = .ok (s.addRelation r) ∧
      Becomes s (s.addRelation r) s.outline s.relations [r] := by
  obtain ⟨hpoints, e, he, hname, hapart⟩ := hadds
  obtain ⟨x, hx, rfl⟩ := List.mem_map.mp he
  have hread : Statement.read (statementText "table" k.table (foreignKeyChains k)) =
      .ok (Written.ofKey k).statement := (Written.sound_ofKey hk).read
  refine ⟨?_, Schema.becomes_addRelation hs.consistent _⟩
  unfold migrate
  rw [hread]
  exact congrArg Except.ok (apply_ofKey hpoints hs.consistent hx hname hapart)

namespace Output

/-- A key of two columns to a class with a name of two words. -/
def stockKey : Plan.ForeignKey where
  relation := 0
  table := "order_lines"
  target := "stock_items"
  related := "StockItem"
  columns := [⟨"stock_item_shop", "shop", some .string⟩, ⟨"stock_item_number", "number", some .int⟩]
  nullable := true
  unique := true

def orders : Schema :=
  (Schema.empty.ensureClass "OrderLine").modify "OrderLine" fun c => { c with
    fields := [⟨"amount", some .int, {}⟩] }

theorem migrate_keyLines_stock :
    orders.migrate (statementText "table" "order_lines" (foreignKeyChains stockKey)) =
        .ok (orders.addRelation ⟨⟨"OrderLine", .zeroOrOne⟩, ⟨"StockItem", .zeroOrOne⟩⟩) ∧
      orders.Becomes (orders.addRelation ⟨⟨"OrderLine", .zeroOrOne⟩, ⟨"StockItem", .zeroOrOne⟩⟩)
        orders.outline orders.relations
        [⟨⟨"OrderLine", .zeroOrOne⟩, ⟨"StockItem", .zeroOrOne⟩⟩] := by
  have hreachable : orders.Reachable :=
    .setFields (.ensureClass .empty "OrderLine") "OrderLine" fun _ => _
  have hwritable : stockKey.Writable := ⟨by decide, by decide, by decide, by decide⟩
  have hclass : Naming.className "order_lines" = "OrderLine" := by decide +kernel
  have hadds : AddsTo orders stockKey :=
    ⟨⟨by decide, by decide +kernel⟩, ("OrderLine", [⟨"amount", some .int, {}⟩]), by decide +kernel,
      hclass.symm, by decide +kernel⟩
  have hmigrate := Schema.migrate_keyLines hreachable hwritable hadds
  rw [show Naming.className stockKey.table = "OrderLine" from hclass] at hmigrate
  exact hmigrate

end Output

end SchemaBridge
