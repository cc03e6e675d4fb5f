/-
  What a statement does to a schema, told from its summary. A column belongs to the last foreign key
  that lists it; each key is a relation, whose multiplicities come from the flags that reach the key
  by any way; columns that belong to no key are fields.
  Main result: `migrate_has_effect`.
-/
import SchemaBridge.Proofs.Schema.Reachable
import SchemaBridge.Proofs.Statement.Summary
import SchemaBridge.Proofs.Statement.TableChange
import Mathlib.Data.List.Dedup

namespace SchemaBridge

namespace Statement

open SchemaBridge.Class (without firstFlags)
open TableChange (withFlags)

/-! ## Effects -/

namespace Summary

variable (m : Summary)

/-- The class of the table. -/
def cls : String :=
  Naming.className m.table

/-- The declared columns. -/
def columns : List Field :=
  m.clauses.filterMap fun
    | .column field => some field
    | _ => none

/-- The foreign keys. -/
def references : List Reference :=
  m.clauses.filterMap fun
    | .reference key => some key
    | _ => none

/-- The modifiers for columns declared anywhere, one column each. -/
def modifiers : List (String × Flags) :=
  m.clauses.flatMap fun
    | .flags columns flags => columns.map (·, flags)
    | _ => []

def droppedColumns : List String :=
  m.clauses.flatMap fun
    | .dropColumns columns => columns
    | _ => []

/-- The classes to which a foreign key is dropped. -/
def droppedReferences : List String :=
  m.clauses.filterMap fun
    | .dropReference related => some related
    | _ => none

/-- The place of the foreign key that a column belongs to: of those that list it, the last. -/
def placeOf (column : String) : Option Nat :=
  ((m.references.zipIdx.filter fun p => p.1.columns.contains column).getLast?).map Prod.snd

/-- The columns of the foreign keys, each once. -/
def keyColumns : List String :=
  (m.references.flatMap Reference.columns).dedup

/-- The declared columns that belong to no foreign key. -/
def lasting : List Field :=
  m.columns.filter fun f => (m.placeOf f.name).isNone

/-- The fields that are declared, with the modifiers for them. -/
def declared : List Field :=
  withFlags m.lasting m.modifiers

/-- The modifiers for fields that the table already has. -/
def outer : List (String × Flags) :=
  m.modifiers.filter fun p => (m.placeOf p.1).isNone && !m.lasting.any (·.name == p.1)

/-- The flags that reach a foreign key: its own, those of its columns where they are declared too,
those of modifiers, and those of fields that the table already has. -/
def reaching (existing : List Field) (i : Nat) (key : Reference) : List Flags :=
  key.flags ::
    ((m.columns.filter fun f => m.placeOf f.name == some i).map (·.flags) ++
      (m.modifiers.filter fun p => m.placeOf p.1 == some i).map Prod.snd ++
      (key.columns.filter fun column => m.placeOf column == some i).filterMap fun column =>
        (existing.find? (·.name == column)).map (·.flags))

/-- The relation of a foreign key. -/
def relationOf (existing : List Field) (i : Nat) (key : Reference) : Relation :=
  let flags := m.reaching existing i key
  ⟨⟨m.cls, if flags.any (·.unique) then .zeroOrOne else .any⟩,
    ⟨key.related, if flags.any (·.nullable) then .zeroOrOne else .one⟩⟩

/-- The relations of the foreign keys. -/
def relations (existing : List Field) : List Relation :=
  m.references.mapIdx (m.relationOf existing)

/-- The classes that the table links, if it is a junction. -/
def junction : Option (String × String) :=
  match m.lasting with
  | [only] => if only.name = "id" then Naming.junctionClasses m.table else none
  | _ => none

/-- What becomes of the fields of a table that is changed. -/
def fieldsAfter (existing : List Field) : List Field :=
  without m.droppedColumns (without m.keyColumns (withFlags existing m.outer) ++ m.declared)

end Summary

end Statement

namespace Schema

/-- The fields of a class. -/
def fieldsOf (s : Schema) (name : String) : List Field :=
  ((s.find? name).map Class.fields).getD []

/-- The outline with other fields for a class, which comes last if it is new. -/
def outlineWith (s : Schema) (name : String) (fields : List Field) : List (String × List Field) :=
  if name ∈ s.names then s.outline.map fun e => if e.1 = name then (name, fields) else e
  else s.outline ++ [(name, fields)]

/-- The schema has the classes of an outline, the relations left of another schema and new ones,
numbered on from there. -/
structure Becomes (s t : Schema) (outline : List (String × List Field))
    (left : List (RelationId × Relation)) (new : List Relation) : Prop where
  consistent : t.Consistent
  outline_eq : t.outline = outline
  relations_eq : t.relations = left ++ new.mapIdx fun i r => (s.nextRelation + i, r)
  next_eq : t.nextRelation = s.nextRelation + new.length

end Schema

namespace Statement

open SchemaBridge.Class (without firstFlags)
open Schema (Becomes)
open TableChange (withFlags)

/-- What a statement that makes or changes a table makes of a schema. -/
inductive Effect (m : Summary) (s t : Schema) : Prop
  | /-- A table that does nothing but link two classes is a relation. -/
    link {a b : String} (haction : m.action = .create) (hjunction : m.junction = some (a, b))
      (h : Becomes s t s.outline s.relations [⟨⟨a, .any⟩, ⟨b, .any⟩⟩])
  | create (haction : m.action = .create) (hjunction : m.junction = none)
      (h : Becomes s t (s.outlineWith m.cls (s.fieldsOf m.cls ++ m.declared)) s.relations
        (m.relations []))
  | modify (haction : m.action = .modify)
      (h : Becomes s t (s.outlineWith m.cls (m.fieldsAfter (s.fieldsOf m.cls)))
        (m.droppedReferences.foldl (fun rs other => Relation.dropNewest m.cls other rs) s.relations)
        (m.relations (s.fieldsOf m.cls)))

/-! ## The change of a summary -/

/-- A foreign key with its own flags. -/
def Reference.key (r : Reference) : KeyDeclaration :=
  KeyDeclaration.apply { related := r.related, columns := r.columns } r.flags

namespace TableChange

/-- The columns of foreign keys, each with the place of its key. -/
def columnsOf (references : List Reference) : List (String × Nat) :=
  references.zipIdx.foldl
    (fun columns p => p.1.columns.foldl (fun cols col => bindColumn cols col p.2) columns) []

/-- The change that a statement with the summary stands for. -/
def ofSummary (m : Summary) : TableChange where
  action := some m.action
  table := m.table
  cls := m.cls
  fields := m.columns
  keys := m.references.map Reference.key
  keyColumns := columnsOf m.references
  flags := m.modifiers
  droppedColumns := m.droppedColumns
  droppedKeys := m.droppedReferences

theorem columnsOf_concat (references : List Reference) (r : Reference) :
    columnsOf (references ++ [r]) =
      r.columns.foldl (fun cols col => bindColumn cols col references.length)
        (columnsOf references) := by
  unfold columnsOf
  rw [List.zipIdx_append, List.foldl_append]
  simp

end TableChange

theorem ofKeyword_eq (keyword : String) : Flags.ofKeyword keyword = flagsAmong [keyword] := by
  unfold Flags.ofKeyword flagsAmong
  split
  · rfl
  · rfl
  · rfl
  · rename_i h1 h2 h3
    simp [Flags.none, Ne.symm h1, Ne.symm h2, Ne.symm h3]

theorem flagsAmong_cons (keyword : String) (keywords : List String) :
    flagsAmong (keyword :: keywords) = flagsAmong [keyword] ∪ flagsAmong keywords := by
  simp [flagsAmong, Union.union, Flags.union]

theorem ofKeywords_eq (keywords : List String) : Flags.ofKeywords keywords = flagsAmong keywords := by
  have hfold : ∀ (ks : List String) (flags : Flags),
      ks.foldl (fun flags k => flags ∪ Flags.ofKeyword k) flags = flags ∪ flagsAmong ks := by
    intro ks
    induction ks with
    | nil => exact fun flags => flags.union_none.symm
    | cons k rest ih =>
      intro flags
      rw [List.foldl_cons, ih, ofKeyword_eq, Flags.union_assoc, ← flagsAmong_cons]
  exact (hfold keywords .none).trans (Flags.none_union _)

/-- A call adds its clause to the summary. -/
theorem addCall_ofSummary (action : TableAction) (table : String) (clauses : List Clause)
    (call : Call) :
    (TableChange.ofSummary ⟨action, table, clauses⟩).addCall call =
      .ofSummary ⟨action, table, clauses ++ call.clause.toList⟩ := by
  unfold TableChange.ofSummary Summary.columns Summary.references Summary.modifiers
    Summary.droppedColumns Summary.droppedReferences Summary.cls
  simp only [List.filterMap_append, List.flatMap_append, List.map_append]
  cases call with
  | column method name modifiers => simp [TableChange.addCall, Call.clause, ofKeywords_eq]
  | nameless method modifiers =>
    by_cases hid : method = "id"
    · have hflags : Flags.ofKeyword "primary" ∪ flagsAmong modifiers =
          { flagsAmong modifiers with primary := true } := by
        simp [Flags.ofKeyword, Union.union, Flags.union]
      simp [TableChange.addCall, Call.clause, hid, ofKeywords_eq, hflags]
    · simp [TableChange.addCall, Call.clause, hid]
  | modifier keyword columns => simp [TableChange.addCall, Call.clause, ofKeyword_eq]
  | foreignKey columns table modifiers =>
    cases columns with
    | nil => simp [TableChange.addCall, TableChange.keyOfCall, Call.clause]
    | cons first rest =>
      have hkey : TableChange.keyOfCall (first :: rest) table modifiers =
          some (Reference.key ⟨relatedTo table first, first :: rest, flagsAmong modifiers⟩) := by
        unfold TableChange.keyOfCall
        rw [ofKeywords_eq]
        rfl
      have hcolumns : ∀ r : Reference, r.key.columns = r.columns := fun _ => rfl
      simp [TableChange.addCall, Call.clause, hkey, TableChange.addKey,
        TableChange.columnsOf_concat, hcolumns]
  | dropColumns columns => simp [TableChange.addCall, Call.clause]
  | dropForeign columns =>
    cases columns with
    | nil => simp [TableChange.addCall, Call.clause]
    | cons first rest => simp [TableChange.addCall, Call.clause]

/-- The change of a statement is that of its summary. -/
theorem change_eq_ofSummary (s : SchemaBridge.Statement) :
    s.change = .ofSummary ⟨s.action, s.table, s.calls.filterMap Call.clause⟩ := by
  have hfold : ∀ calls : List Call, calls.foldl TableChange.addCall
      (.ofSummary ⟨s.action, s.table, []⟩) =
        .ofSummary ⟨s.action, s.table, calls.filterMap Call.clause⟩ := by
    intro calls
    induction calls using List.reverseRecOn with
    | nil => rfl
    | append_singleton calls call ih =>
      have hlast : [call].filterMap Call.clause = call.clause.toList := by
        cases h : call.clause <;> simp [h]
      rw [List.foldl_append, ih, List.filterMap_append, hlast]
      exact addCall_ofSummary _ _ _ call
  exact hfold s.calls

/-! ## Columns and their keys -/

namespace TableChange

variable {m : Summary}

theorem keyOf_ofSummary (m : Summary) (column : String) :
    (ofSummary m).keyOf column = m.placeOf column := by
  unfold keyOf Summary.placeOf
  show (columnsOf m.references).lookup column = _
  induction m.references using List.reverseRecOn with
  | nil => rfl
  | append_singleton references r ih =>
    rw [columnsOf_concat, lookup_foldl_bindColumn, ih, List.zipIdx_append, List.filter_append,
      List.getLast?_append]
    by_cases hr : column ∈ r.columns
    · simp [hr]
    · simp [hr]

theorem dedup_concat (l : List String) (a : String) :
    (l ++ [a]).dedup = l.dedup.filter (· != a) ++ [a] := by
  induction l with
  | nil => rfl
  | cons b rest ih =>
    rw [List.cons_append]
    by_cases hb : b ∈ rest
    · rw [List.dedup_cons_of_mem hb, List.dedup_cons_of_mem (List.mem_append_left _ hb), ih]
    · rw [List.dedup_cons_of_notMem hb]
      by_cases hba : b = a
      · rw [List.dedup_cons_of_mem (by simp [hba]), ih, List.filter_cons_of_neg (by simp [hba])]
      · rw [List.dedup_cons_of_notMem (by simp [hb, hba]), ih,
          List.filter_cons_of_pos (by simp [hba])]
        rfl

theorem map_fst_columnsOf (references : List Reference) :
    (columnsOf references).map Prod.fst = (references.flatMap Reference.columns).dedup := by
  have hfold : ∀ (names : List String) (columns : List (String × Nat)) (more : List String) (i : Nat),
      columns.map Prod.fst = more.dedup →
        (names.foldl (fun cols col => bindColumn cols col i) columns).map Prod.fst =
          (more ++ names).dedup := by
    intro names
    induction names with
    | nil =>
      intro columns more i h
      rw [List.append_nil]
      exact h
    | cons name rest ih =>
      intro columns more i h
      rw [List.foldl_cons, ih (bindColumn columns name i) (more ++ [name]) i, List.append_assoc]
      · rfl
      · rw [map_fst_bindColumn, h, dedup_concat]
  induction references using List.reverseRecOn with
  | nil => rfl
  | append_singleton references r ih =>
    rw [columnsOf_concat, hfold _ _ _ _ ih, List.flatMap_append, List.flatMap_singleton]

/-- Each column is listed with the place of its key. -/
theorem keyOf_of_mem {p : String × Nat} (h : p ∈ (ofSummary m).keyColumns) :
    (ofSummary m).keyOf p.1 = some p.2 := by
  have hnodup : ((ofSummary m).keyColumns.map Prod.fst).Nodup := by
    show ((columnsOf m.references).map Prod.fst).Nodup
    rw [map_fst_columnsOf]
    exact List.nodup_dedup _
  obtain ⟨before, after, hsplit⟩ := List.append_of_mem h
  apply List.lookup_eq_some_iff.mpr
  refine ⟨before, after, hsplit, fun q hq => ?_⟩
  rw [hsplit, List.map_append, List.nodup_append] at hnodup
  exact bne_iff_ne.mpr (hnodup.2.2 _ (List.mem_map_of_mem hq) _ List.mem_cons_self).symm

theorem placeOf_of_mem_keyColumns {column : String} (h : column ∈ m.keyColumns) :
    m.placeOf column ≠ none := by
  unfold Summary.keyColumns at h
  rw [← map_fst_columnsOf] at h
  obtain ⟨p, hp, rfl⟩ := List.mem_map.mp h
  rw [← keyOf_ofSummary, keyOf_of_mem hp]
  exact Option.some_ne_none _

/-- A column belongs to a key that lists it. -/
theorem mem_columns_of_placeOf {column : String} {i : Nat} {key : Reference}
    (hkey : m.references[i]? = some key) (h : m.placeOf column = some i) :
    column ∈ key.columns := by
  obtain ⟨p, hlast, rfl⟩ := Option.map_eq_some_iff.mp h
  obtain ⟨hmem, hcolumn⟩ := List.mem_filter.mp (List.mem_of_getLast? hlast)
  rw [List.mem_zipIdx_iff_getElem?.mp hmem, Option.some.injEq] at hkey
  rw [← hkey]
  exact List.contains_iff_mem.mp hcolumn

/-! ## Flags that reach a key -/

/-- All flags that a change delivers, given the fields that the table already has. -/
def allFlags (m : Summary) (existing : List Field) : List (String × Flags) :=
  given m.columns ++ m.modifiers ++ firstFlags m.keyColumns existing

/-- Fields give their flags to the key that holds their columns, whether they are looked up for the
columns of this key or for those of all keys. -/
theorem any_firstFlags {existing : List Field} {i : Nat} {key : Reference}
    (hkey : m.references[i]? = some key) (p : Flags → Bool) :
    ((ofSummary m).flagsFor (firstFlags m.keyColumns existing) i).any p =
      ((key.columns.filter fun column => m.placeOf column == some i).filterMap fun column =>
        (existing.find? (·.name == column)).map (·.flags)).any p := by
  rw [Bool.eq_iff_iff, List.any_eq_true, List.any_eq_true]
  apply exists_congr
  intro flags
  apply and_congr_left
  intro _
  simp only [flagsFor, firstFlags, keyOf_ofSummary, List.mem_map, List.mem_filter,
    List.mem_filterMap, Option.map_eq_some_iff, beq_iff_eq]
  constructor
  · rintro ⟨_, ⟨⟨column, -, f, hf, rfl⟩, hplace⟩, rfl⟩
    exact ⟨column, ⟨mem_columns_of_placeOf hkey hplace, hplace⟩, f, hf, rfl⟩
  · rintro ⟨column, ⟨hcolumn, hplace⟩, f, hf, rfl⟩
    have hmem : column ∈ m.keyColumns :=
      List.mem_dedup.mpr (List.mem_flatMap.mpr ⟨key, List.mem_of_getElem? hkey, hcolumn⟩)
    exact ⟨_, ⟨⟨column, hmem, f, hf, rfl⟩, hplace⟩, rfl⟩

theorem any_flagsFor {existing : List Field} {i : Nat} {key : Reference}
    (hkey : m.references[i]? = some key) (p : Flags → Bool) :
    (key.flags :: (ofSummary m).flagsFor (allFlags m existing) i).any p =
      (m.reaching existing i key).any p := by
  have hcolumns : (ofSummary m).flagsFor (given m.columns) i =
      (m.columns.filter fun f => m.placeOf f.name == some i).map (·.flags) := by
    unfold flagsFor given
    rw [List.filter_map, List.map_map]
    simp only [keyOf_ofSummary]
    rfl
  have hmodifiers : (ofSummary m).flagsFor m.modifiers i =
      (m.modifiers.filter fun p => m.placeOf p.1 == some i).map Prod.snd := by
    unfold flagsFor
    simp only [keyOf_ofSummary]
  unfold Summary.reaching allFlags
  rw [flagsFor_append, flagsFor_append, hcolumns, hmodifiers]
  simp only [List.any_cons, List.any_append, any_firstFlags hkey]

/-- The keys with all flags that reach them are the relations of the foreign keys. -/
theorem relations_deliver (existing : List Field) :
    ((ofSummary m).deliver (allFlags m existing)).keys.map (·.relation m.cls) =
      m.relations existing := by
  apply List.ext_getElem?
  intro i
  unfold deliver Summary.relations
  rw [List.getElem?_map, List.getElem?_mapIdx, List.getElem?_mapIdx]
  show (((m.references.map Reference.key)[i]?).map _).map _ = _
  rw [List.getElem?_map]
  cases hkey : m.references[i]? with
  | none => rfl
  | some key =>
    have hfold : ((ofSummary m).flagsFor (allFlags m existing) i).foldl KeyDeclaration.apply key.key =
        (key.flags :: (ofSummary m).flagsFor (allFlags m existing) i).foldl KeyDeclaration.apply
          { related := key.related, columns := key.columns } := rfl
    simp only [Option.map_some, hfold, KeyDeclaration.relation_foldl_apply, any_flagsFor hkey]
    rfl

/-! ## Settling -/

theorem lasting_ofSummary (m : Summary) : (ofSummary m).lasting = m.lasting := by
  unfold lasting Summary.lasting
  simp only [keyOf_ofSummary]
  rfl

theorem absorbFields_ofSummary (m : Summary) :
    (ofSummary m).absorbFields =
      { (ofSummary m).deliver (given m.columns) with fields := m.lasting } := by
  rw [absorbFields_deliver, lasting_ofSummary]
  rfl

theorem settle_ofSummary (m : Summary) (existing : List Field) :
    (ofSummary m).absorbFields.settle existing =
      ({ (ofSummary m).deliver (given m.columns ++ m.modifiers) with fields := m.declared },
        withFlags existing m.outer) := by
  have hapart : (ofSummary m).absorbFields.Apart := by
    rw [absorbFields_ofSummary]
    intro f hf
    show (ofSummary m).keyOf f.name = none
    rw [keyOf_ofSummary]
    exact Option.isNone_iff_eq_none.mp (List.mem_filter.mp hf).2
  have houter : (ofSummary m).absorbFields.outer m.modifiers = m.outer := by
    rw [absorbFields_ofSummary]
    unfold outer Summary.outer
    show (m.modifiers.filter fun p => ((ofSummary m).keyOf p.1).isNone && _) = _
    simp only [keyOf_ofSummary]
  have hflags : (ofSummary m).absorbFields.flags = m.modifiers := by
    rw [absorbFields_ofSummary]
    rfl
  rw [settle_deliver hapart, hflags, houter, absorbFields_ofSummary, deliver_append]
  rfl

/-- Modifiers for fields of the table leave alone those that become part of a key. -/
theorem firstFlags_withFlags_outer (m : Summary) (existing : List Field) :
    firstFlags m.keyColumns (withFlags existing m.outer) = firstFlags m.keyColumns existing := by
  have hfind : ∀ (flags : List (String × Flags)) (fields : List Field) (column : String),
      (∀ p ∈ flags, column ≠ p.1) →
        (withFlags fields flags).find? (·.name == column) = fields.find? (·.name == column) := by
    intro flags
    induction flags with
    | nil => exact fun _ _ _ => rfl
    | cons p rest ih =>
      intro fields column h
      obtain ⟨hp, hrest⟩ := List.forall_mem_cons.mp h
      exact (ih _ column hrest).trans
        (Class.find?_updateFirst_of_ne hp (·.apply p.2) (fun _ => rfl) fields)
  apply List.filterMap_congr
  intro column hcolumn
  rw [hfind]
  rintro p hp rfl
  have hnone := (Bool.and_eq_true_iff.mp (List.mem_filter.mp hp).2).1
  exact placeOf_of_mem_keyColumns hcolumn (Option.isNone_iff_eq_none.mp hnone)

/-- The change of a summary once all is settled. -/
def settled (m : Summary) (existing : List Field) : TableChange :=
  { (ofSummary m).deliver (allFlags m existing) with fields := m.declared }

theorem settle_new (m : Summary) : ((ofSummary m).absorbFields.settle []).1 = settled m [] := by
  have hnone : firstFlags m.keyColumns [] = [] :=
    List.filterMap_eq_nil_iff.mpr fun _ _ => rfl
  unfold settled allFlags
  rw [settle_ofSummary, hnone, List.append_nil]

theorem settle_existing (m : Summary) (existing : List Field) :
    ((ofSummary m).absorbFields.settle existing).1.takeFields
        ((ofSummary m).absorbFields.settle existing).2 =
      (settled m existing, without m.keyColumns (withFlags existing m.outer)) := by
  rw [settle_ofSummary]
  let c : TableChange :=
    { (ofSummary m).deliver (given m.columns ++ m.modifiers) with fields := m.declared }
  have hnames : c.keyColumns.map Prod.fst = m.keyColumns := map_fst_columnsOf m.references
  have hnodup : (c.keyColumns.map Prod.fst).Nodup := hnames ▸ List.nodup_dedup _
  calc
    c.takeFields (withFlags existing m.outer)
    _ = (c.deliver (firstFlags (c.keyColumns.map Prod.fst) (withFlags existing m.outer)),
          without (c.keyColumns.map Prod.fst) (withFlags existing m.outer)) :=
      takeFields_deliver hnodup (fun p hp => keyOf_of_mem (m := m) hp) _
    _ = (c.deliver (firstFlags m.keyColumns existing),
          without m.keyColumns (withFlags existing m.outer)) := by
      rw [hnames, firstFlags_withFlags_outer]
    _ = (settled m existing, without m.keyColumns (withFlags existing m.outer)) := by
      unfold settled allFlags
      rw [deliver_append (ofSummary m) (given m.columns ++ m.modifiers)]
      rfl

end TableChange

end Statement

/-! ## Effects on the schema -/

namespace Schema

variable {s : Schema}

theorem fieldsOf_ensureClass (s : Schema) (name : String) :
    (((s.ensureClass name).find? name).map Class.fields).getD [] = s.fieldsOf name := by
  unfold fieldsOf
  by_cases hn : name ∈ s.names
  · rw [ensureClass_of_mem hn]
  · have hnone : s.classes.find? (·.name == name) = none := find?_eq_none_iff.mpr hn
    rw [ensureClass_of_not_mem hn]
    unfold find?
    rw [List.find?_append, hnone]
    simp

theorem outlineWith_of_not_mem {name : String} (h : name ∉ s.names) (fields : List Field) :
    s.outlineWith name fields = s.outline ++ [(name, fields)] :=
  if_neg h

theorem fieldsOf_of_not_mem {name : String} (h : name ∉ s.names) : s.fieldsOf name = [] := by
  unfold fieldsOf
  rw [find?_eq_none_iff.mpr h]
  rfl

theorem fieldsOf_of_mem (h : s.Consistent) {name : String} {fields : List Field}
    (he : (name, fields) ∈ s.outline) : s.fieldsOf name = fields := by
  obtain ⟨c, hc, heq⟩ := List.mem_map.mp he
  obtain ⟨rfl, rfl⟩ := Prod.mk.injEq .. ▸ heq
  unfold fieldsOf
  rw [h.find?_eq_some_iff.mpr ⟨hc, rfl⟩]
  rfl

theorem outline_setFields (h : s.Consistent) (name : String) (f : List Field → List Field) :
    ((s.ensureClass name).modify name fun c => { c with fields := f c.fields }).outline =
      s.outlineWith name (f (s.fieldsOf name)) := by
  by_cases hn : name ∈ s.names
  · unfold outlineWith
    rw [outline_modify_fields, if_pos hn, outline_ensureClass_of_mem hn]
    apply List.map_congr_left
    intro e he
    by_cases hname : e.1 = name
    · rw [if_pos hname, if_pos hname, ← hname, fieldsOf_of_mem h he]
    · rw [if_neg hname, if_neg hname]
  · rw [outline_setFields_of_not_mem hn, outlineWith_of_not_mem hn, fieldsOf_of_not_mem hn]

theorem becomes_addRelation (h : s.Consistent) (r : Relation) :
    Becomes s (s.addRelation r) s.outline s.relations [r] where
  consistent := h.addRelation r
  outline_eq := outline_addRelation s r
  relations_eq := relations_addRelation s r
  next_eq := nextRelation_addRelation s r

theorem Becomes.unique {t u : Schema} {outline : List (String × List Field)}
    {left : List (RelationId × Relation)} {new : List Relation} (ht : Becomes s t outline left new)
    (hu : Becomes s u outline left new) : t = u :=
  ht.consistent.ext hu.consistent (ht.outline_eq.trans hu.outline_eq.symm)
    (ht.relations_eq.trans hu.relations_eq.symm) (ht.next_eq.trans hu.next_eq.symm)

end Schema

namespace Statement

open Schema (Becomes)
open TableChange (ofSummary settled)

variable {m : Summary} {s t u : Schema}

theorem Effect.unique (ht : Effect m s t) (hu : Effect m s u) : t = u := by
  cases ht with
  | link haction hjunction h =>
    cases hu with
    | link _ hjunction' h' =>
      rw [hjunction, Option.some.injEq, Prod.mk.injEq] at hjunction'
      obtain ⟨rfl, rfl⟩ := hjunction'
      exact h.unique h'
    | create _ hjunction' =>
      rw [hjunction] at hjunction'
      cases hjunction'
    | modify haction' =>
      rw [haction] at haction'
      cases haction'
  | create haction hjunction h =>
    cases hu with
    | link _ hjunction' =>
      rw [hjunction] at hjunction'
      cases hjunction'
    | create _ _ h' => exact h.unique h'
    | modify haction' =>
      rw [haction] at haction'
      cases haction'
  | modify haction h =>
    cases hu with
    | link haction' =>
      rw [haction] at haction'
      cases haction'
    | create haction' =>
      rw [haction] at haction'
      cases haction'
    | modify _ h' => exact h.unique h'

theorem Effect.consistent (h : Effect m s t) : t.Consistent := by
  cases h with
  | link _ _ h => exact h.consistent
  | create _ _ h => exact h.consistent
  | modify _ h => exact h.consistent

/-- A junction is a relation between the classes that it links. -/
theorem Effect.becomes_of_link (h : Effect m s t) (haction : m.action = .create) {a b : String}
    (hjunction : m.junction = some (a, b)) :
    Becomes s t s.outline s.relations [⟨⟨a, .any⟩, ⟨b, .any⟩⟩] := by
  cases h with
  | link _ hlinks h =>
    rw [hjunction, Option.some.injEq, Prod.mk.injEq] at hlinks
    obtain ⟨rfl, rfl⟩ := hlinks
    exact h
  | create _ hnone =>
    rw [hjunction] at hnone
    cases hnone
  | modify hmodify =>
    rw [haction] at hmodify
    cases hmodify

/-- A table that is new and no junction. -/
theorem Effect.becomes_of_create (h : Effect m s t) (haction : m.action = .create)
    (hjunction : m.junction = none) (hfresh : m.cls ∉ s.names) :
    Becomes s t (s.outline ++ [(m.cls, m.declared)]) s.relations (m.relations []) := by
  cases h with
  | link _ hlinks =>
    rw [hjunction] at hlinks
    cases hlinks
  | create _ _ h =>
    rw [Schema.fieldsOf_of_not_mem hfresh, Schema.outlineWith_of_not_mem hfresh] at h
    exact h
  | modify hmodify =>
    rw [haction] at hmodify
    cases hmodify

theorem Effect.becomes_of_change (h : Effect m s t) (haction : m.action = .modify) :
    Becomes s t (s.outlineWith m.cls (m.fieldsAfter (s.fieldsOf m.cls)))
      (m.droppedReferences.foldl (fun rs other => Relation.dropNewest m.cls other rs) s.relations)
      (m.relations (s.fieldsOf m.cls)) := by
  cases h with
  | link hcreate =>
    rw [haction] at hcreate
    cases hcreate
  | create hcreate =>
    rw [haction] at hcreate
    cases hcreate
  | modify _ h => exact h

/-- A change that drops no foreign key. -/
theorem Effect.becomes_of_modify (h : Effect m s t) (haction : m.action = .modify)
    (hdrops : m.droppedReferences = []) :
    Becomes s t (s.outlineWith m.cls (m.fieldsAfter (s.fieldsOf m.cls))) s.relations
      (m.relations (s.fieldsOf m.cls)) := by
  have hchanged := h.becomes_of_change haction
  rwa [hdrops, List.foldl_nil] at hchanged

/-- The relations of the keys of a change come to those left. -/
theorem becomes_addKeys {c : TableChange} (ht : t.Consistent)
    (hnext : t.nextRelation = s.nextRelation) :
    Becomes s (c.addKeys t) t.outline t.relations (c.keys.map (·.relation c.cls)) := by
  constructor
  · unfold TableChange.addKeys
    clear hnext
    induction c.keys generalizing t with
    | nil => exact ht
    | cons k rest ih => exact ih (ht.addRelation _)
  · exact c.outline_addKeys t
  · rw [c.relations_addKeys, hnext]
    congr 1
    apply List.ext_getElem?
    intro i
    rw [List.getElem?_mapIdx, List.getElem?_mapIdx, List.getElem?_map, Option.map_map]
    rfl
  · rw [c.nextRelation_addKeys, hnext, List.length_map]

theorem becomes_settled {outline : List (String × List Field)}
    {left : List (RelationId × Relation)} (existing : List Field) (ht : t.Consistent)
    (houtline : t.outline = outline) (hleft : t.relations = left)
    (hnext : t.nextRelation = s.nextRelation) :
    Becomes s ((settled m existing).addKeys t) outline left (m.relations existing) := by
  rw [← houtline, ← hleft, ← TableChange.relations_deliver]
  exact becomes_addKeys ht hnext

theorem effect_create (hs : s.Consistent) (haction : m.action = .create) :
    Effect m s ((ofSummary m).create s) := by
  have hjunction : (ofSummary m).absorbFields.junction = m.junction := by
    rw [TableChange.absorbFields_ofSummary]
    rfl
  unfold TableChange.create
  dsimp only
  rw [hjunction, TableChange.settle_new]
  cases hm : m.junction with
  | some classes =>
    obtain ⟨a, b⟩ := classes
    exact .link haction hm (Schema.becomes_addRelation hs _)
  | none =>
    exact .create haction hm <| becomes_settled []
      ((hs.ensureClass m.cls).modify_fields m.cls (· ++ m.declared))
      (Schema.outline_setFields hs m.cls (· ++ m.declared))
      (Schema.relations_ensureClass s m.cls) (Schema.nextRelation_ensureClass s m.cls)

theorem effect_modify (hs : s.Consistent) (haction : m.action = .modify) :
    Effect m s ((ofSummary m).modify s) := by
  have hcls : (ofSummary m).absorbFields.cls = m.cls := by
    rw [TableChange.absorbFields_ofSummary]
    rfl
  unfold TableChange.modify
  dsimp only
  rw [hcls, Schema.fieldsOf_ensureClass, TableChange.settle_existing]
  generalize hexisting : s.fieldsOf m.cls = existing
  have houtline := Schema.outline_setFields hs m.cls fun _ => m.fieldsAfter existing
  have hchanged := (hs.ensureClass m.cls).modify_fields m.cls fun _ => m.fieldsAfter existing
  obtain ⟨hconsistent, houtline', hrelations, hnext⟩ :=
    TableChange.dropKeys_spec (c := settled m existing) hchanged m.droppedReferences
  refine .modify haction ?_
  rw [hexisting]
  refine becomes_settled existing hconsistent (houtline'.trans houtline) (hrelations.trans ?_)
    (hnext.trans (Schema.nextRelation_ensureClass s m.cls))
  rw [Schema.relations_modify, Schema.relations_ensureClass]
  rfl

/-- A statement has the effect that its summary says. -/
theorem effect_apply (statement : SchemaBridge.Statement) (hs : s.Consistent)
    (haction : statement.action ≠ .drop) :
    Effect ⟨statement.action, statement.table, statement.calls.filterMap Call.clause⟩ s
      (statement.apply s) := by
  unfold apply TableChange.commit
  rw [change_eq_ofSummary]
  cases h : statement.action with
  | create => exact effect_create hs rfl
  | modify => exact effect_modify hs rfl
  | drop => exact absurd h haction

theorem Says.migrate {text : String} (h : Says text m) (hs : s.Consistent)
    (haction : m.action ≠ .drop) : ∃ t, s.migrate text = .ok t ∧ Effect m s t := by
  obtain ⟨statement, hread, rfl⟩ := h.read
  refine ⟨statement.apply s, ?_, effect_apply statement hs haction⟩
  unfold Schema.migrate
  rw [hread]
  rfl

end Statement

open Statement

/-- A text that makes or changes a table has, on any schema that can arise, the effect that its
tokens say, and no other. Ignored calls are no part of its tokens. -/
theorem Schema.migrate_has_effect {s t : Schema} {text : String} (hs : s.Reachable)
    (h : s.migrate text = .ok t)
    (haction : (summaryOf (tokenize text).tokens).action ≠ .drop) :
    (∀ u, Effect (summaryOf (tokenize text).tokens) s u ↔ u = t) ∧
      ∀ total call rest, afterIgnored? call = some rest →
        tokensFrom total ('-' :: '>' :: call) = tokensFrom total rest := by
  obtain ⟨statement, hread, rfl⟩ : ∃ statement, read text = .ok statement ∧
      statement.apply s = t := by
    unfold migrate at h
    cases hread : read text with
    | error e =>
      rw [hread] at h
      cases h
    | ok statement =>
      rw [hread] at h
      exact ⟨statement, rfl, Except.ok.inj h⟩
  rw [summary_of_read hread] at haction ⊢
  have heffect := effect_apply statement hs.consistent haction
  refine ⟨fun u => ⟨fun hu => hu.unique heffect, ?_⟩, ?_⟩
  · rintro rfl
    exact heffect
  · intro total call rest hrest
    have hskip : afterTrivia? ('-' :: '>' :: call) = some rest := hrest
    exact tokensFrom_congr (skipTrivia_of_some hskip) total

/-! ### A key for a column that was a field -/

namespace Statement

/-- The fields of a class: a title, and an author that need not be known. -/
def postFields : List Field :=
  [⟨"title", some .string, {}⟩, ⟨"author_id", some .bigint, { nullable := true }⟩]

def posts : Schema :=
  ((Schema.empty.ensureClass "Post").modify "Post" fun c => { c with
    fields := postFields }).addRelation ⟨⟨"Post", .any⟩, ⟨"Tag", .one⟩⟩

/-- The modifier comes before the key that it is for. -/
def authorText : String :=
  "Schema::table('posts', function ($table) \x7b
    $table->unique('author_id');
    $table->foreignId('author_id')->constrained('users');
\x7d);"

/-- What `authorText` says. -/
def authorSummary : Summary where
  action := .modify
  table := "posts"
  clauses := [.flags ["author_id"] { unique := true }, .reference ⟨"Author", ["author_id"], {}⟩]

/-- The key is unique by the modifier and nullable by the field. -/
def authoredPosts : Schema where
  classes := [{
    name := "Post"
    fields := [⟨"title", some .string, {}⟩]
    links := [("Author", [1]), ("Tag", [0])] }]
  relations := [(0, ⟨⟨"Post", .any⟩, ⟨"Tag", .one⟩⟩),
    (1, ⟨⟨"Post", .zeroOrOne⟩, ⟨"Author", .zeroOrOne⟩⟩)]
  nextRelation := 2

theorem reachable_posts : posts.Reachable :=
  .addRelation (.setFields (.ensureClass .empty "Post") "Post" fun _ => postFields) _

theorem summaryOf_authorText : (tokenize authorText).failure = none ∧
    (tokenize authorText).tokens.map Token.kind ∈ language ∧
    summaryOf (tokenize authorText).tokens = authorSummary := by
  decide +kernel

theorem effect_posts : Effect authorSummary posts authoredPosts := by
  have hposts : authoredPosts = (posts.modify "Post" fun c => { c with
      fields := [⟨"title", some .string, {}⟩] }).addRelation
        ⟨⟨"Post", .zeroOrOne⟩, ⟨"Author", .zeroOrOne⟩⟩ := by
    decide +kernel
  have hreachable : authoredPosts.Reachable := by
    rw [hposts]
    exact .addRelation (.setFields reachable_posts "Post" fun _ => _) _
  exact .modify rfl ⟨hreachable.consistent, by decide +kernel, by decide +kernel, by decide +kernel⟩

theorem migrate_has_effect_posts :
    posts.migrate authorText = .ok authoredPosts ∧
      ∀ u, Effect (summaryOf (tokenize authorText).tokens) posts u ↔ u = authoredPosts := by
  obtain ⟨hfailure, hmem, hsummary⟩ := summaryOf_authorText
  obtain ⟨t, ht⟩ : ∃ t, posts.migrate authorText = .ok t := by
    rcases read_cases authorText with ⟨-, -, statement, hread⟩ | ⟨e, he, -⟩
    · unfold Schema.migrate
      rw [hread]
      exact ⟨_, rfl⟩
    · exact absurd hmem (he.not_mem_language hfailure)
  have heffect := (Schema.migrate_has_effect reachable_posts ht (by rw [hsummary]; decide)).1
  obtain rfl := (heffect authoredPosts).mp (hsummary ▸ effect_posts)
  exact ⟨ht, heffect⟩

end Statement

end SchemaBridge
