/-
  What the statements of a plan do to a schema that they are applied to. The statement of a table
  adds a class with its fields and a relation for each foreign key; that of a junction adds one
  relation and no class; that of a deferred key adds one relation and leaves the fields alone.
  Main results: `apply_ofTable`, `apply_ofJunction` and `apply_ofKey`.
-/
import SchemaBridge.Proofs.Output.Change
import SchemaBridge.Proofs.Schema.Outline
import Mathlib.Data.List.Pairwise

namespace SchemaBridge.Output

open Statement (Call KeyDeclaration TableChange)
open Statement.TableChange (withFlags given)

/-! ## Relations of keys -/

/-- The values of the relations of a schema, in order. -/
def values (s : Schema) : List Relation :=
  s.relations.map Prod.snd

theorem values_addRelation (s : Schema) (r : Relation) :
    values (s.addRelation r) = values s ++ [r] := by
  unfold values
  rw [Schema.relations_addRelation, List.map_append]
  rfl

theorem values_addKeys (c : TableChange) (s : Schema) :
    values (c.addKeys s) = values s ++ c.keys.map (·.relation c.cls) := by
  unfold TableChange.addKeys
  induction c.keys generalizing s with
  | nil => exact (List.append_nil _).symm
  | cons k rest ih =>
    rw [List.foldl_cons, ih, values_addRelation, List.map_cons, List.append_assoc]
    rfl

/-! ## Settling -/

theorem columns_takeAll (k : KeyDeclaration) (flags : List (String × Flags)) :
    (k.takeAll flags).columns = k.columns := by
  unfold KeyDeclaration.takeAll
  induction flags generalizing k with
  | nil => rfl
  | cons m rest ih => rw [List.foldl_cons, ih, KeyDeclaration.columns_takeFlags]

theorem map_name_withFlags (fields : List Field) (flags : List (String × Flags)) :
    (withFlags fields flags).map (·.name) = fields.map (·.name) := by
  unfold TableChange.withFlags
  induction flags generalizing fields with
  | nil => rfl
  | cons m rest ih => rw [List.foldl_cons, ih, Class.map_name_updateFirst]

theorem withFlags_of_not_mem {fields : List Field} {flags : List (String × Flags)}
    (h : ∀ m ∈ flags, m.1 ∉ fields.map (·.name)) : withFlags fields flags = fields := by
  unfold TableChange.withFlags
  induction flags with
  | nil => rfl
  | cons m rest ih =>
    have hm : ∀ f ∈ fields, f.name ≠ m.1 := fun f hf hname =>
      h m List.mem_cons_self (List.mem_map.mpr ⟨f, hf, hname⟩)
    rw [List.foldl_cons, Class.updateFirst_of_not_mem _ hm]
    exact ih fun n hn => h n (List.mem_cons_of_mem _ hn)

/-- A change without keys so far, and keys to declare in it that have their columns to
themselves. -/
structure Clear (c : TableChange) (ks : List Plan.ForeignKey) : Prop where
  keys_eq : c.keys = []
  keyColumns_eq : c.keyColumns = []
  columns_ne : ∀ k ∈ ks, k.columns ≠ []
  apart_keys : Apart ks
  apart : ∀ f ∈ c.fields, f.name ∉ namesOf ks
  known : ∀ m ∈ c.flags, m.1 ∈ c.fields.map (·.name)

variable {c : TableChange} {ks : List Plan.ForeignKey}

theorem Clear.keyOf_eq_none (h : Clear c ks) (column : String) : c.keyOf column = none := by
  unfold TableChange.keyOf
  rw [h.keyColumns_eq]
  rfl

theorem Clear.bound (h : Clear c ks) : (withKeys c ks).Bound := by
  apply bound_withKeys
  · intro column i
    rw [h.keyOf_eq_none, h.keys_eq]
    simp
  · exact h.apart_keys
  · exact fun column _ => h.keyOf_eq_none column

theorem fields_withKeys (c : TableChange) (ks : List Plan.ForeignKey) :
    (withKeys c ks).fields = c.fields ++ ks.flatMap keyFields := by
  rw [withKeys_eq]

theorem flags_withKeys (c : TableChange) (ks : List Plan.ForeignKey) :
    (withKeys c ks).flags = c.flags ++ ks.flatMap keyModifiers := by
  rw [withKeys_eq]

theorem keys_withKeys (c : TableChange) (ks : List Plan.ForeignKey) :
    (withKeys c ks).keys = c.keys ++ ks.map declaredKey := by
  rw [withKeys_eq]

theorem mem_namesOf {k : Plan.ForeignKey} (hk : k ∈ ks) {column : String}
    (hcolumn : column ∈ columnNames k) : column ∈ namesOf ks :=
  List.mem_flatMap.mpr ⟨k, hk, hcolumn⟩

/-- Only the fields for the columns of keys are taken in. -/
theorem filter_fields_withKeys (hfresh : ∀ column, c.keyOf column = none)
    (hapart : ∀ f ∈ c.fields, f.name ∉ namesOf ks) :
    ((withKeys c ks).fields.filter fun f => ((withKeys c ks).keyOf f.name).isNone) = c.fields := by
  rw [fields_withKeys, List.filter_append]
  have hkept : (c.fields.filter fun f => ((withKeys c ks).keyOf f.name).isNone) = c.fields := by
    apply List.filter_eq_self.mpr
    intro f hf
    rw [keyOf_withKeys_eq_none_iff.mpr ⟨hfresh f.name, hapart f hf⟩]
    rfl
  have htaken : ((ks.flatMap keyFields).filter fun f =>
      ((withKeys c ks).keyOf f.name).isNone) = [] := by
    apply List.filter_eq_nil_iff.mpr
    intro f hf hnone
    obtain ⟨k, hk, hfk⟩ := List.mem_flatMap.mp hf
    have hnot := (keyOf_withKeys_eq_none_iff.mp (Option.isNone_iff_eq_none.mp hnone)).2
    exact hnot (mem_namesOf hk (name_mem_of_mem_keyFields hfk))
  rw [hkept, htaken, List.append_nil]

/-- A column is a column of one key only. -/
theorem eq_of_mem_columnNames (hks : Apart ks) {k l : Plan.ForeignKey} (hk : k ∈ ks)
    (hl : l ∈ ks) {column : String} (hck : column ∈ columnNames k) (hcl : column ∈ columnNames l) :
    k = l := by
  have hsymm : Std.Symm fun k l : Plan.ForeignKey =>
      ∀ column ∈ columnNames k, column ∉ columnNames l :=
    ⟨fun _ _ hapart column hl hk => hapart column hk hl⟩
  by_contra hne
  exact hks.forall hk hl hne column hck hcl

theorem Clear.ownedBy (h : Clear c ks) {k : Plan.ForeignKey} (hk : k ∈ ks) :
    OwnedBy k (withKeys c ks).fields (withKeys c ks).flags := by
  rw [fields_withKeys, flags_withKeys]
  constructor
  · intro f hf hmem
    rcases List.mem_append.mp hf with hf | hf
    · exact absurd (mem_namesOf hk hmem) (h.apart f hf)
    · obtain ⟨l, hl, hfl⟩ := List.mem_flatMap.mp hf
      rw [eq_of_mem_columnNames h.apart_keys hk hl hmem (name_mem_of_mem_keyFields hfl)]
      exact hfl
  · exact fun f hf => List.mem_append_right _ (List.mem_flatMap.mpr ⟨k, hk, hf⟩)
  · intro m hm hmem
    rcases List.mem_append.mp hm with hm | hm
    · obtain ⟨f, hf, hname⟩ := List.mem_map.mp (h.known m hm)
      exact absurd (mem_namesOf hk (hname ▸ hmem)) (h.apart f hf)
    · obtain ⟨l, hl, hml⟩ := List.mem_flatMap.mp hm
      rw [eq_of_mem_columnNames h.apart_keys hk hl hmem (name_mem_of_mem_keyModifiers hml)]
      exact hml
  · exact fun m hm => List.mem_append_right _ (List.mem_flatMap.mpr ⟨k, hk, hm⟩)

/-- With its fields absorbed, the change has the keys with the flags of their fields. -/
theorem Clear.absorbFields_eq (h : Clear c ks) :
    (withKeys c ks).absorbFields = { withKeys c ks with
      fields := c.fields
      keys := (ks.map declaredKey).map (·.takeAll (given (withKeys c ks).fields)) } := by
  have habsorbed := TableChange.absorbFields_eq h.bound
  rw [filter_fields_withKeys h.keyOf_eq_none h.apart, keys_withKeys, h.keys_eq,
    List.nil_append] at habsorbed
  exact habsorbed

/-- Every modifier is for a field or for the column of a key. -/
theorem Clear.settled (h : Clear c ks) :
    (withKeys c ks).absorbFields.Settled (withKeys c ks).absorbFields.flags := by
  rw [h.absorbFields_eq]
  constructor
  · have hbound := h.bound.map (f := (·.takeAll (given (withKeys c ks).fields)))
      fun k => columns_takeAll k _
    rw [keys_withKeys, h.keys_eq, List.nil_append] at hbound
    exact hbound
  · intro f hf
    exact keyOf_withKeys_eq_none_iff.mpr ⟨h.keyOf_eq_none f.name, h.apart f hf⟩
  · intro m hm
    dsimp only at hm ⊢
    rw [flags_withKeys] at hm
    rcases List.mem_append.mp hm with hm | hm
    · exact .inl (h.known m hm)
    · obtain ⟨k, hk, hmk⟩ := List.mem_flatMap.mp hm
      right
      apply Option.ne_none_iff_exists'.mp
      intro hnone
      exact (keyOf_withKeys_eq_none_iff.mp hnone).2
        (mem_namesOf hk (name_mem_of_mem_keyModifiers hmk))

/-- The modifiers of keys leave the fields alone. -/
theorem Clear.withFlags_flags (h : Clear c ks) :
    withFlags c.fields (withKeys c ks).flags = withFlags c.fields c.flags := by
  have happend : withFlags c.fields (c.flags ++ ks.flatMap keyModifiers) =
      withFlags (withFlags c.fields c.flags) (ks.flatMap keyModifiers) := List.foldl_append
  rw [flags_withKeys, happend, withFlags_of_not_mem]
  intro m hm hmem
  rw [map_name_withFlags] at hmem
  obtain ⟨k, hk, hmk⟩ := List.mem_flatMap.mp hm
  obtain ⟨f, hf, hname⟩ := List.mem_map.mp hmem
  exact h.apart f hf (hname ▸ mem_namesOf hk (name_mem_of_mem_keyModifiers hmk))

/-- The keys end up as they are to be, and the fields with the modifiers for them. -/
theorem Clear.settle_eq (h : Clear c ks) (existing : List Field) :
    (withKeys c ks).absorbFields.settle existing = ({ withKeys c ks with
      fields := withFlags c.fields c.flags
      keys := ks.map settledKey }, existing) := by
  have hkeys : (ks.map declaredKey).map (fun k =>
      (k.takeAll (given (withKeys c ks).fields)).takeAll (withKeys c ks).flags) =
      ks.map settledKey := by
    rw [List.map_map]
    apply List.map_congr_left
    intro k hk
    exact takeAll_declaredKey (h.columns_ne k hk) (h.ownedBy hk)
  rw [TableChange.settle_eq h.settled, h.absorbFields_eq]
  dsimp only
  rw [h.withFlags_flags, List.map_map, ← hkeys]
  rfl

/-! ## Making a table -/

/-- The field of a column. -/
def columnField (c : Plan.Column) : Field :=
  ⟨c.name, ColumnType.ofMethod? c.method, ⟨c.nullable, c.unique, false⟩⟩

/-- The field that stands for a key of its own. -/
def idField : Field :=
  ⟨"id", some .int, { primary := true }⟩

/-- The fields that a table declares but for those of its foreign keys. -/
def tableFields (t : Plan.Table) : List Field :=
  (if t.usesId then [idField] else []) ++ t.columns.map columnField

/-- The modifiers for the key of a table. -/
def primaryModifiers (t : Plan.Table) : List (String × Flags) :=
  if t.usesId then [] else t.keys.map fun k => (k.name, { primary := true })

/-- The change of a table without its foreign keys. -/
def tableChange (t : Plan.Table) : TableChange where
  action := some .create
  table := t.table
  cls := Naming.className t.table
  fields := tableFields t
  flags := primaryModifiers t

theorem foldl_openingCalls (usesId timestamps : Bool) (c : TableChange) :
    (openingCalls usesId timestamps).foldl TableChange.addCall c =
      { c with fields := c.fields ++ if usesId then [idField] else [] } := by
  have htimes : ∀ d : TableChange, d.addCall (.nameless "timestamps" []) = d := by
    intro d
    unfold TableChange.addCall
    exact if_neg (by decide)
  have hid : c.addCall (.nameless "id" []) = { c with fields := c.fields ++ [idField] } := by
    unfold TableChange.addCall
    exact if_pos rfl
  unfold openingCalls
  cases usesId <;> cases timestamps
  · show c = { c with fields := c.fields ++ [] }
    rw [List.append_nil]
  · show c.addCall (.nameless "timestamps" []) = { c with fields := c.fields ++ [] }
    rw [htimes, List.append_nil]
  · exact hid
  · show (c.addCall (.nameless "id" [])).addCall (.nameless "timestamps" []) = _
    rw [htimes, hid]
    rfl

theorem change_ofTable {t : Plan.Table} (timestamps : Bool)
    (hks : ∀ k ∈ t.foreignKeys, k.columns ≠ [] ∧ Naming.className k.target = k.related) :
    (Written.ofTable t timestamps).statement.change = withKeys (tableChange t) t.foreignKeys := by
  show (tableCalls t timestamps).foldl TableChange.addCall
    { action := some .create, table := t.table, cls := Naming.className t.table } = _
  unfold tableCalls columnCall
  rw [List.foldl_append, List.foldl_append, List.foldl_append, foldl_openingCalls,
    foldl_columns Plan.Column.method Plan.Column.name (fun c => flagWords c.nullable c.unique),
    foldl_foreignKeys hks]
  congr 1
  unfold tableChange tableFields primaryModifiers
  have hcolumns : (t.columns.map fun a => (⟨a.name, ColumnType.ofMethod? a.method,
      Flags.ofKeywords (flagWords a.nullable a.unique)⟩ : Field)) = t.columns.map columnField := by
    apply List.map_congr_left
    intro a _
    rw [ofKeywords_flagWords]
    rfl
  rw [hcolumns]
  cases t.usesId with
  | true => rfl
  | false =>
    rw [if_neg Bool.false_ne_true, if_neg Bool.false_ne_true, if_neg Bool.false_ne_true,
      List.foldl_cons, List.foldl_nil]
    unfold TableChange.addCall
    dsimp only
    rw [List.map_map]
    rfl

/-- A statement that makes a table adds its class, and the relations of its keys. -/
theorem Clear.create_eq (h : Clear c ks) (hjunction : c.junction = none) {s : Schema}
    (hfresh : c.cls ∉ s.names) :
    ((withKeys c ks).create s).outline = s.outline ++ [(c.cls, withFlags c.fields c.flags)] ∧
      values ((withKeys c ks).create s) =
        values s ++ ks.map fun k => (settledKey k).relation c.cls := by
  have habsorbed := TableChange.absorbFields_eq h.bound
  rw [filter_fields_withKeys h.keyOf_eq_none h.apart] at habsorbed
  have hnone : (withKeys c ks).absorbFields.junction = none := by
    rw [habsorbed, withKeys_eq]
    exact hjunction
  have hcls : (withKeys c ks).cls = c.cls := by
    rw [withKeys_eq]
  unfold TableChange.create
  dsimp only
  rw [hnone]
  dsimp only
  rw [h.settle_eq, TableChange.outline_addKeys, values_addKeys, hcls,
    Schema.outline_setFields_of_not_mem hfresh (· ++ _)]
  refine ⟨rfl, ?_⟩
  unfold values
  rw [Schema.relations_modify, Schema.relations_ensureClass, List.map_map]
  rfl

/-! ## Making a junction -/

theorem table_absorbFields (c : TableChange) : c.absorbFields.table = c.table := by
  have hfold : ∀ (fields : List Field) (d : TableChange),
      (fields.foldl (fun k f => k.applyToColumn f.name f.flags) d).table = d.table := by
    intro fields
    induction fields with
    | nil => exact fun _ => rfl
    | cons f rest ih =>
      intro d
      rw [List.foldl_cons, ih]
      unfold TableChange.applyToColumn
      split <;> rfl
  exact hfold c.fields c

/-- A statement that makes a table with nothing but an `id` and keys adds a relation between the
classes that the table is named for. -/
theorem create_withKeys_of_junction (hfresh : ∀ column, c.keyOf column = none)
    (hfields : c.fields = [idField]) (hid : "id" ∉ namesOf ks) {a b : String}
    (hclasses : Naming.junctionClasses c.table = some (a, b)) (s : Schema) :
    (withKeys c ks).create s = s.addRelation ⟨⟨a, .any⟩, ⟨b, .any⟩⟩ := by
  have hapart : ∀ f ∈ c.fields, f.name ∉ namesOf ks := by
    rw [hfields]
    exact List.forall_mem_singleton.mpr hid
  have habsorbed : (withKeys c ks).absorbFields.fields = [idField] :=
    (filter_fields_withKeys hfresh hapart).trans hfields
  have htable : (withKeys c ks).absorbFields.table = c.table := by
    rw [table_absorbFields, withKeys_eq]
  have hjunction : (withKeys c ks).absorbFields.junction = some (a, b) := by
    unfold TableChange.junction
    rw [habsorbed, htable]
    exact hclasses
  unfold TableChange.create
  dsimp only
  rw [hjunction]

/-! ## Adding a key to a table -/

/-- The names of a consistent schema tell its classes apart, so a class can be given its own
fields. -/
theorem modify_same_fields {s : Schema} (hs : s.Consistent) {x : Class} (hx : x ∈ s.classes) :
    (s.modify x.name fun y => { y with fields := x.fields }) = s := by
  have hclasses : (s.classes.map fun y =>
      if y.name = x.name then { y with fields := x.fields } else y) = s.classes := by
    calc
      _ = s.classes.map id := by
        apply List.map_congr_left
        intro y hy
        split
        · rename_i hname
          have hfind := hs.find?_eq_some_iff.mpr ⟨hy, hname⟩
          rw [hs.find?_eq_some_iff.mpr ⟨hx, rfl⟩] at hfind
          cases hfind
          rfl
        · rfl
      _ = s.classes := List.map_id _
  unfold Schema.modify
  rw [hclasses]

theorem mem_namesOf_of_mem_keyColumns (h : Clear c ks) {p : String × Nat}
    (hp : p ∈ (withKeys c ks).keyColumns) : p.1 ∈ namesOf ks := by
  by_contra hnot
  have hnone := keyOf_withKeys_eq_none_iff.mpr ⟨h.keyOf_eq_none p.1, hnot⟩
  have hall := List.lookup_eq_none_iff.mp hnone p hp
  simp at hall

/-- Keys whose columns are no fields of the class take none of them. -/
theorem Clear.takeFields_eq (h : Clear c ks) {fields : List Field}
    (hapart : ∀ f ∈ fields, f.name ∉ namesOf ks) (own : List Field)
    (keys : List KeyDeclaration) :
    TableChange.takeFields { withKeys c ks with fields := own, keys } fields =
      ({ withKeys c ks with fields := own, keys }, fields) := by
  apply TableChange.takeFields_eq
  intro p hp f hf hfp
  exact hapart f hf (hfp ▸ mem_namesOf_of_mem_keyColumns h hp)

/-- A statement that adds keys to the table of a class adds their relations and nothing else. -/
theorem Clear.modify_eq (h : Clear c ks) (hfields : c.fields = []) (hflags : c.flags = [])
    (hcolumns : c.droppedColumns = []) (hkeys : c.droppedKeys = []) {s : Schema}
    (hs : s.Consistent) {x : Class} (hx : x ∈ s.classes) (hcls : x.name = c.cls)
    (hapart : ∀ f ∈ x.fields, f.name ∉ namesOf ks) :
    (withKeys c ks).modify s =
      ks.foldl (fun t k => t.addRelation ((settledKey k).relation c.cls)) s := by
  have hwith := withKeys_eq c ks
  have hname : c.cls ∈ s.names := hcls ▸ List.mem_map_of_mem hx
  have hfind := hs.find?_eq_some_iff.mpr ⟨hx, hcls⟩
  have hsame : (withKeys c ks).absorbFields.cls = c.cls := by
    rw [h.absorbFields_eq, hwith]
  unfold TableChange.modify
  dsimp only
  rw [hsame, Schema.ensureClass_of_mem hname, hfind, Option.map_some, Option.getD_some,
    h.settle_eq]
  dsimp only
  rw [h.takeFields_eq hapart]
  dsimp only
  have hdropped : (withKeys c ks).droppedColumns = [] ∧ (withKeys c ks).droppedKeys = [] := by
    rw [hwith]
    exact ⟨hcolumns, hkeys⟩
  have hsame' : (withKeys c ks).cls = c.cls := by
    rw [hwith]
  have hempty : withFlags c.fields c.flags = [] := by
    rw [hfields, hflags]
    rfl
  unfold TableChange.addKeys
  dsimp only
  rw [hdropped.1, hdropped.2, List.foldl_nil, List.foldl_nil, hempty, List.append_nil, hsame',
    ← hcls, modify_same_fields hs hx, List.foldl_map]

/-! ## Statements -/

theorem commit_withKeys_of_create (hc : c.action = some .create) (s : Schema) :
    (withKeys c ks).commit s = (withKeys c ks).create s := by
  have haction : (withKeys c ks).action = some .create := by
    rw [withKeys_eq, hc]
  unfold TableChange.commit
  rw [haction]

theorem commit_withKeys_of_modify (hc : c.action = some .modify) (s : Schema) :
    (withKeys c ks).commit s = (withKeys c ks).modify s := by
  have haction : (withKeys c ks).action = some .modify := by
    rw [withKeys_eq, hc]
  unfold TableChange.commit
  rw [haction]

/-- The key is not empty, and the table that it refers to is named for the class. -/
def Points (k : Plan.ForeignKey) : Prop :=
  k.columns ≠ [] ∧ Naming.className k.target = k.related

theorem apply_ofTable {t : Plan.Table} (timestamps : Bool) (hks : ∀ k ∈ t.foreignKeys, Points k)
    (h : Clear (tableChange t) t.foreignKeys) (hjunction : (tableChange t).junction = none)
    {s : Schema} (hfresh : Naming.className t.table ∉ s.names) :
    ((Written.ofTable t timestamps).statement.apply s).outline =
        s.outline ++ [(Naming.className t.table, withFlags (tableFields t) (primaryModifiers t))] ∧
      values ((Written.ofTable t timestamps).statement.apply s) =
        values s ++ t.foreignKeys.map fun k =>
          (settledKey k).relation (Naming.className t.table) := by
  unfold Statement.apply
  rw [change_ofTable timestamps hks, commit_withKeys_of_create rfl]
  exact h.create_eq hjunction hfresh

/-- The change of a junction without its foreign keys. -/
def junctionChange (j : Plan.Junction) : TableChange where
  action := some .create
  table := j.table
  cls := Naming.className j.table
  fields := [idField]

theorem apply_ofJunction {j : Plan.Junction} (timestamps : Bool)
    (hks : ∀ k ∈ j.foreignKeys, Points k) (hid : "id" ∉ namesOf j.foreignKeys) {a b : String}
    (hclasses : Naming.junctionClasses j.table = some (a, b)) (s : Schema) :
    (Written.ofJunction j timestamps).statement.apply s =
      s.addRelation ⟨⟨a, .any⟩, ⟨b, .any⟩⟩ := by
  have hchange : (Written.ofJunction j timestamps).statement.change =
      withKeys (junctionChange j) j.foreignKeys := by
    show (junctionCalls j timestamps).foldl TableChange.addCall
      { action := some .create, table := j.table, cls := Naming.className j.table } = _
    unfold junctionCalls
    rw [List.foldl_append, foldl_openingCalls, foldl_foreignKeys hks]
    rfl
  unfold Statement.apply
  rw [hchange, commit_withKeys_of_create rfl]
  exact create_withKeys_of_junction (fun _ => rfl) rfl hid hclasses s

/-- The change of a deferred key without it. -/
def keyChange (k : Plan.ForeignKey) : TableChange where
  action := some .modify
  table := k.table
  cls := Naming.className k.table

theorem clear_keyChange {k : Plan.ForeignKey} (hne : k.columns ≠ []) :
    Clear (keyChange k) [k] where
  keys_eq := rfl
  keyColumns_eq := rfl
  columns_ne := List.forall_mem_singleton.mpr hne
  apart_keys := List.pairwise_singleton _ _
  apart := List.forall_mem_nil _
  known := List.forall_mem_nil _

theorem apply_ofKey {k : Plan.ForeignKey} (hk : Points k) {s : Schema} (hs : s.Consistent)
    {x : Class} (hx : x ∈ s.classes) (hcls : x.name = Naming.className k.table)
    (hapart : ∀ f ∈ x.fields, f.name ∉ columnNames k) :
    (Written.ofKey k).statement.apply s =
      s.addRelation ((settledKey k).relation (Naming.className k.table)) := by
  have hone : namesOf [k] = columnNames k := List.flatMap_singleton _ _
  have hchange : (Written.ofKey k).statement.change = withKeys (keyChange k) [k] := by
    show (foreignKeyCalls k).foldl TableChange.addCall (keyChange k) = _
    exact foldl_foreignKeyCalls hk.1 hk.2 _
  unfold Statement.apply
  rw [hchange, commit_withKeys_of_modify rfl]
  exact (clear_keyChange hk.1).modify_eq rfl rfl rfl rfl hs hx hcls fun f hf => hone ▸ hapart f hf

end SchemaBridge.Output
