/-
  From a schema to its migrations and back. The tables of a portable schema bring its classes back,
  in the order of creation. Every relation has one key or one junction, so each comes back once.
  Main results: `fits_plan`, `perm_relations` and `cameBack_applyAll`.
-/
import SchemaBridge.Proofs.Output.FileName
import SchemaBridge.Proofs.Output.Readable
import SchemaBridge.Proofs.Output.Replay

namespace SchemaBridge

open Output
open Plan (tableOf junctionOf)

variable {s t : Schema} {composite : Bool}

namespace Output

/-- The classes can be told from the names of their tables. -/
def Named (s : Schema) : Prop :=
  ∀ name ∈ s.names, Naming.className (Naming.tableName name) = name

/-- The columns of plain keys have an underscore in their names. -/
theorem id_not_mem_namesOf {ks : List Plan.ForeignKey} (hks : ∀ k ∈ ks, k.Plain) :
    "id" ∉ namesOf ks := by
  intro h
  obtain ⟨k, hk, hcolumn⟩ := List.mem_flatMap.mp h
  obtain ⟨column, hmem, hname⟩ := List.mem_map.mp hcolumn
  have hjoined := ((hks k hk).columns column hmem).joined
  rw [hname] at hjoined
  exact absurd hjoined (by decide)

theorem points_of_realises (hs : Named s) (hclosed : s.Closed) {id : RelationId} {r : Relation}
    {owner : String} {k : Plan.ForeignKey} (hr : (id, r) ∈ s.relations)
    (hk : k.Realises s composite id r owner) (hplain : k.Plain) : Points k := by
  obtain ⟨mine, theirs, he, hrelated, htarget, -⟩ := hk.ends
  obtain ⟨hsource, htargets⟩ := hclosed _ hr
  have htheirs : theirs.cls ∈ s.names := by
    rcases Relation.ends_cases he with ⟨-, rfl⟩ | ⟨-, rfl⟩
    · exact htargets
    · exact hsource
  refine ⟨hplain.columns_ne, ?_⟩
  rw [htarget, hrelated, hs _ htheirs]

/-! ## Tables -/

theorem name_of_mem_tableFields {table : Plan.Table} {f : Field} (hf : f ∈ tableFields table) :
    f.name = "id" ∨ f.name ∈ table.columns.map (·.name) := by
  rcases List.mem_append.mp hf with hf | hf
  · left
    split at hf
    · rw [List.mem_singleton.mp hf]
      rfl
    · exact absurd hf List.not_mem_nil
  · right
    obtain ⟨column, hcolumn, rfl⟩ := List.mem_map.mp hf
    exact List.mem_map_of_mem hcolumn

section Tables

variable {c : Class}

theorem map_name_tableFields (t : Schema) (hc : c.Portable composite) :
    (tableFields (tableOf t composite c)).map (·.name) = c.fields.map (·.name) := by
  rw [← fields_tableOf t hc, map_name_withFlags]

/-- The modifiers of a key are for fields of the class. -/
theorem mem_names_of_primaryModifiers (t : Schema) (hc : c.Portable composite) :
    ∀ m ∈ primaryModifiers (tableOf t composite c), m.1 ∈ c.fields.map (·.name) := by
  intro m hm
  have huses : (tableOf t composite c).usesId = Plan.usesId (Plan.keysOf c composite) := rfl
  have hkeys : (tableOf t composite c).keys = Plan.keysOf c composite := rfl
  unfold primaryModifiers at hm
  rcases hc.keys with hid | hkey
  · rw [huses, usesId_of_hasId hid, if_pos rfl] at hm
    exact absurd hm List.not_mem_nil
  · rw [huses, usesId_of_hasKey hkey, if_neg Bool.false_ne_true, hkeys, keysOf_of_hasKey hkey,
      List.map_map] at hm
    obtain ⟨f, hf, rfl⟩ := List.mem_map.mp hm
    exact List.mem_map_of_mem (List.mem_filter.mp hf).1

/-- A table has its columns for itself if no two of them share a name. -/
theorem clear_tableOf (hc : c.Portable composite) (hplain : (tableOf t composite c).Plain)
    (hcolumns : ((tableOf t composite c).columns.map (·.name) ++
      (tableOf t composite c).foreignKeys.flatMap fun k => k.columns.map (·.name)).Nodup) :
    Clear (tableChange (tableOf t composite c)) (tableOf t composite c).foreignKeys := by
  obtain ⟨-, hkeys, hdisjoint⟩ := List.nodup_append.mp hcolumns
  constructor
  · rfl
  · rfl
  · exact fun k hk => (hplain.foreignKeys k hk).columns_ne
  · refine (List.nodup_flatMap.mp hkeys).2.imp ?_
    exact fun hkl column hk hl => hkl hk hl
  · intro f hf hname
    rcases name_of_mem_tableFields hf with hid | hcolumn
    · exact id_not_mem_namesOf hplain.foreignKeys (hid ▸ hname)
    · exact hdisjoint _ hcolumn _ hname rfl
  · intro m hm
    have hmem := mem_names_of_primaryModifiers t hc m hm
    rw [← map_name_tableFields t hc] at hmem
    exact hmem

theorem junction_tableOf (t : Schema) (hc : c.Portable composite) :
    (tableChange (tableOf t composite c)).junction = none := by
  have hnames := map_name_tableFields t hc
  have hfields : (tableChange (tableOf t composite c)).fields =
      tableFields (tableOf t composite c) := rfl
  have htable : (tableChange (tableOf t composite c)).table = Naming.tableName c.name := rfl
  unfold Statement.TableChange.junction
  rw [hfields, htable]
  split
  · rename_i only hone
    split
    · rename_i hid
      cases hparts : Naming.junctionClasses (Naming.tableName c.name) with
      | none => rfl
      | some parts =>
        obtain ⟨f, hf, hne⟩ := hc.no_junction (Naming.inTwoParts_of_junctionClasses hparts)
        have hmem : f.name ∈ c.fields.map (·.name) := List.mem_map_of_mem hf
        rw [← hnames, hone, List.map_singleton, List.mem_singleton, hid] at hmem
        exact absurd hmem hne
    · rfl
  · rfl

theorem fits_tableOf (hc : c.Portable composite) (hplain : (tableOf t composite c).Plain)
    (hcolumns : ((tableOf t composite c).columns.map (·.name) ++
      (tableOf t composite c).foreignKeys.flatMap fun k => k.columns.map (·.name)).Nodup)
    (hkeys : ∀ k ∈ (tableOf t composite c).foreignKeys, Points k ∧
      k.table = (tableOf t composite c).table) : Fits (tableOf t composite c) where
  cls_eq := hc.name
  keys := hkeys
  clear := clear_tableOf hc hplain hcolumns
  no_junction := junction_tableOf t hc

theorem entryOf_tableOf (t : Schema) (hc : c.Portable composite) :
    entryOf (tableOf t composite c) = (c.name, c.fields) :=
  congrArg (Prod.mk c.name) (fields_tableOf t hc)

end Tables

/-! ## Relations -/

section Relations

open Plan (ofOrder)

variable {o : ClassOrder}

/-- A relation that is no junction is a reference. -/
theorem isReference_of_not_isJunction {r : Relation} (h : r.IsLink ∨ r.IsReference)
    (hj : r.isJunction = false) : r.IsReference := by
  rcases h with hlink | hreference
  · rw [isJunction_of_link hlink] at hj
    cases hj
  · exact hreference

theorem isLink_of_isJunction {r : Relation} (h : r.IsLink ∨ r.IsReference)
    (hj : r.isJunction = true) : r.IsLink := by
  rcases h with hlink | hreference
  · exact hlink
  · rw [not_isJunction_of_reference hreference] at hj
    cases hj

/-- A key of the plan tells a relation of the schema. -/
theorem mem_relations_of_key (hs : s.Consistent) (ht : t.Consistent) (ho : s.IsCreationOrder t o)
    (hnamed : Named s) (hrelations : ∀ p ∈ s.relations, p.2.IsLink ∨ p.2.IsReference)
    {k : Plan.ForeignKey} (hk : k ∈ (ofOrder t o composite).foreignKeys) :
    (k.relation, relationOf k) ∈ s.relations ∧ (relationOf k).isJunction = false := by
  obtain ⟨r, owner, hr, hown, howner⟩ :=
    (Plan.mem_map_relation_foreignKeys composite hs ht ho).mp (List.mem_map_of_mem hk)
  obtain ⟨hrealises, -⟩ := Plan.realises_of_mem_foreignKeys hs ht ho hk hr hown
  have hj := Relation.not_isJunction_of_owner hown
  have hreference := isReference_of_not_isJunction (hrelations _ hr) hj
  rw [relationOf_of_realises hreference hown hrealises (hnamed _ howner)]
  exact ⟨hr, hj⟩

/-- The keys of a plan tell all relations but those of junctions, each one once. -/
theorem perm_keys (hs : s.Consistent) (hclosed : s.Closed) (ht : t.Consistent)
    (ho : s.IsCreationOrder t o) (hnamed : Named s)
    (hrelations : ∀ p ∈ s.relations, p.2.IsLink ∨ p.2.IsReference) :
    ((ofOrder t o composite).foreignKeys.map fun k => (k.relation, relationOf k)).Perm
      (s.relations.filter fun p => !p.2.isJunction) := by
  have hkeys : (((ofOrder t o composite).foreignKeys.map fun k =>
      (k.relation, relationOf k)).map Prod.fst).Nodup := by
    rw [List.map_map]
    exact Plan.nodup_map_relation_foreignKeys hs ht ho
  apply (List.perm_ext_iff_of_nodup hkeys.of_map (hs.ids_nodup.of_map.filter _)).mpr
  rintro ⟨id, r⟩
  constructor
  · intro h
    obtain ⟨k, hk, hkr⟩ := List.mem_map.mp h
    obtain ⟨hmem, hj⟩ := mem_relations_of_key hs ht ho hnamed hrelations hk
    cases hkr
    exact List.mem_filter.mpr ⟨hmem, by rw [hj]; rfl⟩
  · intro h
    obtain ⟨hr, hj⟩ := List.mem_filter.mp h
    have hreference := isReference_of_not_isJunction (hrelations _ hr) (Bool.not_eq_eq_eq_not.mp hj)
    obtain ⟨k, hk, hid⟩ := List.mem_map.mp
      ((Plan.mem_map_relation_foreignKeys composite hs ht ho).mpr
        ⟨r, r.source.cls, hr, hreference.owner, (hclosed _ hr).1⟩)
    obtain ⟨hmem, -⟩ := mem_relations_of_key hs ht ho hnamed hrelations hk
    rw [hid] at hmem
    refine List.mem_map.mpr ⟨k, hk, ?_⟩
    rw [hid, hs.relation_unique hmem hr]

/-- A junction joins the classes of its relation. -/
theorem joins_junctionOf (hnamed : Named s) (hspelled : s.Spelled) (hclosed : s.Closed)
    (hplain : t.Spelled) {id : RelationId} {r : Relation} (hr : (id, r) ∈ s.relations)
    (hlink : r.IsLink) : Joins (junctionOf t composite id r) r.alphabetical := by
  obtain ⟨hsource, htarget⟩ := hspelled.relations _ hr
  obtain ⟨hsourceMem, htargetMem⟩ := hclosed _ hr
  have hjunction : (junctionOf t composite id r).Plain :=
    Plan.plain_junctionOf hplain id hsource.harmless htarget.harmless
  constructor
  · intro k hk
    refine ⟨(hjunction.foreignKeys k hk).columns_ne, ?_⟩
    have hends : k.target = Naming.tableName k.related ∧ k.related ∈ s.names := by
      rcases List.mem_cons.mp hk with rfl | hk
      · exact ⟨rfl, hsourceMem⟩
      · rw [List.mem_singleton.mp hk]
        exact ⟨rfl, htargetMem⟩
    rw [hends.1, hnamed _ hends.2]
  · exact id_not_mem_namesOf hjunction.foreignKeys
  · unfold Plan.junctionOf
    dsimp only
    exact Naming.junctionClasses_of_link hlink hsource.nonempty htarget.nonempty

end Relations

/-! ## Plans -/

section Plans

variable {options : Options}

theorem named_of_portable (hp : s.Portable options) : Named s := by
  intro name hname
  obtain ⟨c, hc, rfl⟩ := List.mem_map.mp hname
  exact (hp.classes c hc).name

theorem portable_of_outline_eq (hp : s.Portable options) (houtline : t.outline = s.outline)
    {c : Class} (hc : c ∈ t.classes) : c.Portable options.compositeKeys := by
  have hmem : (c.name, c.fields) ∈ s.outline := houtline ▸ List.mem_map_of_mem hc
  obtain ⟨d, hd, hentry⟩ := List.mem_map.mp hmem
  obtain ⟨hname, hfields⟩ := Prod.mk.inj hentry
  exact (hp.classes d hd).of_fields_eq hname.symm hfields.symm

variable (hs : s.Consistent) (hp : s.Portable options) (hclosed : s.Closed)
  (hspelled : s.Spelled)

include hs hp

/-- The tables of the plan stand for the classes of the schema. -/
theorem perm_entries : ((generate s options).plan.tables.map entryOf).Perm s.outline := by
  have ho := Schema.isCreationOrder_order hs
  have ht := Schema.consistent_order hs
  have hcls : ((generate s options).plan.tables.map entryOf).map Prod.fst = s.order.2.classes := by
    rw [List.map_map]
    exact Plan.map_cls_tables ho
  have hentries : (((generate s options).plan.tables.map entryOf).map Prod.fst).Nodup :=
    hcls ▸ ho.classes_nodup
  have hnames : (s.outline.map Prod.fst).Nodup := by
    rw [← Schema.names_eq_outline]
    exact hs.names_nodup
  apply (List.perm_ext_iff_of_nodup hentries.of_map hnames.of_map).mpr
  intro e
  rw [← ho.outline_eq, List.mem_map]
  constructor
  · rintro ⟨table, htable, rfl⟩
    obtain ⟨c, hc, rfl⟩ := (Plan.mem_tables_iff ht ho).mp htable
    rw [entryOf_tableOf _ (portable_of_outline_eq hp ho.outline_eq hc)]
    exact List.mem_map_of_mem hc
  · intro he
    obtain ⟨c, hc, rfl⟩ := List.mem_map.mp he
    exact ⟨_, (Plan.mem_tables_iff ht ho).mpr ⟨c, hc, rfl⟩,
      entryOf_tableOf _ (portable_of_outline_eq hp ho.outline_eq hc)⟩

include hclosed

/-- What the keys and junctions of the plan tell are the relations of the schema. -/
theorem perm_relations :
    (((generate s options).plan.tables.flatMap fun table => table.foreignKeys.map relationOf) ++
      ((s.relations.filter fun p => p.2.isJunction).map fun p => p.2.alphabetical) ++
        (generate s options).plan.deferred.map relationOf).Perm
      (s.relations.map fun p => p.2.alphabetical) := by
  have hkeys : ((generate s options).plan.foreignKeys.map fun k =>
      (k.relation, relationOf k)).Perm (s.relations.filter fun p => !p.2.isJunction) :=
    perm_keys hs hclosed (Schema.consistent_order hs) (Schema.isCreationOrder_order hs)
      (named_of_portable hp) hp.relations
  have hvalues : ((generate s options).plan.foreignKeys.map relationOf).Perm
      ((s.relations.filter fun p => !p.2.isJunction).map fun p => p.2.alphabetical) := by
    have hsnd := hkeys.map Prod.snd
    rw [List.map_map] at hsnd
    refine hsnd.trans (List.Perm.of_eq (List.map_congr_left fun p hpmem => ?_))
    have hj : p.2.isJunction = false := Bool.not_eq_eq_eq_not.mp (List.mem_filter.mp hpmem).2
    unfold Relation.alphabetical
    rw [hj]
    rfl
  have hall := (List.filter_append_perm (fun p : RelationId × Relation => p.2.isJunction)
    s.relations).map fun p => p.2.alphabetical
  rw [List.map_append] at hall
  refine List.Perm.trans ?_ ((List.perm_append_left_iff _).mpr hvalues |>.trans hall)
  unfold Plan.foreignKeys
  rw [List.map_append, List.map_flatMap, List.append_assoc]
  exact List.perm_append_comm_assoc _ _ _

include hspelled

theorem fits_plan : ∀ table ∈ (generate s options).plan.tables, Fits table := by
  have ho := Schema.isCreationOrder_order hs
  have ht := Schema.consistent_order hs
  intro table htable
  have hcolumns := hp.columns_nodup table htable
  have hplain := (Plan.plain_plan hspelled hs options).tables table htable
  obtain ⟨c, hc, rfl⟩ := (Plan.mem_tables_iff ht ho).mp htable
  refine fits_tableOf (portable_of_outline_eq hp ho.outline_eq hc) hplain hcolumns ?_
  intro k hk
  obtain ⟨r, hr, -, hrealises⟩ := Plan.mem_foreignKeysOf ht ho.outline_eq hk
  rw [ho.relations_eq] at hr
  exact ⟨points_of_realises (named_of_portable hp) hclosed (List.mem_filter.mp hr).1 hrealises
    (hplain.foreignKeys k hk), hrealises.table_eq⟩

/-- The table of a key that is added last is there, and has no field named as one of its
columns. -/
theorem table_of_deferred : ∀ k ∈ (generate s options).plan.deferred,
    Points k ∧ ∃ table ∈ (generate s options).plan.tables,
      (entryOf table).1 = Naming.className k.table ∧
        ∀ f ∈ (entryOf table).2, f.name ∉ columnNames k := by
  have ho := Schema.isCreationOrder_order hs
  have ht := Schema.consistent_order hs
  intro k hk
  have hkeys : k ∈ (generate s options).plan.foreignKeys := List.mem_append_right _ hk
  have hplain := (Plan.plain_plan hspelled hs options).deferred k hk
  obtain ⟨r, owner, hr, hown, howner⟩ := (Plan.mem_map_relation_foreignKeys _ hs ht ho).mp
    (List.mem_map_of_mem hkeys)
  obtain ⟨hrealises, -⟩ := Plan.realises_of_mem_foreignKeys hs ht ho hkeys hr hown
  rw [← Plan.names_eq_of_order ho] at howner
  obtain ⟨c, hc, rfl⟩ := List.mem_map.mp howner
  have hportable := portable_of_outline_eq hp ho.outline_eq hc
  have htable : tableOf s.order.1 options.compositeKeys c ∈ (generate s options).plan.tables :=
    (Plan.mem_tables_iff ht ho).mpr ⟨c, hc, rfl⟩
  refine ⟨points_of_realises (named_of_portable hp) hclosed hr hrealises hplain, _, htable, ?_⟩
  rw [entryOf_tableOf _ hportable, hrealises.table_eq]
  refine ⟨hportable.name.symm, ?_⟩
  intro f hf hname
  have hfield :
      f.name ∈ (tableFields (tableOf s.order.1 options.compositeKeys c)).map (·.name) := by
    rw [map_name_tableFields _ hportable]
    exact List.mem_map_of_mem hf
  obtain ⟨g, hg, hgname⟩ := List.mem_map.mp hfield
  obtain ⟨column, hcolumn, hcolumnName⟩ := List.mem_map.mp hname
  rcases name_of_mem_tableFields hg with hid | hown
  · have hjoined := (hplain.columns column hcolumn).joined
    rw [hcolumnName, ← hgname, hid] at hjoined
    exact absurd hjoined (by decide)
  · rw [hgname, ← hcolumnName] at hown
    exact hp.deferred_apart k hk _ htable hrealises.table_eq.symm column hcolumn hown

theorem joins_plan : List.Forall₂ Joins (generate s options).plan.junctions
    ((s.relations.filter fun p => p.2.isJunction).map fun p => p.2.alphabetical) := by
  have ho := Schema.isCreationOrder_order hs
  have hjunctions : (generate s options).plan.junctions =
      (s.relations.filter fun p => p.2.isJunction).map fun p =>
        junctionOf s.order.1 options.compositeKeys p.1 p.2 := Plan.junctions_ofOrder ho hs
  rw [hjunctions]
  refine forall₂_map fun p hpmem => ?_
  obtain ⟨hmem, hj⟩ := List.mem_filter.mp hpmem
  exact joins_junctionOf (named_of_portable hp) hspelled hclosed (Plan.spelled_order hspelled hs)
    hmem (isLink_of_isJunction (hp.relations p hmem) hj)

end Plans

end Output

/-! ## Diagrams -/

/-- The schema `t` is what the migrations of `s` say: its classes, in the order of creation, and
its relations, those of junctions in the order of the names in small letters. -/
structure Schema.CameBack (s t : Schema) : Prop where
  reachable : t.Reachable
  names_eq : t.names = s.order.2.classes
  outline : t.outline.Perm s.outline
  relations : (t.relations.map Prod.snd).Perm (s.relations.map fun p => p.2.alphabetical)

theorem Output.cameBack_applyAll {s : Schema} {options : Options} (hs : s.Consistent)
    (hp : s.Portable options) (hclosed : s.Closed) (hspelled : s.Spelled) (timestamps : Bool) :
    s.CameBack (applyAll (writtenIn (generate s options).plan timestamps) .empty) := by
  have hcls : (generate s options).plan.tables.map (·.cls) = s.order.2.classes :=
    Plan.map_cls_tables (Schema.isCreationOrder_order hs)
  have hnodup : ((generate s options).plan.tables.map (·.cls)).Nodup :=
    hcls ▸ (Schema.isCreationOrder_order hs).classes_nodup
  obtain ⟨houtline, hvalues⟩ := applyAll_writtenIn (fits_plan hs hp hclosed hspelled) hnodup
    (joins_plan hs hp hclosed hspelled) (table_of_deferred hs hp hclosed hspelled) timestamps
  constructor
  · exact reachable_applyAll _ .empty
  · rw [Schema.names_eq_outline, houtline, List.map_map]
    exact hcls
  · rw [houtline]
    exact perm_entries hs hp
  · show (values _).Perm _
    rw [hvalues]
    exact perm_relations hs hp hclosed

/-- Through either reader, the migrations of a portable diagram bring its schema back. The reader of
files leaves out stock migrations if it is told to; of the files that are made for a diagram, only
the hundred thousandth of one date bears the name of one. -/
theorem migrations_bring_back {text : String} {s : Schema} (h : Diagram.read text = .ok s)
    {options : Options} (hp : s.Portable options) :
    ∃ t, s.CameBack t ∧
      Schema.empty.migrateAll ((generate s options).migrations.map (·.contents)) = .ok t ∧
      ∀ skipStock, skipStock = false ∨ options.stamp ≠ "2014_10_12" ∨
        (generate s options).migrations.length < 100000 →
          importMigrations (generate s options).migrations skipStock = .ok t := by
  have hs := (Diagram.reachable_read h).consistent
  have hspelled := Diagram.spelled_read h
  have hreadable := readableIn_migrations (Plan.plain_plan hspelled hs options) options
  refine ⟨_, cameBack_applyAll hs hp (Diagram.closed_read h) hspelled options.timestamps, ?_, ?_⟩
  · exact Schema.migrateAll_of_forall₂ .empty hreadable
  · intro skipStock hskip
    exact importMigrations_of_forall₂ hreadable (isLeftOut_migrations _ options hskip)

/-- Users that like posts and pin one, with a key that is no `id` and a cycle. -/
def forumText : String :=
  "class User \x7b\x0a  id: int \x7bpk\x7d\x0a  email: string \x7bunique\x7d\x0a\x7d\x0a" ++
    "class Post \x7b\x0a  slug: string \x7bpk\x7d\x0a  body: string \x7bnullable\x7d\x0a\x7d\x0a" ++
    "Post \"*\" -- \"1\" User\x0aUser \"*\" -- \"0..1\" Post\x0aUser \"*\" -- \"*\" Post"

/-- The schema of `forumText`. -/
def forum : Schema where
  classes :=
    [{ name := "User"
       fields :=
         [⟨"id", some .int, { primary := true }⟩,
           ⟨"email", some .string, { unique := true }⟩]
       links := [("Post", [0, 1, 2])] },
      { name := "Post"
        fields :=
          [⟨"slug", some .string, { primary := true }⟩,
            ⟨"body", some .string, { nullable := true }⟩]
        links := [("User", [0, 1, 2])] }]
  relations :=
    [(0, ⟨⟨"Post", .any⟩, ⟨"User", .one⟩⟩), (1, ⟨⟨"User", .any⟩, ⟨"Post", .zeroOrOne⟩⟩),
      (2, ⟨⟨"User", .any⟩, ⟨"Post", .any⟩⟩)]
  nextRelation := 3

theorem read_forumText : Diagram.read forumText = .ok forum :=
  Diagram.read_eq_of_toOption (by decide +kernel)

theorem portable_forum : forum.Portable {} where
  classes := by
    have htyped : ∀ c ∈ forum.classes, ∀ f ∈ c.fields,
        f.type = some .int ∨ f.type = some .string := by decide
    have hother : ∀ c ∈ forum.classes, ∀ f ∈ c.fields,
        ∃ t, f.type = some t ∧ ∀ name, t ≠ .other name := by
      intro c hc f hf
      rcases htyped c hc f hf with h | h
      · exact ⟨.int, h, fun _ => ColumnType.noConfusion⟩
      · exact ⟨.string, h, fun _ => ColumnType.noConfusion⟩
    refine List.forall_mem_cons.mpr ⟨?user, List.forall_mem_singleton.mpr ?post⟩
    case user =>
      exact ⟨by decide, .inl ⟨_, rfl, by decide⟩, hother _ List.mem_cons_self, by decide,
        fun _ => ⟨_, List.mem_cons_of_mem _ List.mem_cons_self, by decide⟩⟩
    case post =>
      exact ⟨by decide, .inr ⟨by decide, by decide, fun _ => ⟨_, rfl⟩, by decide⟩,
        hother _ (List.mem_cons_of_mem _ List.mem_cons_self), by decide,
        fun _ => ⟨_, List.mem_cons_self, by decide⟩⟩
  relations :=
    List.forall_mem_cons.mpr ⟨.inr ⟨.inl rfl, .inl rfl, by decide⟩,
      List.forall_mem_cons.mpr ⟨.inr ⟨.inl rfl, .inr rfl, by decide⟩,
        List.forall_mem_singleton.mpr (.inl ⟨rfl, rfl, by decide⟩)⟩⟩
  columns_nodup := by decide +kernel
  deferred_apart := by decide +kernel

theorem migrations_bring_back_forum : Diagram.read forumText = .ok forum ∧
    forum.Portable {} ∧
    ∃ t, forum.CameBack t ∧
      Schema.empty.migrateAll ((generate forum {}).migrations.map (·.contents)) = .ok t ∧
      ∀ skipStock, importMigrations (generate forum {}).migrations skipStock = .ok t := by
  obtain ⟨t, hback, htexts, hfiles⟩ := migrations_bring_back read_forumText portable_forum
  exact ⟨read_forumText, portable_forum, t, hback, htexts,
    fun skipStock => hfiles skipStock (.inr (.inl (by decide)))⟩

end SchemaBridge
