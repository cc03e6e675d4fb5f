/-
  Models against migrations. The methods of a model follow the links of its class in the schema as
  it was given, the keys are planned from the schema that ordering leaves, and the relations bring
  the two together. A call names no column only where its relation is the only one between two
  classes; then the column has no number either, whether its key comes with a table or is deferred.
  What is said of a model is said of its text, call by call.
  Main results: `agree_relationshipMethods` and `models_agree`.
-/
import SchemaBridge.Proofs.Output.ModelText
import SchemaBridge.Proofs.Plan.KeyNames
import SchemaBridge.Proofs.Plan.Plain

namespace SchemaBridge

/-! ## Kinds -/

namespace Relationship

variable {r : Relation} {cls : String}

theorem of_own (hown : r.ownership cls = some .own) : of r cls = some .belongsTo := by
  obtain ⟨mine, theirs, he⟩ := Relation.ends_of_owner hown
  unfold of
  rw [he, hown]

theorem of_other {mine theirs : End} (he : r.ends cls = some (mine, theirs))
    (hother : r.ownership cls = some .other) :
    of r cls = some (if theirs.multiplicity.isMany then .hasMany else .hasOne) := by
  unfold of
  rw [he, hother]

theorem of_junction {mine theirs : End} (he : r.ends cls = some (mine, theirs))
    (hj : r.isJunction = true) : of r cls = some .belongsToMany := by
  have hmany : (mine.multiplicity.isMany && theirs.multiplicity.isMany) = true :=
    Bool.and_eq_true_iff.mpr ((Relation.isJunction_iff he).mp hj)
  have hown : r.ownership cls = some .junction := by
    unfold Relation.ownership
    rw [he]
    dsimp only
    rw [if_pos hmany]
  unfold of
  rw [he, hown]

theorem isMany_iff {kind : Relationship} :
    kind.isMany = true ↔ kind.method = "hasMany" ∨ kind.method = "belongsToMany" := by
  cases kind <;> decide

end Relationship

/-! ## Keys of relations -/

theorem Schema.relationsBetween_comm (s : Schema) (a b : String) :
    s.relationsBetween a b = s.relationsBetween b a := by
  unfold relationsBetween
  simp only [Relation.connects_comm _ a b]

namespace Plan

variable {s t : Schema} {composite : Bool}

/-- A relation that is the only one between its classes has a key without a number. -/
theorem ForeignKey.Numbered.eq_none_of_single (hs : s.Consistent) {owner : String}
    {number : Option Nat} {k : ForeignKey} (h : k.Numbered s composite owner number)
    (hsingle : ¬1 < (s.relationsBetween owner k.related).length) : number = none := by
  by_contra hsome
  have hseveral := h.ne_none_iff.mp hsome
  have howned : ownedBetween s.order.1 owner k.related ≤
      (s.order.1.relationsBetween owner k.related).length := by
    unfold ownedBetween
    rw [← List.length_map (f := Prod.fst)]
    exact (map_fst_ownedIn_sublist _ _ _).length_le
  have hleft : (s.order.1.relationsBetween owner k.related).length ≤
      (s.relationsBetween owner k.related).length := by
    unfold Schema.relationsBetween
    rw [(Schema.isCreationOrder_order hs).relations_eq]
    exact ((List.filter_sublist.filter _).map _).length_le
  omega

/-- The relation of an owner has one key, with all that is known of keys. -/
theorem exists_key (composite : Bool) (hs : s.Consistent) {id : RelationId} {r : Relation}
    {owner : String} (hr : (id, r) ∈ s.relations) (hown : r.ownership owner = some .own)
    (howner : owner ∈ s.names) :
    ∃ k, ((ofOrder s.order.1 s.order.2 composite).foreignKeys.filter
        fun k => k.relation = id) = [k] ∧
      k.Realises s composite id r owner ∧ ∃ number, k.Numbered s composite owner number := by
  have ht := Schema.consistent_order hs
  have ho := Schema.isCreationOrder_order hs
  obtain ⟨k, hk, rfl, -, hnumbered⟩ := exists_numbered_key hs composite hr hown howner
  exact ⟨k, filter_eq_singleton (nodup_map_relation_foreignKeys hs ht ho) hk,
    (realises_of_mem_foreignKeys hs ht ho hk hr hown).1, hnumbered⟩

theorem ForeignKey.Joins.exists_column {id : RelationId} {table related : String} {k : ForeignKey}
    (h : k.Joins t composite id table related) : ∃ column, k.columns.head? = some column := by
  cases hk : k.columns with
  | nil =>
    have hcolumns := h.columns_eq
    rw [hk] at hcolumns
    exact absurd (List.map_eq_nil_iff.mp hcolumns.symm) (referencedKeys_ne_nil _ _ _)
  | cons column rest => exact ⟨column, rfl⟩

end Plan

namespace Output

/-! ## What a model has to say -/

/-- The call names the first column of the key and the column that it refers to. It names neither
only if the key is one column that refers to an `id` and is named for the class that has it. -/
def Declaration.NamesKey (d : Declaration) (k : Plan.ForeignKey) : Prop :=
  (∃ column, k.columns.head? = some column ∧ d.named = [column.name, column.references]) ∨
    (d.named = [] ∧ ∃ type, k.columns = [⟨Naming.snake k.related ++ "_id", "id", type⟩])

/-- The call of the class `cls` names the junction, the column of its key for the class and that of
its key for the other. Between a class and itself the first key is the one for the class. -/
def Declaration.NamesJunction (cls : String) (d : Declaration) (j : Plan.Junction) : Prop :=
  ∃ own other column column', (j.foreignKeys = [own, other] ∨
      (j.foreignKeys = [other, own] ∧ cls ≠ d.related)) ∧
    own.related = cls ∧ own.columns.head? = some column ∧
    other.related = d.related ∧ other.columns.head? = some column' ∧
    d.named = [j.table, column.name, column'.name]

/-- What the class `cls` declares of the relation `r` is what the plan makes of the relation. -/
inductive Declaration.Agrees (p : Plan) (cls : String) (r : Relation) (d : Declaration) : Prop
  | /-- The class stores the key. -/
    own (k : Plan.ForeignKey) (owner : r.ownership cls = some .own)
      (only : (p.foreignKeys.filter fun k => k.relation = d.relation) = [k])
      (table_eq : k.table = Naming.tableName cls) (related_eq : k.related = d.related)
      (word_eq : d.word = "belongsTo") (names : d.NamesKey k)
  | /-- The other class stores the key, with the end `owning`. -/
    other (k : Plan.ForeignKey) (owning mine : End) (ne : d.related ≠ cls)
      (owner : r.ownership d.related = some .own) (ends : r.ends d.related = some (owning, mine))
      (only : (p.foreignKeys.filter fun k => k.relation = d.relation) = [k])
      (table_eq : k.table = Naming.tableName d.related) (related_eq : k.related = cls)
      (word_eq : d.word = if owning.multiplicity.isMany then "hasMany" else "hasOne")
      (names : d.NamesKey k)
  | /-- A junction stores both keys. -/
    junction (j : Plan.Junction) (junction : r.isJunction = true)
      (only : (p.junctions.filter fun j => j.carries d.relation) = [j])
      (word_eq : d.word = "belongsToMany") (names : d.NamesJunction cls j)

/-- The method is named for the other class, in the plural where it leads to many. If the class has
several relations with the other, they are numbered in order. -/
def Declaration.IsNamedIn (s : Schema) (cls : String) (d : Declaration) : Prop :=
  ∃ place : Nat, (s.relationsBetween cls d.related)[place]? = some d.relation ∧
    d.name =
      (if d.word = "hasMany" ∨ d.word = "belongsToMany" then
        Naming.pluralize (Naming.snake d.related) else Naming.snake d.related) ++
      (if (s.relationsBetween cls d.related).length = 1 then "" else toString (place + 1))

/-- Among the methods there is one for each relation of the class. -/
structure MethodsAgree (s : Schema) (p : Plan) (cls : String) (ds : List Declaration) : Prop where
  nodup : (ds.map (·.relation)).Nodup
  mem_iff : ∀ id, id ∈ ds.map (·.relation) ↔
    ∃ r, (id, r) ∈ s.relations ∧ r.involves cls = true
  agrees : ∀ d ∈ ds, ∃ r mine theirs, (d.relation, r) ∈ s.relations ∧
    r.ends cls = some (mine, theirs) ∧ d.related = theirs.cls ∧ d.Agrees p cls r
  named : ∀ d ∈ ds, d.IsNamedIn s cls

/-- The file is the model of the class: besides what it says of the key, it is made of methods that
agree with the plan. -/
def IsModelOf (s : Schema) (p : Plan) (composite : Bool) (c : Class) (f : GeneratedFile) : Prop :=
  f.name = c.name ++ ".php" ∧ ∃ key ds, KeyText c composite key ∧ MethodsAgree s p c.name ds ∧
    f.contents = modelContents c.name (key ++ ds.map Declaration.text)

/-! ## Looking up what is planned -/

/-- The only element with a property is also the last. -/
theorem find?_reverse_of_filter {α : Type} {l : List α} {p : α → Bool} {a : α}
    (h : l.filter p = [a]) : l.reverse.find? p = some a := by
  rw [← List.head?_filter, List.filter_reverse, h]
  rfl

theorem keyOfRelation_of_filter {p : Plan} {id : RelationId} {k : Plan.ForeignKey}
    (h : (p.foreignKeys.filter fun k => k.relation = id) = [k]) : keyOfRelation p id = some k :=
  find?_reverse_of_filter h

section

variable {s t : Schema} {o : ClassOrder} {composite : Bool}

theorem junctionOfRelation_ofOrder (hs : s.Consistent) (ho : s.IsCreationOrder t o)
    {id : RelationId} {r : Relation} (hr : (id, r) ∈ s.relations) (hj : r.isJunction = true) :
    junctionOfRelation (Plan.ofOrder t o composite) id =
      some (Plan.junctionOf t composite id r) := by
  apply find?_reverse_of_filter
  rw [← Plan.filter_carries_junctions hs ho hr hj]
  apply List.filter_congr
  intro j hmem
  rw [Plan.junctions_ofOrder ho hs] at hmem
  obtain ⟨e, -, rfl⟩ := List.mem_map.mp hmem
  rw [Bool.eq_iff_iff, Plan.junctionOf_carries]
  exact beq_iff_eq.trans Option.some_inj

/-! ## Keys -/

theorem namesKey_keyNames (hs : s.Consistent) {owner : String} {number : Option Nat}
    {k : Plan.ForeignKey} (h : k.Numbered s composite owner number) {d : Declaration}
    (hd : d.named = keyNames k (1 < (s.relationsBetween owner k.related).length)) :
    d.NamesKey k := by
  have hcolumns := h.columns_eq
  unfold keyNames at hd
  split at hd
  · rename_i hcond
    obtain ⟨hid, hsingle⟩ := Bool.and_eq_true_iff.mp hcond
    obtain rfl := h.eq_none_of_single hs (by simpa using hsingle)
    refine .inr ⟨hd, ?_⟩
    unfold Plan.ForeignKey.isId at hid
    split at hid
    · rename_i column hone
      rw [hone] at hcolumns
      obtain ⟨key, -, rfl⟩ := List.map_eq_singleton_iff.mp hcolumns.symm
      have hname : key.name = "id" := by simpa using hid
      refine ⟨key.type, ?_⟩
      rw [hone, hname]
      unfold Plan.suffixText
      rw [String.append_empty, String.append_assoc]
      rfl
    · cases hid
  · left
    cases hk : k.columns with
    | nil => exact absurd (hcolumns.symm.trans hk) (Plan.keyColumns_ne_nil _ _ _ _)
    | cons column rest =>
      refine ⟨column, rfl, ?_⟩
      rw [hd]
      unfold firstColumn
      rw [hk]

/-! ## Junctions -/

theorem columnName_of_head? {k : Plan.ForeignKey} {column : Plan.KeyColumn}
    (h : k.columns.head? = some column) : columnName (some k) = column.name := by
  unfold columnName
  rw [Option.bind_some, h]
  rfl

theorem junctionNames_of_self {j : Plan.Junction} {k l : Plan.ForeignKey} {cls : String}
    (hkeys : j.foreignKeys = [k, l]) :
    junctionNames j cls cls = [j.table, columnName (some k), columnName (some l)] := by
  unfold junctionNames
  rw [if_pos rfl, hkeys]
  rfl

/-- Between two classes the keys are told by the class they refer to. -/
theorem junctionNames_of_mem {j : Plan.Junction} {k l : Plan.ForeignKey}
    (hkeys : j.foreignKeys = [k, l] ∨ j.foreignKeys = [l, k]) (hne : k.related ≠ l.related) :
    junctionNames j k.related l.related =
      [j.table, columnName (some k), columnName (some l)] := by
  have hkl : (k.related == l.related) = false := beq_eq_false_iff_ne.mpr hne
  have hlk : (l.related == k.related) = false := beq_eq_false_iff_ne.mpr hne.symm
  unfold junctionNames
  rw [if_neg hne]
  rcases hkeys with hkeys | hkeys <;>
    simp only [hkeys, List.find?_cons, beq_self_eq_true, hkl, hlk]

theorem namesJunction_of_ne {j : Plan.Junction} {own other : Plan.ForeignKey} {cls : String}
    {d : Declaration} {column column' : Plan.KeyColumn}
    (hkeys : j.foreignKeys = [own, other] ∨ j.foreignKeys = [other, own])
    (hown : own.related = cls) (hother : other.related = d.related) (hne : cls ≠ d.related)
    (hcolumn : own.columns.head? = some column) (hcolumn' : other.columns.head? = some column')
    (hd : d.named = junctionNames j cls d.related) : d.NamesJunction cls j := by
  refine ⟨own, other, column, column', hkeys.imp_right fun h => ⟨h, hne⟩, hown, hcolumn, hother,
    hcolumn', ?_⟩
  rw [← hown, ← hother] at hd hne
  rw [hd, junctionNames_of_mem hkeys hne, columnName_of_head? hcolumn,
    columnName_of_head? hcolumn']

theorem namesJunction_junctionNames {id : RelationId} {r : Relation} {cls : String}
    {mine theirs : End} (he : r.ends cls = some (mine, theirs)) {d : Declaration}
    (hrelated : d.related = theirs.cls)
    (hd : d.named = junctionNames (Plan.junctionOf t composite id r) cls theirs.cls) :
    d.NamesJunction cls (Plan.junctionOf t composite id r) := by
  obtain ⟨k, l, hkeys, hk, hl⟩ : ∃ k l, (Plan.junctionOf t composite id r).foreignKeys = [k, l] ∧
      k.Joins t composite id (Plan.junctionOf t composite id r).table r.source.cls ∧
      l.Joins t composite id (Plan.junctionOf t composite id r).table r.target.cls :=
    Plan.junctionOf_joins rfl id r
  obtain ⟨column, hcolumn⟩ := hk.exists_column
  obtain ⟨column', hcolumn'⟩ := hl.exists_column
  have hmine : mine.cls = cls := Relation.cls_of_ends he
  rw [← hrelated] at hd
  by_cases hself : cls = d.related
  · obtain ⟨hsource, htarget⟩ : r.source.cls = cls ∧ r.target.cls = cls := by
      have htheirs : theirs.cls = cls := hrelated.symm.trans hself.symm
      rcases Relation.ends_cases he with ⟨rfl, rfl⟩ | ⟨rfl, rfl⟩
      · exact ⟨hmine, htheirs⟩
      · exact ⟨htheirs, hmine⟩
    refine ⟨k, l, column, column', .inl hkeys, hk.related_eq.trans hsource, hcolumn,
      hl.related_eq.trans (htarget.trans hself), hcolumn', ?_⟩
    rw [hd, ← hself, junctionNames_of_self hkeys, columnName_of_head? hcolumn,
      columnName_of_head? hcolumn']
  · rcases Relation.ends_cases he with ⟨rfl, rfl⟩ | ⟨rfl, rfl⟩
    · exact namesJunction_of_ne (.inl hkeys) (hk.related_eq.trans hmine)
        (hl.related_eq.trans hrelated.symm) hself hcolumn hcolumn' hd
    · exact namesJunction_of_ne (.inr hkeys) (hl.related_eq.trans hmine)
        (hk.related_eq.trans hrelated.symm) hself hcolumn' hcolumn hd

/-! ## Methods -/

theorem relationshipMethod?_eq (hs : s.Consistent) {p : Plan} {id : RelationId} {r : Relation}
    {cls related : String} {numbered : Bool} {number : Nat} {kind : Relationship}
    {named : List String} (hr : (id, r) ∈ s.relations) (hkind : Relationship.of r cls = some kind)
    (hnamed : plannedNames p kind cls related numbered id = some named) :
    relationshipMethod? s p cls related numbered id number =
      some
        { relation := id
          name := relationshipName kind related (if numbered then some number else none)
          kind, related, named } := by
  have hof : (s.relation? id).bind (Relationship.of · cls) = some kind := by
    rw [hs.relation?_eq_some_iff.mpr hr]
    exact hkind
  unfold relationshipMethod?
  rw [hof]
  dsimp only
  rw [hnamed]
  rfl

/-- A method is named for its place among the relations with the other class. -/
theorem isNamedIn_of_relationshipMethod? {p : Plan} {cls related : String} {id : RelationId}
    {place : Nat} {m : RelationshipMethod}
    (hplace : (s.relationsBetween cls related)[place]? = some id)
    (hm : relationshipMethod? s p cls related (1 < (s.relationsBetween cls related).length) id
      (place + 1) = some m) : m.declaration.IsNamedIn s cls := by
  have hlt := (List.getElem?_eq_some_iff.mp hplace).1
  unfold relationshipMethod? at hm
  split at hm
  · cases hm
  · rename_i kind _
    obtain ⟨named, -, rfl⟩ := Option.map_eq_some_iff.mp hm
    refine ⟨place, hplace, ?_⟩
    unfold RelationshipMethod.declaration relationshipName
    simp only [Relationship.isMany_iff, decide_eq_true_eq]
    congr 1
    by_cases hone : (s.relationsBetween cls related).length = 1
    · rw [if_pos hone, if_neg (by omega)]
      rfl
    · rw [if_neg hone, if_pos (by omega)]
      rfl

theorem plannedNames_of_key {p : Plan} {id : RelationId} {k : Plan.ForeignKey}
    (hone : (p.foreignKeys.filter fun k => k.relation = id) = [k]) (kind : Relationship)
    (hkind : kind ≠ .belongsToMany) (cls related : String) (numbered : Bool) :
    plannedNames p kind cls related numbered id = some (keyNames k numbered) := by
  unfold plannedNames
  rw [if_neg hkind, keyOfRelation_of_filter hone]
  rfl

/-- The class `cls` has a method for the relation `r` with the class `related`, and it agrees with
the plan. -/
def HasMethod (s : Schema) (p : Plan) (cls : String) (id : RelationId) (r : Relation)
    (related : String) (number : Nat) : Prop :=
  ∃ m, relationshipMethod? s p cls related (1 < (s.relationsBetween cls related).length) id
      number = some m ∧
    m.relation = id ∧ m.related = related ∧ m.declaration.Agrees p cls r

section Method

variable {id : RelationId} {r : Relation} {cls : String} {mine theirs : End}

theorem hasMethod_of_junction (hs : s.Consistent) (ho : s.IsCreationOrder t o)
    (hr : (id, r) ∈ s.relations) (he : r.ends cls = some (mine, theirs))
    (hj : r.isJunction = true) (number : Nat) :
    HasMethod s (Plan.ofOrder t o composite) cls id r theirs.cls number := by
  have hnamed : plannedNames (Plan.ofOrder t o composite) .belongsToMany cls
      theirs.cls (1 < (s.relationsBetween cls theirs.cls).length) id =
        some (junctionNames (Plan.junctionOf t composite id r) cls theirs.cls) := by
    unfold plannedNames
    rw [if_pos rfl, junctionOfRelation_ofOrder hs ho hr hj]
    rfl
  refine ⟨_, relationshipMethod?_eq hs hr (Relationship.of_junction he hj) hnamed, rfl, rfl, ?_⟩
  exact .junction _ hj (Plan.filter_carries_junctions hs ho hr hj) rfl
    (namesJunction_junctionNames he rfl rfl)

theorem hasMethod_of_own (hs : s.Consistent) (hr : (id, r) ∈ s.relations)
    (he : r.ends cls = some (mine, theirs)) (hown : r.ownership cls = some .own)
    (hcls : cls ∈ s.names) (number : Nat) :
    HasMethod s (Plan.ofOrder s.order.1 s.order.2 composite) cls id r theirs.cls number := by
  obtain ⟨k, hone, hreal, _, hnumbered⟩ := Plan.exists_key composite hs hr hown hcls
  obtain ⟨mine', theirs', he', hrelated, -⟩ := hreal.ends
  rw [he] at he'
  cases he'
  have hnamed := plannedNames_of_key hone .belongsTo (by decide) cls theirs.cls
    (1 < (s.relationsBetween cls theirs.cls).length)
  refine ⟨_, relationshipMethod?_eq hs hr (Relationship.of_own hown) hnamed, rfl, rfl, ?_⟩
  exact .own k hown hone hreal.table_eq hrelated rfl
    (namesKey_keyNames hs hnumbered (by rw [hrelated]; rfl))

theorem hasMethod_of_other (hs : s.Consistent) (hr : (id, r) ∈ s.relations)
    (he : r.ends cls = some (mine, theirs)) (hother : r.ownership cls = some .other)
    (hne : cls ≠ theirs.cls) (hown : r.ownership theirs.cls = some .own)
    (htheirs : theirs.cls ∈ s.names) (number : Nat) :
    HasMethod s (Plan.ofOrder s.order.1 s.order.2 composite) cls id r theirs.cls number := by
  have hends := Relation.ends_swap he hne
  have hmine : mine.cls = cls := Relation.cls_of_ends he
  obtain ⟨k, hone, hreal, _, hnumbered⟩ := Plan.exists_key composite hs hr hown htheirs
  obtain ⟨mine', theirs', he', hrelated, -⟩ := hreal.ends
  rw [hends] at he'
  cases he'
  rw [hmine] at hrelated
  have hnamed := plannedNames_of_key hone
    (if theirs.multiplicity.isMany then .hasMany else .hasOne) (by split <;> decide) cls
    theirs.cls (1 < (s.relationsBetween cls theirs.cls).length)
  refine ⟨_, relationshipMethod?_eq hs hr (Relationship.of_other he hother) hnamed, rfl, rfl, ?_⟩
  exact .other k theirs mine hne.symm hown hends hone hreal.table_eq hrelated
    (apply_ite Relationship.method _ _ _)
    (namesKey_keyNames hs hnumbered (by
      rw [hrelated, Schema.relationsBetween_comm s theirs.cls]
      rfl))

/-- Every relation of a class has a method, whether a junction stores its keys, the class itself or
the class at the other end. -/
theorem hasMethod_of_ends (hs : s.Consistent) (hclosed : s.Closed) (hr : (id, r) ∈ s.relations)
    (he : r.ends cls = some (mine, theirs)) (number : Nat) :
    HasMethod s (Plan.ofOrder s.order.1 s.order.2 composite) cls id r theirs.cls number := by
  have hmem : cls ∈ s.names ∧ theirs.cls ∈ s.names := by
    have hmine : mine.cls = cls := Relation.cls_of_ends he
    rcases Relation.ends_cases he with ⟨rfl, rfl⟩ | ⟨rfl, rfl⟩
    · exact ⟨hmine ▸ (hclosed _ hr).1, (hclosed _ hr).2⟩
    · exact ⟨hmine ▸ (hclosed _ hr).2, (hclosed _ hr).1⟩
  cases hj : r.isJunction with
  | true => exact hasMethod_of_junction hs (Schema.isCreationOrder_order hs) hr he hj number
  | false =>
    rcases Relation.ownership_of_not_isJunction he hj with hown | hother
    · exact hasMethod_of_own hs hr he hown hmem.1 number
    · have hself : r.isSelf = false := by
        rw [Bool.eq_false_iff]
        intro hself
        have hown := Relation.ownership_eq_own_iff.mpr ⟨_, _, he, hj, .inl hself⟩
        rw [hother] at hown
        cases hown
      have hne : cls ≠ theirs.cls := fun heq => by
        rw [(Relation.isSelf_iff_of_ends he).mpr heq.symm] at hself
        cases hself
      have hown : r.ownership theirs.cls = some .own :=
        (Relation.owner_of_other he hj hself).mpr (by rw [hother]; decide)
      exact hasMethod_of_other hs hr he hother hne hown hmem.2 number

end Method

/-! ## Models -/

theorem mem_ids_links (hs : s.Consistent) {c : Class} (hc : c ∈ s.classes) {id : RelationId} :
    id ∈ c.links.ids ↔ ∃ r, (id, r) ∈ s.relations ∧ r.involves c.name = true := by
  unfold Links.ids
  rw [List.mem_flatMap]
  constructor
  · rintro ⟨link, hlink, hid⟩
    rw [← (hs.links_canonical c hc).get_of_mem hlink, hs.mem_get_links hc] at hid
    obtain ⟨r, hr, e, he, -⟩ := hid
    exact ⟨r, hr, Relation.involves_iff_ends.mpr (he ▸ rfl)⟩
  · rintro ⟨r, hr, hinvolves⟩
    obtain ⟨e, he⟩ := Option.isSome_iff_exists.mp (Relation.involves_iff_ends.mp hinvolves)
    have hid : id ∈ c.links.get e.2.cls := (hs.mem_get_links hc).mpr ⟨r, hr, e, he, rfl⟩
    exact ⟨_, Links.mem_of_get_ne_nil (List.ne_nil_of_mem hid), hid⟩

/-- For every relation that a class is linked by there is a method. -/
theorem exists_method_of_link (composite : Bool) (hs : s.Consistent) (hclosed : s.Closed)
    {c : Class} (hc : c ∈ s.classes) {link : String × List RelationId} (hlink : link ∈ c.links)
    {entry : RelationId × Nat} (hentry : entry ∈ link.2.zipIdx 1) :
    ∃ m, relationshipMethod? s (Plan.ofOrder s.order.1 s.order.2 composite) c.name link.1
        (1 < link.2.length) entry.1 entry.2 = some m ∧ m.relation = entry.1 ∧
      m.declaration.IsNamedIn s c.name ∧
      ∃ r mine theirs, (entry.1, r) ∈ s.relations ∧ r.ends c.name = some (mine, theirs) ∧
        m.related = theirs.cls ∧
        m.declaration.Agrees (Plan.ofOrder s.order.1 s.order.2 composite) c.name r := by
  obtain ⟨id, number⟩ := entry
  obtain ⟨hnumber, hplace⟩ := List.mem_zipIdx_iff_le_and_getElem?_sub.mp hentry
  obtain ⟨place, rfl⟩ := Nat.exists_eq_add_of_le' hnumber
  have hget : link.2 = s.relationsBetween c.name link.1 := by
    rw [← hs.get_links c hc, (hs.links_canonical c hc).get_of_mem hlink]
  have hid := List.mem_of_getElem? hplace
  rw [hget] at hid hplace ⊢
  obtain ⟨r, hr, hconnects⟩ := Schema.mem_relationsBetween.mp hid
  obtain ⟨⟨mine, theirs⟩, he, hcls⟩ := Relation.connects_iff.mp hconnects
  obtain ⟨m, hm, hrelation, hrelated, hagrees⟩ := hasMethod_of_ends hs hclosed hr he (place + 1)
  rw [hcls] at hm
  exact ⟨m, hm, hrelation, isNamedIn_of_relationshipMethod? hplace hm, r, mine, theirs, hr, he,
    hrelated, hagrees⟩

theorem agree_relationshipMethods (hs : s.Consistent) (hclosed : s.Closed) {c : Class}
    (hc : c ∈ s.classes) :
    MethodsAgree s (Plan.ofOrder s.order.1 s.order.2 composite) c.name
      ((relationshipMethods s (Plan.ofOrder s.order.1 s.order.2 composite) c).map
        RelationshipMethod.declaration) := by
  have hids : ((relationshipMethods s (Plan.ofOrder s.order.1 s.order.2 composite) c).map
      RelationshipMethod.declaration).map (·.relation) = c.links.ids := by
    rw [List.map_map]
    unfold relationshipMethods Links.ids
    rw [List.map_flatMap]
    apply List.flatMap_congr
    intro link hlink
    rw [map_filterMap_of_some (h := Prod.fst), List.zipIdx_map_fst]
    intro entry hentry
    obtain ⟨m, hm, hid, -⟩ := exists_method_of_link composite hs hclosed hc hlink hentry
    exact ⟨m, hm, hid⟩
  have hmethods : ∀ d ∈ (relationshipMethods s (Plan.ofOrder s.order.1 s.order.2 composite)
      c).map RelationshipMethod.declaration, d.IsNamedIn s c.name ∧
        ∃ r mine theirs, (d.relation, r) ∈ s.relations ∧ r.ends c.name = some (mine, theirs) ∧
          d.related = theirs.cls ∧
          d.Agrees (Plan.ofOrder s.order.1 s.order.2 composite) c.name r := by
    intro d hd
    obtain ⟨m, hmem, rfl⟩ := List.mem_map.mp hd
    obtain ⟨link, hlink, hmem⟩ := List.mem_flatMap.mp hmem
    obtain ⟨entry, hentry, hm⟩ := List.mem_filterMap.mp hmem
    obtain ⟨m', hm', hid, hagrees⟩ := exists_method_of_link composite hs hclosed hc hlink hentry
    rw [hm'] at hm
    cases hm
    rw [show m.declaration.relation = entry.1 from hid]
    exact hagrees
  exact ⟨hids ▸ Plan.nodup_ids_links hs hc, fun id => hids ▸ mem_ids_links hs hc,
    fun d hd => (hmethods d hd).2, fun d hd => (hmethods d hd).1⟩

end

/-- The models of a reachable schema that has the classes of all its relations are one for each
class. In it one method stands for each relation of the class, also where the key is deferred, and
says of the relation what the plan does. -/
theorem models_agree {s : Schema} (h : s.Reachable) (hclosed : s.Closed) (options : Options) :
    List.Forall₂ (IsModelOf s (generate s options).plan options.compositeKeys) s.classes
      (generate s options).models := by
  have hmodels : (generate s options).models =
      models s (Plan.ofOrder s.order.1 s.order.2 options.compositeKeys) options := rfl
  rw [hmodels]
  unfold models
  rw [List.forall₂_map_right_iff, List.forall₂_same]
  intro c hc
  refine ⟨rfl, _, _, keyText_keyMember c options.compositeKeys,
    agree_relationshipMethods h.consistent hclosed hc, ?_⟩
  rw [modelText_eq, List.map_append, List.map_map, List.map_map,
    show Declaration.text ∘ RelationshipMethod.declaration = block 1 ∘ RelationshipMethod.lines from
      funext text_declaration]

/-- Every person works in a department, which one of them leads; some teach others; and all have
skills. -/
def staffed : Schema :=
  (((((((Schema.empty.ensureClass "Department").ensureClass "Person").ensureClass
    "Skill").addRelation ⟨⟨"Person", .any⟩, ⟨"Department", .one⟩⟩).addRelation
    ⟨⟨"Department", .zeroOrOne⟩, ⟨"Person", .one⟩⟩).addRelation
    ⟨⟨"Person", .any⟩, ⟨"Person", .zeroOrOne⟩⟩).addRelation
    ⟨⟨"Person", .any⟩, ⟨"Skill", .atLeastOne⟩⟩)

theorem models_agree_staffed : staffed.Reachable ∧ staffed.Closed ∧
    List.Forall₂ (IsModelOf staffed (generate staffed {}).plan false) staffed.classes
      (generate staffed {}).models := by
  have hreachable : staffed.Reachable :=
    (((((((Schema.Reachable.empty.ensureClass _).ensureClass _).ensureClass _).addRelation
      _).addRelation _).addRelation _).addRelation _)
  have hclosed : staffed.Closed := by decide +kernel
  exact ⟨hreachable, hclosed, models_agree hreachable hclosed {}⟩

end Output

end SchemaBridge
