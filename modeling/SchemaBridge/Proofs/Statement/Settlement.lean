/-
  How a change settles, whatever columns its keys list. Flags for columns end on the keys that hold
  the columns, and the flags of one key come together whenever they were given: with its fields
  absorbed, its modifiers settled and the fields of the table taken in, a change has its keys with
  all flags delivered to them.
  Main results: `absorbFields_deliver`, `settle_deliver` and `takeFields_deliver`.
-/
import SchemaBridge.Proofs.Schema.Outline
import SchemaBridge.Statement.TableChange

namespace SchemaBridge

/-! ## Fields by name -/

namespace Class

/-- Fields without the first one of each name. -/
def without (names : List String) (fields : List Field) : List Field :=
  names.foldl (fun fs name => fs.eraseP (·.name == name)) fields

/-- The flags of the first field of each name. -/
def firstFlags (names : List String) (fields : List Field) : List (String × Flags) :=
  names.filterMap fun name => (fields.find? (·.name == name)).map fun f => (name, f.flags)

theorem updateFirst_of_not_mem {name : String} (f : Field → Field) {fields : List Field}
    (h : ∀ x ∈ fields, x.name ≠ name) : updateFirst name f fields = fields := by
  induction fields with
  | nil => rfl
  | cons x rest ih =>
    rw [updateFirst, if_neg (h x List.mem_cons_self),
      ih fun y hy => h y (List.mem_cons_of_mem _ hy)]

theorem map_name_updateFirst (name : String) (flags : Flags) (fields : List Field) :
    (updateFirst name (·.apply flags) fields).map (·.name) = fields.map (·.name) := by
  induction fields with
  | nil => rfl
  | cons x rest ih =>
    rw [updateFirst]
    split
    · rfl
    · rw [List.map_cons, List.map_cons, ih]

theorem find?_updateFirst_of_ne {name other : String} (h : other ≠ name) (f : Field → Field)
    (hf : ∀ x, (f x).name = x.name) (fields : List Field) :
    (updateFirst name f fields).find? (·.name == other) = fields.find? (·.name == other) := by
  induction fields with
  | nil => rfl
  | cons x rest ih =>
    rw [updateFirst]
    by_cases hx : x.name = name
    · have hne : ((f x).name == other) = false := by
        rw [hf, hx]
        exact beq_false_of_ne h.symm
      have hne' : (x.name == other) = false := by
        rw [hx]
        exact beq_false_of_ne h.symm
      rw [if_pos hx, List.find?_cons, List.find?_cons, hne, hne']
    · rw [if_neg hx, List.find?_cons, List.find?_cons, ih]

theorem find?_eraseP_of_ne {name other : String} (h : other ≠ name) (fields : List Field) :
    (fields.eraseP (·.name == name)).find? (·.name == other) =
      fields.find? (·.name == other) := by
  induction fields with
  | nil => rfl
  | cons x rest ih =>
    by_cases hx : x.name = name
    · have hne : (x.name == other) = false := by
        rw [hx]
        exact beq_false_of_ne h.symm
      rw [List.eraseP_cons_of_pos (by simpa using hx), List.find?_cons, hne]
    · rw [List.eraseP_cons_of_neg (by simpa using hx), List.find?_cons, List.find?_cons, ih]

theorem firstFlags_eraseP {column : String} {names : List String} (h : column ∉ names)
    (fields : List Field) :
    firstFlags names (fields.eraseP (·.name == column)) = firstFlags names fields := by
  apply List.filterMap_congr
  intro name hname
  rw [find?_eraseP_of_ne]
  rintro rfl
  exact h hname

end Class

/-- Relations without the newest one between two classes. -/
def Relation.dropNewest (cls related : String) (relations : List (RelationId × Relation)) :
    List (RelationId × Relation) :=
  match (relations.filter fun p => p.2.connects cls related).getLast? with
  | some newest => relations.filter (·.1 != newest.1)
  | none => relations

namespace Statement

open SchemaBridge.Class (without firstFlags firstFlags_eraseP)

namespace KeyDeclaration

/-- A key with flags one after the other gives the relation with the flags that are set in any of
them. -/
theorem relation_foldl_apply (flags : List Flags) (k : KeyDeclaration) (cls : String) :
    (flags.foldl apply k).relation cls =
      ⟨⟨cls, if flags.any (·.unique) then .zeroOrOne else k.here⟩,
        ⟨k.related, if flags.any (·.nullable) then .zeroOrOne else k.there⟩⟩ := by
  induction flags generalizing k with
  | nil => rfl
  | cons f rest ih =>
    obtain ⟨nullable, unique, primary⟩ := f
    rw [List.foldl_cons, ih, List.any_cons, List.any_cons]
    cases nullable <;> cases unique <;> simp [apply]

end KeyDeclaration

namespace TableChange

variable {c : TableChange}

/-! ## Delivering flags -/

/-- The flags among the given ones that are for columns of the key at a place. -/
def flagsFor (c : TableChange) (given : List (String × Flags)) (i : Nat) : List Flags :=
  (given.filter fun g => c.keyOf g.1 == some i).map Prod.snd

theorem flagsFor_append (c : TableChange) (given more : List (String × Flags)) (i : Nat) :
    c.flagsFor (given ++ more) i = c.flagsFor given i ++ c.flagsFor more i := by
  unfold flagsFor
  rw [List.filter_append, List.map_append]

/-- The change with the given flags on the keys that hold their columns. -/
def deliver (c : TableChange) (given : List (String × Flags)) : TableChange :=
  { c with keys := c.keys.mapIdx fun i k => (c.flagsFor given i).foldl KeyDeclaration.apply k }

/-- Flags for columns that no key holds are lost. -/
theorem deliver_of_none {given : List (String × Flags)} (h : ∀ g ∈ given, c.keyOf g.1 = none) :
    c.deliver given = c := by
  have hkeys : c.keys.mapIdx (fun i k => (c.flagsFor given i).foldl KeyDeclaration.apply k) =
      c.keys := by
    apply List.ext_getElem?
    intro i
    have hnone : c.flagsFor given i = [] := by
      unfold flagsFor
      rw [List.map_eq_nil_iff, List.filter_eq_nil_iff]
      intro g hg
      rw [h g hg]
      exact Bool.false_ne_true
    rw [List.getElem?_mapIdx, hnone]
    exact Option.map_id_apply
  unfold deliver
  rw [hkeys]

theorem deliver_nil (c : TableChange) : c.deliver [] = c :=
  deliver_of_none (List.forall_mem_nil _)

theorem deliver_of_some {column : String} {i : Nat} (hi : c.keyOf column = some i) (flags : Flags) :
    c.deliver [(column, flags)] = c.applyToKey i flags := by
  have hkeys : c.keys.mapIdx (fun j k => (c.flagsFor [(column, flags)] j).foldl
      KeyDeclaration.apply k) = c.keys.modify i (·.apply flags) := by
    apply List.ext_getElem?
    intro j
    unfold flagsFor
    rw [List.getElem?_mapIdx, List.getElem?_modify]
    by_cases hij : i = j
    · rw [List.filter_cons_of_pos (by simp [hi, hij])]
      cases c.keys[j]? <;> simp [hij]
    · rw [List.filter_cons_of_neg (by simp [hi, hij])]
      cases c.keys[j]? <;> simp [hij]
  unfold deliver applyToKey
  rw [hkeys]

theorem deliver_append (c : TableChange) (given more : List (String × Flags)) :
    c.deliver (given ++ more) = (c.deliver given).deliver more := by
  unfold deliver
  dsimp only
  rw [List.mapIdx_mapIdx]
  congr 2
  funext i k
  rw [flagsFor_append, List.foldl_append]
  rfl

/-- Flags for one column are delivered to the key that holds it, if there is one. -/
theorem applyToColumn_eq (c : TableChange) (column : String) (flags : Flags) :
    c.applyToColumn column flags = c.deliver [(column, flags)] := by
  unfold applyToColumn
  cases hi : c.keyOf column with
  | none => exact (deliver_of_none (by simpa using hi)).symm
  | some i => exact (deliver_of_some hi flags).symm

theorem foldl_applyToColumn (c : TableChange) (given : List (String × Flags)) :
    given.foldl (fun k g => k.applyToColumn g.1 g.2) c = c.deliver given := by
  induction given generalizing c with
  | nil => exact c.deliver_nil.symm
  | cons g rest ih => rw [List.foldl_cons, ih, applyToColumn_eq, ← deliver_append]; rfl

/-! ## Taking in fields -/

/-- The flags of fields, with their names. -/
def given (fields : List Field) : List (String × Flags) :=
  fields.map fun f => (f.name, f.flags)

/-- The fields that no key holds. -/
def lasting (c : TableChange) : List Field :=
  c.fields.filter fun f => (c.keyOf f.name).isNone

/-- Fields that are columns of keys give them their flags; the others stay. -/
theorem absorbFields_deliver (c : TableChange) :
    c.absorbFields = { c.deliver (given c.fields) with fields := c.lasting } := by
  unfold absorbFields given lasting
  rw [← foldl_applyToColumn, List.foldl_map]

/-! ## Taking in modifiers -/

/-- Fields with the flags that modifiers have for them. -/
def withFlags (fields : List Field) (flags : List (String × Flags)) : List Field :=
  flags.foldl (fun fields m => Class.updateFirst m.1 (·.apply m.2) fields) fields

/-- The modifiers for columns that are neither declared fields nor held by a key. -/
def outer (c : TableChange) (flags : List (String × Flags)) : List (String × Flags) :=
  flags.filter fun m => (c.keyOf m.1).isNone && !c.fields.any (·.name == m.1)

theorem any_name_updateFirst (column name : String) (flags : Flags) (fields : List Field) :
    (Class.updateFirst name (·.apply flags) fields).any (·.name == column) =
      fields.any (·.name == column) := by
  have hany : ∀ fs : List Field,
      fs.any (·.name == column) = (fs.map (·.name)).any (· == column) := by
    intro fs
    rw [List.any_map]
    rfl
  rw [hany, hany, Class.map_name_updateFirst]

theorem withFlags_append (fields : List Field) (flags more : List (String × Flags)) :
    withFlags fields (flags ++ more) = withFlags (withFlags fields flags) more :=
  List.foldl_append

/-- No field is a column of a key. -/
def Apart (c : TableChange) : Prop :=
  ∀ f ∈ c.fields, c.keyOf f.name = none

theorem settleFlags_eq_of_apart (h : c.Apart) (m : String × Flags) (existing : List Field) :
    settleFlags (c, existing) m.1 m.2 =
      ({ c.deliver [m] with fields := Class.updateFirst m.1 (·.apply m.2) c.fields },
        withFlags existing (c.outer [m])) := by
  unfold settleFlags outer
  dsimp only
  by_cases hany : c.fields.any (·.name == m.1) = true
  · obtain ⟨f, hf, hname⟩ := List.any_eq_true.mp hany
    have hnone : c.keyOf m.1 = none := by
      rw [← beq_iff_eq.mp hname]
      exact h f hf
    rw [if_pos hany, deliver_of_none (by simpa using hnone),
      List.filter_cons_of_neg (by simp [hany])]
    rfl
  · have hnot : ∀ f ∈ c.fields, f.name ≠ m.1 :=
      fun f hf hname => hany (List.any_eq_true.mpr ⟨f, hf, beq_iff_eq.mpr hname⟩)
    rw [if_neg hany, Class.updateFirst_of_not_mem _ hnot]
    cases hi : c.keyOf m.1 with
    | none =>
      rw [deliver_of_none (by simpa using hi), List.filter_cons_of_pos (by simp [hi, hany])]
      rfl
    | some i =>
      rw [deliver_of_some hi, List.filter_cons_of_neg (by simp [hi])]
      rfl

/-- Modifiers reach the declared fields, the keys, and of the fields that the table already has
those that are neither. -/
theorem settle_deliver (h : c.Apart) (existing : List Field) :
    c.settle existing = ({ c.deliver c.flags with fields := withFlags c.fields c.flags },
      withFlags existing (c.outer c.flags)) := by
  have hfold : ∀ (flags : List (String × Flags)) (d : TableChange) (fs : List Field), d.Apart →
      flags.foldl (fun state m => settleFlags state m.1 m.2) (d, fs) =
        ({ d.deliver flags with fields := withFlags d.fields flags },
          withFlags fs (d.outer flags)) := by
    intro flags
    induction flags with
    | nil =>
      intro d fs _
      rw [deliver_nil]
      rfl
    | cons m rest ih =>
      intro d fs hd
      have hnext : Apart { d.deliver [m] with
          fields := Class.updateFirst m.1 (·.apply m.2) d.fields } := by
        intro f hf
        have hmem : f.name ∈ d.fields.map (·.name) :=
          Class.map_name_updateFirst m.1 m.2 d.fields ▸ List.mem_map_of_mem hf
        obtain ⟨g, hg, hname⟩ := List.mem_map.mp hmem
        rw [← hname]
        exact hd g hg
      have houter : outer { d.deliver [m] with
          fields := Class.updateFirst m.1 (·.apply m.2) d.fields } rest = d.outer rest := by
        unfold outer
        dsimp only
        simp only [any_name_updateFirst]
        rfl
      rw [List.foldl_cons, settleFlags_eq_of_apart hd, ih _ _ hnext, houter, ← withFlags_append]
      have hdeliver : d.deliver (m :: rest) = (d.deliver [m]).deliver rest :=
        d.deliver_append [m] rest
      have happend : d.outer (m :: rest) = d.outer [m] ++ d.outer rest :=
        List.filter_append [m] rest
      rw [hdeliver, happend]
      rfl
  exact hfold c.flags c existing h

/-! ## Fields that the table already has -/

theorem takeField_eq {column : String} {i : Nat} (hi : c.keyOf column = some i)
    (existing : List Field) :
    takeField (c, existing) column i =
      (c.deliver (firstFlags [column] existing), existing.eraseP (·.name == column)) := by
  unfold takeField firstFlags
  dsimp only
  cases hf : existing.find? (·.name == column) with
  | none =>
    have herase : existing.eraseP (·.name == column) = existing :=
      List.eraseP_of_forall_not fun f hf' hname => List.find?_eq_none.mp hf f hf' hname
    rw [List.filterMap_cons_none (by rw [hf]; rfl), herase]
    exact congrArg (·, existing) c.deliver_nil.symm
  | some f =>
    rw [List.filterMap_cons_some (by rw [hf]; rfl)]
    dsimp only
    rw [← deliver_of_some hi]
    rfl

/-- The first field of each column of a key gives its flags to the key and is no field any more. -/
theorem takeFields_deliver (hnodup : (c.keyColumns.map Prod.fst).Nodup)
    (hplaces : ∀ p ∈ c.keyColumns, c.keyOf p.1 = some p.2) (existing : List Field) :
    c.takeFields existing =
      (c.deliver (firstFlags (c.keyColumns.map Prod.fst) existing),
        without (c.keyColumns.map Prod.fst) existing) := by
  have hfold : ∀ (columns : List (String × Nat)) (d : TableChange) (fs : List Field),
      (columns.map Prod.fst).Nodup → (∀ p ∈ columns, d.keyOf p.1 = some p.2) →
      columns.foldl (fun state k => takeField state k.1 k.2) (d, fs) =
        (d.deliver (firstFlags (columns.map Prod.fst) fs), without (columns.map Prod.fst) fs) := by
    intro columns
    induction columns with
    | nil => exact fun d fs _ _ => congrArg (·, fs) d.deliver_nil.symm
    | cons p rest ih =>
      intro d fs hnodup hplaces
      rw [List.map_cons, List.nodup_cons] at hnodup
      obtain ⟨hp, hrest⟩ := List.forall_mem_cons.mp hplaces
      have hsplit : firstFlags (p.1 :: rest.map Prod.fst) fs =
          firstFlags [p.1] fs ++ firstFlags (rest.map Prod.fst) fs :=
        List.filterMap_append (l := [p.1])
      rw [List.foldl_cons, takeField_eq hp, ih (d.deliver _) _ hnodup.2 hrest, firstFlags_eraseP hnodup.1,
        List.map_cons, hsplit, deliver_append]
      rfl
  exact hfold c.keyColumns c existing hnodup hplaces

/-! ## Relations -/

theorem outline_addKeys (c : TableChange) (s : Schema) : (c.addKeys s).outline = s.outline := by
  unfold addKeys
  induction c.keys generalizing s with
  | nil => rfl
  | cons k rest ih => rw [List.foldl_cons, ih, Schema.outline_addRelation]

/-- The relations of the keys come last, numbered on. -/
theorem relations_addKeys (c : TableChange) (s : Schema) :
    (c.addKeys s).relations =
      s.relations ++ c.keys.mapIdx fun i k => (s.nextRelation + i, k.relation c.cls) := by
  unfold addKeys
  induction c.keys generalizing s with
  | nil => exact (List.append_nil _).symm
  | cons k rest ih =>
    rw [List.foldl_cons, ih, Schema.relations_addRelation, Schema.nextRelation_addRelation,
      List.mapIdx_cons, List.append_assoc]
    simp only [Nat.add_assoc, Nat.add_comm 1]
    rfl

theorem nextRelation_addKeys (c : TableChange) (s : Schema) :
    (c.addKeys s).nextRelation = s.nextRelation + c.keys.length := by
  unfold addKeys
  induction c.keys generalizing s with
  | nil => rfl
  | cons k rest ih =>
    rw [List.foldl_cons, ih, Schema.nextRelation_addRelation, List.length_cons]
    omega

variable {s : Schema}

theorem dropKey_spec (h : s.Consistent) (related : String) :
    (c.dropKey s related).Consistent ∧ (c.dropKey s related).outline = s.outline ∧
      (c.dropKey s related).relations = Relation.dropNewest c.cls related s.relations ∧
      (c.dropKey s related).nextRelation = s.nextRelation := by
  unfold dropKey Relation.dropNewest Schema.relationsBetween
  rw [List.getLast?_map]
  cases hlast : (s.relations.filter fun p => p.2.connects c.cls related).getLast? with
  | none => exact ⟨h, rfl, rfl, rfl⟩
  | some newest =>
    obtain ⟨id, r⟩ := newest
    have hmem : (id, r) ∈ s.relations :=
      (List.mem_filter.mp (List.mem_of_getLast? hlast)).1
    refine ⟨h.removeRelation id, Schema.outline_removeRelation h id, ?_, ?_⟩
    · show (s.removeRelation id).relations = _
      rw [h.removeRelation_eq hmem]
    · show (s.removeRelation id).nextRelation = _
      rw [h.removeRelation_eq hmem]

/-- Dropping keys takes the newest relation for each out, and nothing else. -/
theorem dropKeys_spec (h : s.Consistent) (related : List String) :
    (related.foldl c.dropKey s).Consistent ∧ (related.foldl c.dropKey s).outline = s.outline ∧
      (related.foldl c.dropKey s).relations =
        related.foldl (fun rs other => Relation.dropNewest c.cls other rs) s.relations ∧
      (related.foldl c.dropKey s).nextRelation = s.nextRelation := by
  induction related generalizing s with
  | nil => exact ⟨h, rfl, rfl, rfl⟩
  | cons other rest ih =>
    obtain ⟨hconsistent, houtline, hrelations, hnext⟩ := dropKey_spec (c := c) h other
    obtain ⟨hconsistent', houtline', hrelations', hnext'⟩ := ih hconsistent
    simp only [List.foldl_cons]
    exact ⟨hconsistent', houtline'.trans houtline, hrelations ▸ hrelations', hnext'.trans hnext⟩

end TableChange

end Statement

end SchemaBridge
