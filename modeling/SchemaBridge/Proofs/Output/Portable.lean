/-
  Schemas that migrations carry whole. The conditions say what the text of migrations cannot tell:
  names that do not survive their spelling, fields without a column, keys that are made up, ends
  that a key does not show, and columns that would be taken for those of a key.
  Main results: `fields_tableOf`, `relationOf_of_realises` and `junctionClasses_of_link`.
-/
import SchemaBridge.Project
import SchemaBridge.Proofs.Output.Effect
import SchemaBridge.Proofs.Plan.Realisation

namespace SchemaBridge

/-! ## Parts of a text -/

namespace Text

theorem intercalate_splitAt (sep : Char) (s : List Char) :
    [sep].intercalate (splitAt sep s) = s := by
  induction s with
  | nil => rfl
  | cons c rest ih =>
    rw [splitAt]
    cases hparts : splitAt sep rest with
    | nil => exact absurd hparts (splitAt_ne_nil sep rest)
    | cons part parts =>
      rw [hparts] at ih
      by_cases hc : c = sep
      · rw [if_pos hc, List.intercalate_cons_cons, ih, hc]
        rfl
      · rw [if_neg hc]
        cases parts with
        | nil =>
          rw [List.intercalate_singleton] at ih ⊢
          rw [ih]
        | cons next more =>
          rw [List.intercalate_cons_cons] at ih ⊢
          rw [List.cons_append, List.cons_append, ih]

theorem not_mem_of_mem_splitAt {sep : Char} {s part : List Char} (h : part ∈ splitAt sep s) :
    sep ∉ part := by
  induction s generalizing part with
  | nil =>
    rw [splitAt, List.mem_singleton] at h
    rw [h]
    exact List.not_mem_nil
  | cons c rest ih =>
    rw [splitAt] at h
    cases hparts : splitAt sep rest with
    | nil => exact absurd hparts (splitAt_ne_nil sep rest)
    | cons first parts =>
      rw [hparts] at h ih
      by_cases hc : c = sep
      · rw [if_pos hc] at h
        rcases List.mem_cons.mp h with rfl | h
        · exact List.not_mem_nil
        · exact ih h
      · rw [if_neg hc] at h
        rcases List.mem_cons.mp h with rfl | h
        · have hfirst := ih List.mem_cons_self
          exact fun hmem => (List.mem_cons.mp hmem).elim (fun heq => hc heq.symm) hfirst
        · exact ih (List.mem_cons_of_mem _ h)

/-- A text is cut at the only separator in it. -/
theorem splitAt_append {sep : Char} {a b : List Char} (ha : sep ∉ a) (hb : sep ∉ b) :
    splitAt sep (a ++ sep :: b) = [a, b] := by
  induction a with
  | nil => rw [List.nil_append, splitAt, if_pos rfl, splitAt_of_not_mem hb]
  | cons c rest ih =>
    have hc : c ≠ sep := fun heq => ha (heq ▸ List.mem_cons_self)
    rw [List.cons_append, splitAt, if_neg hc, ih fun h => ha (List.mem_cons_of_mem _ h)]

end Text

/-! ## Conditions -/

/-- The class has an `id` as its first field, and no other field is part of its key. -/
def Class.HasId (c : Class) : Prop :=
  ∃ rest, c.fields = ⟨"id", some .int, { primary := true }⟩ :: rest ∧
    ∀ f ∈ rest, f.name ≠ "id" ∧ f.flags.primary = false

/-- The class has no `id` but fields that make up its key; a key of one field, unless keys may have
more. -/
structure Class.HasKey (c : Class) (composite : Bool) : Prop where
  no_id : ∀ f ∈ c.fields, f.name ≠ "id"
  primary : ∃ f ∈ c.fields, f.flags.primary = true
  single : composite = false → ∃ f, c.fields.filter (·.flags.primary) = [f]
  bare : ∀ f ∈ c.fields, f.flags.primary = true →
    f.flags.nullable = false ∧ f.flags.unique = false

/-- The name is two parts with an underscore between them. -/
def Naming.InTwoParts (name : String) : Prop :=
  ∃ a b, name.toList = a ++ '_' :: b ∧ a ≠ [] ∧ b ≠ [] ∧ '_' ∉ a ∧ '_' ∉ b

/-- The relation is one of a junction, between classes whose names survive in its name. -/
structure Relation.IsLink (r : Relation) : Prop where
  source : r.source.multiplicity = .any
  target : r.target.multiplicity = .any
  names : ∀ cls ∈ [r.source.cls, r.target.cls],
    '_' ∉ (Naming.snake cls).toList ∧ Naming.className (Naming.snake cls) = cls

/-- The relation is that of a key which its source stores. -/
structure Relation.IsReference (r : Relation) : Prop where
  source : r.source.multiplicity = .any ∨ r.source.multiplicity = .zeroOrOne
  target : r.target.multiplicity = .one ∨ r.target.multiplicity = .zeroOrOne
  owner : r.ownership r.source.cls = some .own

/-- The table of a class tells all of it. -/
structure Class.Portable (c : Class) (composite : Bool) : Prop where
  name : Naming.className (Naming.tableName c.name) = c.name
  keys : c.HasId ∨ c.HasKey composite
  typed : ∀ f ∈ c.fields, ∃ t, f.type = some t ∧ ∀ name, t ≠ .other name
  fields_nodup : (c.fields.map (·.name)).Nodup
  /-- The class is not taken for a junction. -/
  no_junction : Naming.InTwoParts (Naming.tableName c.name) → ∃ f ∈ c.fields, f.name ≠ "id"

/-- The migrations of a schema tell all of it. -/
structure Schema.Portable (s : Schema) (options : Options) : Prop where
  classes : ∀ c ∈ s.classes, c.Portable options.compositeKeys
  relations : ∀ p ∈ s.relations, p.2.IsLink ∨ p.2.IsReference
  columns_nodup : ∀ t ∈ (generate s options).plan.tables,
    (t.columns.map (·.name) ++ t.foreignKeys.flatMap fun k => k.columns.map (·.name)).Nodup
  /-- A key that is added last takes no column of the table. -/
  deferred_apart : ∀ k ∈ (generate s options).plan.deferred,
    ∀ t ∈ (generate s options).plan.tables, t.table = k.table →
      ∀ c ∈ k.columns, c.name ∉ t.columns.map (·.name)

/-- What a class takes part in does not matter for that. -/
theorem Class.Portable.of_fields_eq {c d : Class} {composite : Bool} (h : d.Portable composite)
    (hname : c.name = d.name) (hfields : c.fields = d.fields) : c.Portable composite := by
  obtain ⟨name, fields, links⟩ := c
  obtain ⟨name', fields', links'⟩ := d
  change name = name' at hname
  change fields = fields' at hfields
  subst hname hfields
  have hkeys : (⟨name, fields, links⟩ : Class).HasId ∨
      (⟨name, fields, links⟩ : Class).HasKey composite :=
    h.keys.imp id fun hkey => ⟨hkey.no_id, hkey.primary, hkey.single, hkey.bare⟩
  exact ⟨h.name, hkeys, h.typed, h.fields_nodup, h.no_junction⟩

namespace Output

open Statement (TableChange)
open Statement.TableChange (withFlags)

/-! ## Fields -/

/-- The field as its column tells it. -/
def bareField (f : Field) : Field :=
  ⟨f.name, f.type, ⟨!f.flags.primary && f.flags.nullable, !f.flags.primary && f.flags.unique,
    false⟩⟩

theorem bareField_of_not_primary {f : Field} (h : f.flags.primary = false) : bareField f = f := by
  obtain ⟨name, type, nullable, unique, primary⟩ := f
  change primary = false at h
  subst h
  rfl

/-- The field of a key once its modifier is taken in. -/
theorem bareField_apply {f : Field} (hprimary : f.flags.primary = true)
    (hnullable : f.flags.nullable = false) (hunique : f.flags.unique = false) :
    (bareField f).apply { primary := true } = f := by
  obtain ⟨name, type, nullable, unique, primary⟩ := f
  change primary = true at hprimary
  change nullable = false at hnullable
  change unique = false at hunique
  subst hprimary hnullable hunique
  rfl

theorem exists_method?_of_typed {t : ColumnType} (h : ∀ name, t ≠ .other name) :
    ∃ m, t.method? = some m := by
  cases t with
  | other name => exact absurd rfl (h name)
  | _ => exact ⟨_, rfl⟩

/-- A field with a usable type has a column that tells it. -/
theorem map_columnField (cls : String) {usesId : Bool} {fields : List Field}
    (hid : usesId = true → ∀ f ∈ fields, f.name ≠ "id")
    (htyped : ∀ f ∈ fields, ∃ t, f.type = some t ∧ ∀ name, t ≠ .other name) :
    (fields.filterMap fun f => match Plan.columnOf cls usesId f with
      | some (.ok column) => some column
      | _ => none).map columnField = fields.map bareField := by
  apply map_filterMap_of_some
  intro f hf
  obtain ⟨t, ht, hother⟩ := htyped f hf
  obtain ⟨m, hm⟩ := exists_method?_of_typed hother
  have hskip : (usesId && f.name == "id") = false := by
    cases usesId with
    | false => rfl
    | true => exact beq_false_of_ne (hid rfl f hf)
  have hcolumn : Plan.columnOf cls usesId f = some (.ok
      { name := f.name
        method := m
        nullable := !f.flags.primary && f.flags.nullable
        unique := !f.flags.primary && f.flags.unique }) := by
    unfold Plan.columnOf
    rw [hskip, ht]
    dsimp only
    rw [hm]
    rfl
  rw [hcolumn]
  refine ⟨_, rfl, ?_⟩
  unfold columnField bareField
  dsimp only
  rw [ColumnType.ofMethod?_of_method? hm, ht]

/-- Modifiers for later fields pass the first one by. -/
theorem withFlags_cons_of_ne {f : Field} {fields : List Field} {flags : List (String × Flags)}
    (h : ∀ m ∈ flags, f.name ≠ m.1) :
    withFlags (f :: fields) flags = f :: withFlags fields flags := by
  unfold TableChange.withFlags
  induction flags generalizing fields with
  | nil => rfl
  | cons m rest ih =>
    have hone : Class.updateFirst m.1 (·.apply m.2) (f :: fields) =
        f :: Class.updateFirst m.1 (·.apply m.2) fields :=
      if_neg (h m List.mem_cons_self)
    rw [List.foldl_cons, List.foldl_cons, hone]
    exact ih fun n hn => h n (List.mem_cons_of_mem _ hn)

/-- The modifiers of a key bring its fields back. -/
theorem withFlags_bareField {fields : List Field} (hnodup : (fields.map (·.name)).Nodup)
    (hbare : ∀ f ∈ fields, f.flags.primary = true →
      f.flags.nullable = false ∧ f.flags.unique = false) :
    withFlags (fields.map bareField) ((fields.filter (·.flags.primary)).map fun f =>
      (f.name, { primary := true })) = fields := by
  induction fields with
  | nil => rfl
  | cons f rest ih =>
    rw [List.map_cons, List.nodup_cons] at hnodup
    have hrest := ih hnodup.2 fun g hg => hbare g (List.mem_cons_of_mem _ hg)
    have hne : ∀ m ∈ (rest.filter (·.flags.primary)).map fun g =>
        (g.name, ({ primary := true } : Flags)), f.name ≠ m.1 := by
      intro m hm hname
      obtain ⟨g, hg, rfl⟩ := List.mem_map.mp hm
      exact hnodup.1 (List.mem_map.mpr ⟨g, (List.mem_filter.mp hg).1, hname.symm⟩)
    cases hprimary : f.flags.primary with
    | false =>
      rw [List.filter_cons_of_neg (by rw [hprimary]; exact Bool.false_ne_true), List.map_cons,
        bareField_of_not_primary hprimary, withFlags_cons_of_ne hne, hrest]
    | true =>
      obtain ⟨hnullable, hunique⟩ := hbare f List.mem_cons_self hprimary
      have hfirst : Class.updateFirst f.name (·.apply { primary := true })
          (bareField f :: rest.map bareField) = f :: rest.map bareField := by
        have hone : Class.updateFirst f.name (·.apply { primary := true })
            (bareField f :: rest.map bareField) =
              (bareField f).apply { primary := true } :: rest.map bareField := if_pos rfl
        rw [hone, bareField_apply hprimary hnullable hunique]
      have hstep : withFlags ((f :: rest).map bareField)
          (((f :: rest).filter (·.flags.primary)).map fun g =>
            (g.name, ({ primary := true } : Flags))) =
          withFlags (f :: rest.map bareField) ((rest.filter (·.flags.primary)).map fun g =>
            (g.name, { primary := true })) := by
        have hfilter : (f :: rest).filter (·.flags.primary) =
            f :: rest.filter (·.flags.primary) := List.filter_cons_of_pos hprimary
        rw [hfilter, List.map_cons, List.map_cons]
        unfold TableChange.withFlags
        rw [List.foldl_cons, hfirst]
      rw [hstep, withFlags_cons_of_ne hne, hrest]

/-! ### Keys -/

variable {c : Class} {composite : Bool}

theorem keysOf_of_hasId (h : c.HasId) : Plan.keysOf c composite = [.id] := by
  obtain ⟨rest, hfields, -⟩ := h
  have hfield : c.field? "id" = some ⟨"id", some .int, { primary := true }⟩ := by
    unfold Class.field?
    rw [hfields]
    rfl
  unfold Plan.keysOf
  rw [hfield]
  rfl

theorem keysOf_of_hasKey (h : c.HasKey composite) :
    Plan.keysOf c composite =
      (c.fields.filter (·.flags.primary)).map fun f => ⟨f.name, f.type⟩ := by
  have hfield : c.field? "id" = none := by
    apply List.find?_eq_none.mpr
    exact fun f hf hname => h.no_id f hf (beq_iff_eq.mp hname)
  unfold Plan.keysOf
  rw [hfield]
  dsimp only
  split
  · rename_i hnil
    obtain ⟨f, hf, hprimary⟩ := h.primary
    exact absurd (List.mem_filter.mpr ⟨hf, hprimary⟩) (hnil ▸ List.not_mem_nil)
  · rename_i hone
    rw [hone]
    rfl
  · rename_i hseveral
    split
    · rfl
    · rename_i hcomposite
      obtain ⟨f, hone⟩ := h.single (Bool.eq_false_iff.mpr hcomposite)
      exact absurd hone (hseveral f)

theorem usesId_of_hasId (h : c.HasId) : Plan.usesId (Plan.keysOf c composite) = true := by
  rw [keysOf_of_hasId h]
  rfl

theorem usesId_of_hasKey (h : c.HasKey composite) :
    Plan.usesId (Plan.keysOf c composite) = false := by
  rw [keysOf_of_hasKey h]
  unfold Plan.usesId
  split
  · rename_i key hkey
    obtain ⟨f, hf, hname⟩ : ∃ f ∈ c.fields.filter (·.flags.primary),
        (⟨f.name, f.type⟩ : Plan.Key) = key := by
      apply List.mem_map.mp
      rw [hkey]
      exact List.mem_singleton.mpr rfl
    rw [← hname]
    exact beq_false_of_ne (h.no_id f (List.mem_filter.mp hf).1)
  · rfl

/-- The fields of a class come back from its table. -/
theorem fields_tableOf (t : Schema) (h : c.Portable composite) :
    withFlags (tableFields (Plan.tableOf t composite c))
      (primaryModifiers (Plan.tableOf t composite c)) = c.fields := by
  have hcolumns : (Plan.tableOf t composite c).columns =
      Plan.columnsOf c (Plan.usesId (Plan.keysOf c composite)) := rfl
  unfold tableFields primaryModifiers
  rw [hcolumns]
  rcases h.keys with hid | hkey
  · have huses : Plan.usesId (Plan.keysOf c composite) = true := usesId_of_hasId hid
    have htable : (Plan.tableOf t composite c).usesId = true := huses
    obtain ⟨rest, hfields, hrest⟩ := hid
    have hback : (Plan.columnsOf c true).map columnField = rest := by
      unfold Plan.columnsOf
      rw [hfields, List.filterMap_cons_none rfl]
      refine (map_columnField c.name (fun _ f hf => (hrest f hf).1)
        fun f hf => h.typed f (hfields ▸ List.mem_cons_of_mem _ hf)).trans ?_
      calc
        rest.map bareField = rest.map id :=
          List.map_congr_left fun f hf => bareField_of_not_primary (hrest f hf).2
        _ = rest := List.map_id _
    rw [if_pos htable, if_pos htable, huses, hback, hfields]
    rfl
  · have htable : (Plan.tableOf t composite c).usesId = false := usesId_of_hasKey hkey
    have hkeys : (Plan.tableOf t composite c).keys = Plan.keysOf c composite := rfl
    have hback : (Plan.columnsOf c false).map columnField = c.fields.map bareField :=
      map_columnField c.name (fun h => absurd h Bool.false_ne_true) h.typed
    rw [htable, if_neg Bool.false_ne_true, if_neg Bool.false_ne_true, List.nil_append,
      usesId_of_hasKey hkey, hback, hkeys, keysOf_of_hasKey hkey, List.map_map]
    exact withFlags_bareField h.fields_nodup hkey.bare

/-! ## Relations -/

/-- The relation that the statement of a key adds. -/
def relationOf (k : Plan.ForeignKey) : Relation :=
  (settledKey k).relation (Naming.className k.table)

/-- Whichever end is the more restrictive, a reference of a class to itself reads as it stands. -/
theorem multiplicities_of_reference {r : Relation} (hr : r.IsReference) :
    (if r.isSelf then r.source.multiplicity.min r.target.multiplicity
      else r.target.multiplicity) = r.target.multiplicity ∧
    (if r.isSelf then r.source.multiplicity.max r.target.multiplicity
      else r.source.multiplicity) = r.source.multiplicity := by
  cases r.isSelf with
  | false => exact ⟨rfl, rfl⟩
  | true =>
    rcases hr.source with hs | hs <;> rcases hr.target with ht | ht <;>
      (rw [hs, ht]; exact ⟨rfl, rfl⟩)

/-- A key tells the relation that it realises. -/
theorem relationOf_of_realises {s : Schema} {composite : Bool} {id : RelationId} {r : Relation}
    {owner : String} {k : Plan.ForeignKey} (hr : r.IsReference)
    (hown : r.ownership owner = some .own) (hk : k.Realises s composite id r owner)
    (hname : Naming.className (Naming.tableName owner) = owner) : relationOf k = r := by
  obtain rfl := Relation.owner_unique hr.owner hown
  obtain ⟨mine, theirs, he, hrelated, -, hnullable, hunique⟩ := hk.ends
  rw [Relation.ends_of_source rfl] at he
  cases he
  obtain ⟨hreferenced, howning⟩ := multiplicities_of_reference hr
  rw [hreferenced] at hnullable
  rw [howning] at hunique
  have hhere : (settledKey k).here = r.source.multiplicity := by
    unfold settledKey
    dsimp only
    rcases hr.source with hs | hs
    · have hfalse : k.unique ≠ true := by
        rw [Ne, hunique, hs]
        decide
      rw [if_neg hfalse, hs]
    · have htrue : k.unique = true := by
        rw [hunique, hs]
        decide
      rw [if_pos htrue, hs]
  have hthere : (settledKey k).there = r.target.multiplicity := by
    unfold settledKey
    dsimp only
    rcases hr.target with ht | ht
    · have hfalse : k.nullable ≠ true := by
        rw [Ne, hnullable, ht]
        decide
      rw [if_neg hfalse, ht]
    · rw [if_pos (hnullable.mpr ht), ht]
  have hcls : (settledKey k).related = r.target.cls := hrelated
  unfold relationOf Statement.KeyDeclaration.relation
  rw [hk.table_eq, hname, hhere, hthere, hcls]

theorem not_isJunction_of_reference {r : Relation} (hr : r.IsReference) : r.isJunction = false :=
  Relation.not_isJunction_of_owner hr.owner

theorem isJunction_of_link {r : Relation} (hr : r.IsLink) : r.isJunction = true := by
  unfold Relation.isJunction
  rw [hr.source, hr.target]
  rfl

end Output

/-- The relation as a junction tells it: the class comes first whose name does in small letters. -/
def Relation.alphabetical (r : Relation) : Relation :=
  if r.isJunction && !decide (Naming.snake r.source.cls ≤ Naming.snake r.target.cls) then
    ⟨r.target, r.source⟩
  else r

namespace Naming

theorem junctionClasses_append {a b : String} (ha : '_' ∉ a.toList) (hb : '_' ∉ b.toList)
    (hane : a ≠ "") (hbne : b ≠ "") :
    junctionClasses (a ++ "_" ++ b) = some (className a, className b) := by
  have hchars : (a ++ "_" ++ b).toList = a.toList ++ '_' :: b.toList := by
    rw [String.toList_append, String.toList_append, List.append_assoc]
    rfl
  have hempty : ∀ s : String, s ≠ "" → s.toList.isEmpty = false := by
    intro s hs
    rw [List.isEmpty_eq_false_iff]
    exact fun h => hs (String.toList_eq_nil_iff.mp h)
  unfold junctionClasses
  rw [hchars, Text.splitAt_append ha hb]
  dsimp only
  rw [hempty a hane, hempty b hbne, String.ofList_toList, String.ofList_toList]
  rfl

theorem inTwoParts_of_junctionClasses {table a b : String}
    (h : junctionClasses table = some (a, b)) : InTwoParts table := by
  have hjoin := Text.intercalate_splitAt '_' table.toList
  have hparts : ∀ part ∈ Text.splitAt '_' table.toList, '_' ∉ part :=
    fun part hpart => Text.not_mem_of_mem_splitAt hpart
  unfold junctionClasses at h
  split at h
  · rename_i x y hxy
    rw [hxy] at hjoin hparts
    split at h
    · cases h
    · rename_i hne
      rw [Bool.or_eq_true, List.isEmpty_iff, List.isEmpty_iff, not_or] at hne
      refine ⟨x, y, ?_, hne.1, hne.2, hparts x List.mem_cons_self,
        hparts y (List.mem_cons_of_mem _ List.mem_cons_self)⟩
      rw [← hjoin, List.intercalate_cons_cons, List.intercalate_singleton, List.append_assoc]
      rfl
  · cases h

/-- A class whose name survives in small letters has a name. -/
theorem snake_ne_empty {cls : String} (hne : cls ≠ "") (h : className (snake cls) = cls) :
    snake cls ≠ "" := by
  intro hempty
  have hclass : className "" = "" := by decide
  rw [hempty, hclass] at h
  exact hne h.symm

/-- The table of a link tells its two classes. -/
theorem junctionClasses_of_link {r : Relation} (hr : r.IsLink) (hsource : r.source.cls ≠ "")
    (htarget : r.target.cls ≠ "") :
    ∃ a b, junctionClasses (junctionTable r.source.cls r.target.cls) = some (a, b) ∧
      (⟨⟨a, .any⟩, ⟨b, .any⟩⟩ : Relation) = r.alphabetical := by
  obtain ⟨hs, hsname⟩ := hr.names _ List.mem_cons_self
  obtain ⟨ht, htname⟩ := hr.names _ (List.mem_cons_of_mem _ List.mem_cons_self)
  have hsne := snake_ne_empty hsource hsname
  have htne := snake_ne_empty htarget htname
  have hone : (⟨r.source.cls, .any⟩ : End) = r.source := by
    rw [← hr.source]
  have hother : (⟨r.target.cls, .any⟩ : End) = r.target := by
    rw [← hr.target]
  unfold junctionTable Relation.alphabetical
  rw [Output.isJunction_of_link hr, Bool.true_and]
  by_cases hle : snake r.source.cls ≤ snake r.target.cls
  · rw [if_pos hle, decide_eq_true hle, if_neg (by decide), junctionClasses_append hs ht hsne htne,
      hsname, htname]
    refine ⟨_, _, rfl, ?_⟩
    rw [hone, hother]
  · rw [if_neg hle, decide_eq_false hle, if_pos (by decide), junctionClasses_append ht hs htne hsne,
      hsname, htname]
    refine ⟨_, _, rfl, ?_⟩
    rw [hone, hother]

end Naming

end SchemaBridge
