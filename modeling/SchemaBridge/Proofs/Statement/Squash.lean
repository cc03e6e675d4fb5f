/-
  A table that is made by one statement and changed by another is the table that one statement makes
  with the lines of both. Where the definition is cut plays no part: a column can be declared before
  the cut and become a key behind it, and the modifiers for it can stand on either side, since all
  of them reach the field or the key that the column ends in.
  Main result: `Schema.squash_migrations`.
-/
import SchemaBridge.Proofs.Statement.Effect
import Mathlib.Data.List.Find

namespace SchemaBridge

/-! ## Fields with names of their own -/

namespace Class

variable {fields : List Field}

theorem ne_of_nodup {x : Field} (h : ((x :: fields).map (·.name)).Nodup) :
    ∀ y ∈ fields, y.name ≠ x.name := fun y hy hname =>
  (List.nodup_cons.mp h).1 (List.mem_map.mpr ⟨y, hy, hname⟩)

theorem updateFirst_eq_map (h : (fields.map (·.name)).Nodup) (name : String) (f : Field → Field) :
    updateFirst name f fields = fields.map fun x => if x.name = name then f x else x := by
  induction fields with
  | nil => rfl
  | cons x rest ih =>
    unfold updateFirst
    rw [List.map_cons]
    split
    · rename_i hname
      have hothers : ∀ y ∈ rest, (if y.name = name then f y else y) = id y := fun y hy =>
        if_neg (hname ▸ ne_of_nodup h y hy)
      rw [List.map_congr_left hothers, List.map_id]
    · rw [ih h.of_cons]

theorem eraseP_eq_filter (h : (fields.map (·.name)).Nodup) (name : String) :
    fields.eraseP (·.name == name) = fields.filter fun f => f.name != name := by
  induction fields with
  | nil => rfl
  | cons x rest ih =>
    by_cases hname : x.name = name
    · have hothers : ∀ y ∈ rest, (y.name != name) = true := fun y hy =>
        bne_iff_ne.mpr (hname ▸ ne_of_nodup h y hy)
      rw [List.eraseP_cons_of_pos (by simpa using hname),
        List.filter_cons_of_neg (by simpa using hname), List.filter_eq_self.mpr hothers]
    · rw [List.eraseP_cons_of_neg (by simpa using hname),
        List.filter_cons_of_pos (by simpa using hname), ih h.of_cons]

theorem filter_eq_find? (h : (fields.map (·.name)).Nodup) (name : String) :
    fields.filter (·.name == name) = (fields.find? (·.name == name)).toList := by
  induction fields with
  | nil => rfl
  | cons x rest ih =>
    by_cases hname : x.name = name
    · have hothers : ∀ y ∈ rest, ¬(y.name == name) = true := fun y hy hyname =>
        ne_of_nodup h y hy ((beq_iff_eq.mp hyname).trans hname.symm)
      rw [List.filter_cons_of_pos (by simpa using hname), List.filter_eq_nil_iff.mpr hothers,
        List.find?_cons_of_pos (by simpa using hname)]
      rfl
    · rw [List.filter_cons_of_neg (by simpa using hname),
        List.find?_cons_of_neg (by simpa using hname), ih h.of_cons]

theorem without_eq_filter (h : (fields.map (·.name)).Nodup) (names : List String) :
    without names fields = fields.filter fun f => !names.contains f.name := by
  unfold without
  induction names generalizing fields with
  | nil => simp
  | cons name rest ih =>
    have hfewer : ((fields.filter fun f => f.name != name).map (·.name)).Nodup :=
      h.sublist (List.filter_sublist.map _)
    rw [List.foldl_cons, eraseP_eq_filter h, ih hfewer, List.filter_filter]
    apply List.filter_congr
    intro f _
    rw [List.contains_cons, Bool.not_or, Bool.and_comm]
    rfl

end Class

namespace Statement

open SchemaBridge.Class (without)
open TableChange (withFlags)

/-- The flags that modifiers have for a column. -/
def flagsOn (flags : List (String × Flags)) (column : String) : List Flags :=
  (flags.filter (·.1 == column)).map Prod.snd

/-- The field with the modifiers for it. -/
def raised (flags : List (String × Flags)) (f : Field) : Field :=
  { f with flags := (flagsOn flags f.name).foldl (· ∪ ·) f.flags }

section Raised

variable {flags more : List (String × Flags)} {f : Field}

theorem flagsOn_append (flags more : List (String × Flags)) (column : String) :
    flagsOn (flags ++ more) column = flagsOn flags column ++ flagsOn more column := by
  unfold flagsOn
  rw [List.filter_append, List.map_append]

theorem flagsOn_eq_nil {column : String} (h : ∀ p ∈ flags, p.1 ≠ column) :
    flagsOn flags column = [] := by
  unfold flagsOn
  rw [List.filter_eq_nil_iff.mpr fun p hp => by simpa using h p hp]
  rfl

theorem raised_congr (h : flagsOn flags f.name = flagsOn more f.name) :
    raised flags f = raised more f := by
  unfold raised
  rw [h]

theorem raised_raised (flags more : List (String × Flags)) (f : Field) :
    raised more (raised flags f) = raised (flags ++ more) f := by
  unfold raised
  dsimp only
  rw [flagsOn_append, List.foldl_append]

/-- A field has a flag by itself or by a modifier for it. -/
theorem flag_raised {p : Flags → Bool} (hp : ∀ a b, p (a ∪ b) = (p a || p b))
    (flags : List (String × Flags)) (f : Field) :
    p (raised flags f).flags = (p f.flags || (flagsOn flags f.name).any p) := by
  unfold raised
  dsimp only
  generalize f.flags = own
  induction flagsOn flags f.name generalizing own with
  | nil => exact (Bool.or_false _).symm
  | cons a rest ih => rw [List.foldl_cons, ih, hp, List.any_cons, Bool.or_assoc]

end Raised

theorem map_name_raised (flags : List (String × Flags)) (fields : List Field) :
    (fields.map (raised flags)).map (·.name) = fields.map (·.name) := by
  rw [List.map_map]
  rfl

theorem withFlags_eq_map {fields : List Field} (h : (fields.map (·.name)).Nodup)
    (flags : List (String × Flags)) : withFlags fields flags = fields.map (raised flags) := by
  unfold withFlags
  induction flags generalizing fields with
  | nil => exact (List.map_id _).symm
  | cons p rest ih =>
    have hstep : Class.updateFirst p.1 (·.apply p.2) fields = fields.map (raised [p]) := by
      rw [Class.updateFirst_eq_map h]
      apply List.map_congr_left
      intro f _
      unfold raised flagsOn
      by_cases hname : f.name = p.1
      · rw [if_pos hname, List.filter_cons_of_pos (by simpa using hname.symm)]
        rfl
      · rw [if_neg hname, List.filter_cons_of_neg (by simpa using Ne.symm hname)]
        rfl
    rw [List.foldl_cons, hstep, ih (by rw [map_name_raised]; exact h), List.map_map]
    apply List.map_congr_left
    intro f _
    exact raised_raised [p] rest f

/-! ## Cutting a definition in two -/

namespace Summary

/-- The names of the declared columns. -/
def declaredNames (m : Summary) : List String :=
  m.columns.map (·.name)

/-- The columns of the foreign keys. -/
def listedNames (m : Summary) : List String :=
  m.references.flatMap Reference.columns

/-- The columns that modifiers are for. -/
def modifiedNames (m : Summary) : List String :=
  m.modifiers.map Prod.fst

/-- The clauses of both. -/
def joined (m n : Summary) : Summary :=
  { m with clauses := m.clauses ++ n.clauses }

/-- The clauses of both can be one definition of a table: no column is declared or listed twice, the
second drops nothing and leaves the foreign keys of the first alone, and a modifier of the first
that is for a column of the second is for one that the first has too. -/
structure Severable (m n : Summary) : Prop where
  declared_once : (m.declaredNames ++ n.declaredNames).Nodup
  listed_once : (m.listedNames ++ n.listedNames).Nodup
  listed_kept : ∀ name ∈ n.declaredNames, name ∉ m.listedNames
  modified_first : ∀ name ∈ m.modifiedNames, name ∈ n.declaredNames ∨ name ∈ n.listedNames →
    name ∈ m.declaredNames ∨ name ∈ m.listedNames
  modified_second : ∀ name ∈ n.modifiedNames, name ∉ m.listedNames
  drops_none : n.droppedColumns = [] ∧ n.droppedReferences = []

instance (m n : Summary) : Decidable (m.Severable n) :=
  decidable_of_iff
    ((m.declaredNames ++ n.declaredNames).Nodup ∧ (m.listedNames ++ n.listedNames).Nodup ∧
      (∀ name ∈ n.declaredNames, name ∉ m.listedNames) ∧
      (∀ name ∈ m.modifiedNames, name ∈ n.declaredNames ∨ name ∈ n.listedNames →
        name ∈ m.declaredNames ∨ name ∈ m.listedNames) ∧
      (∀ name ∈ n.modifiedNames, name ∉ m.listedNames) ∧
      n.droppedColumns = [] ∧ n.droppedReferences = [])
    ⟨fun ⟨h₁, h₂, h₃, h₄, h₅, h₆⟩ => ⟨h₁, h₂, h₃, h₄, h₅, h₆⟩,
      fun h => ⟨h.declared_once, h.listed_once, h.listed_kept, h.modified_first,
        h.modified_second, h.drops_none⟩⟩

variable {m n : Summary}

theorem columns_joined (m n : Summary) : (m.joined n).columns = m.columns ++ n.columns :=
  List.filterMap_append

theorem references_joined (m n : Summary) :
    (m.joined n).references = m.references ++ n.references :=
  List.filterMap_append

theorem modifiers_joined (m n : Summary) : (m.joined n).modifiers = m.modifiers ++ n.modifiers :=
  List.flatMap_append

theorem listedNames_joined (m n : Summary) :
    (m.joined n).listedNames = m.listedNames ++ n.listedNames := by
  unfold listedNames
  rw [references_joined, List.flatMap_append]

/-! ### Places -/

theorem placeOf_eq_none_iff {column : String} :
    m.placeOf column = none ↔ column ∉ m.listedNames := by
  unfold placeOf listedNames
  rw [Option.map_eq_none_iff, List.getLast?_eq_none_iff, List.filter_eq_nil_iff]
  constructor
  · intro h hmem
    obtain ⟨key, hkey, hcolumn⟩ := List.mem_flatMap.mp hmem
    obtain ⟨i, hi⟩ := List.mem_iff_getElem?.mp hkey
    exact h (key, i) (List.mem_zipIdx_iff_getElem?.mpr hi) (List.contains_iff_mem.mpr hcolumn)
  · intro h p hp hcolumn
    exact h (List.mem_flatMap.mpr ⟨p.1, List.mem_of_getElem? (List.mem_zipIdx_iff_getElem?.mp hp),
      List.contains_iff_mem.mp hcolumn⟩)

/-- Where no column is listed twice, the key of a column is the one that lists it. -/
theorem placeOf_eq_some_iff (h : m.listedNames.Nodup) {i : Nat} {key : Reference}
    (hkey : m.references[i]? = some key) {column : String} :
    m.placeOf column = some i ↔ column ∈ key.columns := by
  refine ⟨TableChange.mem_columns_of_placeOf hkey, fun hcolumn => ?_⟩
  have hlisted : column ∈ m.listedNames :=
    List.mem_flatMap.mpr ⟨key, List.mem_of_getElem? hkey, hcolumn⟩
  obtain ⟨j, hj⟩ := Option.ne_none_iff_exists'.mp fun hnone =>
    placeOf_eq_none_iff.mp hnone hlisted
  obtain ⟨p, hlast, rfl⟩ := Option.map_eq_some_iff.mp hj
  have hp := List.mem_zipIdx_iff_getElem?.mp (List.mem_filter.mp (List.mem_of_getLast? hlast)).1
  have hother := TableChange.mem_columns_of_placeOf hp hj
  have hapart := (List.nodup_flatMap.mp h).2
  have hne : ∀ {a b : Nat} {k l : Reference}, m.references[a]? = some k →
      m.references[b]? = some l → column ∈ k.columns → column ∈ l.columns → ¬a < b := by
    intro a b k l ha hb hk hl hlt
    obtain ⟨hla, rfl⟩ := List.getElem?_eq_some_iff.mp ha
    obtain ⟨hlb, rfl⟩ := List.getElem?_eq_some_iff.mp hb
    exact List.pairwise_iff_getElem.mp hapart a b hla hlb hlt hk hl
  have heq : p.2 = i := by
    have hle := hne hkey hp hcolumn hother
    have hge := hne hp hkey hother hcolumn
    omega
  rw [hj, heq]

/-! ### Fields -/

theorem lasting_eq (m : Summary) :
    m.lasting = m.columns.filter fun f => !m.listedNames.contains f.name := by
  unfold lasting
  apply List.filter_congr
  intro f _
  rw [Bool.eq_iff_iff, Option.isNone_iff_eq_none, placeOf_eq_none_iff, Bool.not_eq_true',
    ← Bool.not_eq_true, List.contains_iff_mem]

theorem nodup_lasting (h : m.declaredNames.Nodup) : (m.lasting.map (·.name)).Nodup :=
  h.sublist (List.filter_sublist.map _)

theorem declared_eq (h : m.declaredNames.Nodup) :
    m.declared = m.lasting.map (raised m.modifiers) :=
  withFlags_eq_map (nodup_lasting h) m.modifiers

theorem without_keyColumns {fields : List Field} (h : (fields.map (·.name)).Nodup) (m : Summary) :
    without m.keyColumns fields = fields.filter fun f => !m.listedNames.contains f.name := by
  rw [Class.without_eq_filter h]
  apply List.filter_congr
  intro f _
  congr 1
  rw [Bool.eq_iff_iff, List.contains_iff_mem, List.contains_iff_mem]
  exact List.mem_dedup

theorem mem_declaredNames {f : Field} (h : f ∈ m.columns) : f.name ∈ m.declaredNames :=
  List.mem_map_of_mem h

namespace Severable

variable (h : m.Severable n)

include h

theorem lasting_joined : (m.joined n).lasting =
    (m.lasting.filter fun f => !n.listedNames.contains f.name) ++ n.lasting := by
  rw [lasting_eq, lasting_eq, lasting_eq, columns_joined, listedNames_joined, List.filter_append,
    List.filter_filter]
  congr 1
  · apply List.filter_congr
    intro f _
    rw [List.contains_append, Bool.not_or, Bool.and_comm]
  · apply List.filter_congr
    intro f hf
    have hkept : m.listedNames.contains f.name = false := by
      rw [← Bool.not_eq_true, List.contains_iff_mem]
      exact h.listed_kept _ (mem_declaredNames hf)
    rw [List.contains_append, hkept, Bool.false_or]

/-- A modifier of the second for a field that the first declares reaches it there. -/
theorem flagsOn_outer {f : Field} (hf : f ∈ m.columns) (hlisted : f.name ∉ n.listedNames) :
    flagsOn n.outer f.name = flagsOn n.modifiers f.name := by
  unfold flagsOn outer
  rw [List.filter_filter]
  congr 1
  apply List.filter_congr
  intro p _
  by_cases hp : p.1 = f.name
  · have hnone : n.placeOf p.1 = none := placeOf_eq_none_iff.mpr (hp ▸ hlisted)
    have hfree : n.lasting.any (·.name == p.1) = false := by
      rw [List.any_eq_false]
      intro g hg hname
      have hmem := mem_declaredNames (List.mem_of_mem_filter hg)
      rw [beq_iff_eq.mp hname, hp] at hmem
      exact (List.nodup_append.mp h.declared_once).2.2 _ (mem_declaredNames hf) _ hmem rfl
    rw [hnone, hfree]
    exact Bool.and_true _
  · rw [beq_false_of_ne hp]
    rfl

/-- No modifier of the first is for a field that only the second declares. -/
theorem flagsOn_first {f : Field} (hf : f ∈ n.columns) : flagsOn m.modifiers f.name = [] := by
  apply flagsOn_eq_nil
  rintro p hp hname
  have hmem := mem_declaredNames hf
  have hmodified : f.name ∈ m.modifiedNames := hname ▸ List.mem_map_of_mem hp
  rcases h.modified_first _ hmodified (.inl hmem) with hdeclared | hlisted
  · exact (List.nodup_append.mp h.declared_once).2.2 _ hdeclared _ hmem rfl
  · exact h.listed_kept _ hmem hlisted

/-- The second makes the fields of the first into those of both. -/
theorem fieldsAfter_declared : n.fieldsAfter m.declared = (m.joined n).declared := by
  have honce := List.nodup_append.mp h.declared_once
  have hboth : (m.joined n).declaredNames.Nodup := by
    unfold declaredNames
    rw [columns_joined, List.map_append]
    exact h.declared_once
  have hnames : ((m.lasting.map (raised m.modifiers)).map (·.name)).Nodup := by
    rw [map_name_raised]
    exact nodup_lasting honce.1
  have hwith : withFlags m.declared n.outer =
      m.lasting.map (raised (m.modifiers ++ n.outer)) := by
    rw [declared_eq honce.1, withFlags_eq_map hnames, List.map_map]
    exact List.map_congr_left fun f _ => raised_raised _ _ f
  have hnames' : ((m.lasting.map (raised (m.modifiers ++ n.outer))).map (·.name)).Nodup := by
    rw [map_name_raised]
    exact nodup_lasting honce.1
  unfold fieldsAfter
  rw [h.drops_none.1, hwith, without_keyColumns hnames', declared_eq honce.2.1, declared_eq hboth,
    h.lasting_joined, modifiers_joined, List.map_append, List.filter_map]
  show List.map _ _ ++ _ = _
  congr 1
  · apply List.map_congr_left
    intro f hf
    obtain ⟨hlasting, hlisted⟩ := List.mem_filter.mp hf
    have hfree : (!n.listedNames.contains f.name) = true := hlisted
    have hnot : f.name ∉ n.listedNames := by simpa using hfree
    apply raised_congr
    rw [flagsOn_append, flagsOn_append, h.flagsOn_outer (List.mem_of_mem_filter hlasting) hnot]
  · apply List.map_congr_left
    intro f hf
    apply raised_congr
    rw [flagsOn_append, h.flagsOn_first (List.mem_of_mem_filter hf), List.nil_append]

end Severable

/-! ### Foreign keys -/

/-- The flags that a column has by its declarations, by modifiers and by a field that the table
already has. -/
def flagsOf (m : Summary) (existing : List Field) (column : String) : List Flags :=
  (m.columns.filter (·.name == column)).map (·.flags) ++ flagsOn m.modifiers column ++
    ((existing.find? (·.name == column)).map (·.flags)).toList

/-- Where no column is listed twice, the flags of its columns reach a foreign key. -/
theorem any_reaching (h : m.listedNames.Nodup) {i : Nat} {key : Reference}
    (hkey : m.references[i]? = some key) (existing : List Field) (p : Flags → Bool) :
    (m.reaching existing i key).any p =
      (key.flags :: key.columns.flatMap (m.flagsOf existing)).any p := by
  have hplace : ∀ column, (m.placeOf column == some i) = decide (column ∈ key.columns) := by
    intro column
    rw [Bool.eq_iff_iff, beq_iff_eq, decide_eq_true_eq, placeOf_eq_some_iff h hkey]
  have hall : (key.columns.filter fun column => m.placeOf column == some i) = key.columns := by
    apply List.filter_eq_self.mpr
    intro column hcolumn
    rw [hplace, decide_eq_true_eq]
    exact hcolumn
  unfold reaching flagsOf flagsOn
  rw [hall, Bool.eq_iff_iff]
  simp only [hplace, List.any_cons, List.any_append, List.any_flatMap, Bool.or_eq_true,
    List.any_eq_true, List.mem_map, List.mem_filter, List.mem_filterMap, decide_eq_true_eq,
    beq_iff_eq, Option.mem_toList]
  constructor
  · rintro (hown | ((⟨_, ⟨f, ⟨hf, hname⟩, rfl⟩, hp⟩ | ⟨_, ⟨q, ⟨hq, hname⟩, rfl⟩, hp⟩) |
      ⟨flags, ⟨column, hcolumn, hfound⟩, hp⟩))
    · exact .inl hown
    · exact .inr ⟨f.name, hname, .inl (.inl ⟨_, ⟨f, ⟨hf, rfl⟩, rfl⟩, hp⟩)⟩
    · exact .inr ⟨q.1, hname, .inl (.inr ⟨_, ⟨q, ⟨hq, rfl⟩, rfl⟩, hp⟩)⟩
    · exact .inr ⟨column, hcolumn, .inr ⟨flags, hfound, hp⟩⟩
  · rintro (hown | ⟨column, hcolumn, (⟨_, ⟨f, ⟨hf, rfl⟩, rfl⟩, hp⟩ | ⟨_, ⟨q, ⟨hq, rfl⟩, rfl⟩, hp⟩) |
      ⟨flags, hfound, hp⟩⟩)
    · exact .inl hown
    · exact .inr (.inl (.inl ⟨_, ⟨f, ⟨hf, hcolumn⟩, rfl⟩, hp⟩))
    · exact .inr (.inl (.inr ⟨_, ⟨q, ⟨hq, hcolumn⟩, rfl⟩, hp⟩))
    · exact .inr (.inr ⟨flags, ⟨column, hcolumn, hfound⟩, hp⟩)

/-- The relation of a foreign key depends on the table and on whether a flag that reaches the key
makes it unique and whether one makes it nullable. -/
theorem relationOf_congr (htable : m.table = n.table) {existing more : List Field} {i j : Nat}
    {key : Reference} (h : ∀ p : Flags → Bool, (∀ a b, p (a ∪ b) = (p a || p b)) →
      (m.reaching existing i key).any p = (n.reaching more j key).any p) :
    m.relationOf existing i key = n.relationOf more j key := by
  unfold relationOf cls
  dsimp only
  rw [htable, h (·.unique) fun _ _ => rfl, h (·.nullable) fun _ _ => rfl]

theorem mem_listedNames {key : Reference} (hkey : key ∈ m.references) {column : String}
    (hcolumn : column ∈ key.columns) : column ∈ m.listedNames :=
  List.mem_flatMap.mpr ⟨key, hkey, hcolumn⟩

namespace Severable

variable (h : m.Severable n)

include h

theorem nodup_listedNames_joined : (m.joined n).listedNames.Nodup := by
  rw [listedNames_joined]
  exact h.listed_once

/-- A column that the first lists has its flags from the first. -/
theorem flagsOf_first {column : String} (hlisted : column ∈ m.listedNames) :
    (m.joined n).flagsOf [] column = m.flagsOf [] column := by
  have hcolumns : n.columns.filter (·.name == column) = [] := by
    rw [List.filter_eq_nil_iff]
    intro f hf hname
    exact h.listed_kept _ (mem_declaredNames hf) (beq_iff_eq.mp hname ▸ hlisted)
  have hmodifiers : flagsOn n.modifiers column = [] := by
    apply flagsOn_eq_nil
    rintro p hp rfl
    exact h.modified_second _ (List.mem_map_of_mem hp) hlisted
  unfold flagsOf
  rw [columns_joined, modifiers_joined, List.filter_append, hcolumns, List.append_nil,
    flagsOn_append, hmodifiers, List.append_nil]

/-- A field of the first has the flags of its declaration and of the modifiers for it. -/
theorem flags_declared {column : String} (hlisted : column ∈ n.listedNames) {p : Flags → Bool}
    (hp : ∀ a b, p (a ∪ b) = (p a || p b)) :
    ((m.declared.find? (·.name == column)).map (·.flags)).toList.any p =
      ((m.columns.filter (·.name == column)).map (·.flags) ++ flagsOn m.modifiers column).any p := by
  have hfree : column ∉ m.listedNames := fun hmem =>
    (List.nodup_append.mp h.listed_once).2.2 _ hmem _ hlisted rfl
  have honce := (List.nodup_append.mp h.declared_once).1
  have hfind : m.declared.find? (·.name == column) =
      (m.columns.find? (·.name == column)).map (raised m.modifiers) := by
    rw [declared_eq honce, lasting_eq, List.find?_map, List.find?_filter]
    congr 1
    apply List.find?_congr
    intro f _
    by_cases hname : f.name = column
    · simp [raised, hname, hfree]
    · simp [raised, hname]
  rw [hfind, Class.filter_eq_find? honce]
  cases hfound : m.columns.find? (·.name == column) with
  | none =>
    have hnone : flagsOn m.modifiers column = [] := by
      apply flagsOn_eq_nil
      rintro q hq rfl
      rcases h.modified_first _ (List.mem_map_of_mem hq) (.inr hlisted) with hdeclared | hmem
      · obtain ⟨f, hf, hname⟩ := List.mem_map.mp hdeclared
        exact List.find?_eq_none.mp hfound f hf (beq_iff_eq.mpr hname)
      · exact hfree hmem
    rw [hnone]
    rfl
  | some f =>
    obtain rfl : f.name = column := by simpa using List.find?_some hfound
    simp [flag_raised hp]

/-- A column that the second lists has its flags from both, by way of a field if the first declares
it. -/
theorem any_flagsOf_second {column : String} (hlisted : column ∈ n.listedNames)
    {p : Flags → Bool} (hp : ∀ a b, p (a ∪ b) = (p a || p b)) :
    ((m.joined n).flagsOf [] column).any p = (n.flagsOf m.declared column).any p := by
  have hdeclared := h.flags_declared hlisted hp
  unfold flagsOf
  rw [columns_joined, modifiers_joined, flagsOn_append]
  simp only [List.filter_append, List.map_append, List.any_append, List.find?_nil, Option.map_none,
    Option.toList_none, List.any_nil, Bool.or_false, hdeclared]
  ac_rfl

theorem relationOf_first {i : Nat} {key : Reference} (hkey : m.references[i]? = some key) :
    (m.joined n).relationOf [] i key = m.relationOf [] i key := by
  have hjoined : (m.joined n).references[i]? = some key := by
    rw [references_joined, List.getElem?_append_left (List.getElem?_eq_some_iff.mp hkey).1, hkey]
  have hflags : key.columns.flatMap ((m.joined n).flagsOf []) =
      key.columns.flatMap (m.flagsOf []) :=
    List.flatMap_congr fun column hcolumn =>
      h.flagsOf_first (mem_listedNames (List.mem_of_getElem? hkey) hcolumn)
  refine relationOf_congr (m := m.joined n) (n := m) rfl fun p _ => ?_
  rw [any_reaching h.nodup_listedNames_joined hjoined,
    any_reaching (List.nodup_append.mp h.listed_once).1 hkey, hflags]

theorem relationOf_second (htable : n.table = m.table) {i : Nat} {key : Reference}
    (hkey : n.references[i]? = some key) :
    (m.joined n).relationOf [] (i + m.references.length) key = n.relationOf m.declared i key := by
  have hjoined : (m.joined n).references[i + m.references.length]? = some key := by
    rw [references_joined, List.getElem?_append_right (Nat.le_add_left _ _),
      Nat.add_sub_cancel, hkey]
  refine relationOf_congr (m := m.joined n) (n := n) htable.symm fun p hp => ?_
  rw [any_reaching h.nodup_listedNames_joined hjoined,
    any_reaching (List.nodup_append.mp h.listed_once).2.1 hkey, List.any_cons, List.any_cons,
    List.any_flatMap, List.any_flatMap]
  congr 1
  rw [Bool.eq_iff_iff, List.any_eq_true, List.any_eq_true]
  apply exists_congr
  intro column
  apply and_congr_right
  intro hcolumn
  rw [h.any_flagsOf_second (mem_listedNames (List.mem_of_getElem? hkey) hcolumn) hp]

/-- The relations of both, in order. -/
theorem relations_joined (htable : n.table = m.table) :
    (m.joined n).relations [] = m.relations [] ++ n.relations m.declared := by
  have hfirst : m.references.mapIdx ((m.joined n).relationOf []) = m.relations [] :=
    List.mapIdx_eq_mapIdx_iff.mpr fun _ hi => h.relationOf_first (List.getElem?_eq_getElem hi)
  have hsecond : (n.references.mapIdx fun i => (m.joined n).relationOf [] (i + m.references.length)) =
      n.relations m.declared :=
    List.mapIdx_eq_mapIdx_iff.mpr fun _ hi =>
      h.relationOf_second htable (List.getElem?_eq_getElem hi)
  show (m.joined n).references.mapIdx ((m.joined n).relationOf []) = _
  rw [references_joined, List.mapIdx_append, hfirst, hsecond]

end Severable

end Summary

end Statement

/-! ## Two changes of a schema -/

namespace Schema

variable {s t u : Schema}

/-- Other fields for the class that came last. -/
theorem outlineWith_of_concat {name : String} {fields : List Field} (hfresh : name ∉ s.names)
    (h : t.outline = s.outline ++ [(name, fields)]) (more : List Field) :
    t.outlineWith name more = s.outline ++ [(name, more)] := by
  have hmem : name ∈ t.names := by
    rw [names_eq_outline, h, List.map_append]
    exact List.mem_append_right _ List.mem_cons_self
  unfold outlineWith
  rw [if_pos hmem, h, List.map_append, map_outline_of_not_mem hfresh, List.map_singleton, if_pos rfl]

/-- One change after the other brings the relations of both. -/
theorem Becomes.trans {outline outline' : List (String × List Field)} {new more : List Relation}
    (ht : Becomes s t outline s.relations new) (hu : Becomes t u outline' t.relations more) :
    Becomes s u outline' s.relations (new ++ more) where
  consistent := hu.consistent
  outline_eq := hu.outline_eq
  relations_eq := by
    rw [hu.relations_eq, ht.relations_eq, ht.next_eq, List.mapIdx_append, List.append_assoc]
    congr 3
    funext i r
    rw [Nat.add_assoc, Nat.add_comm i]
  next_eq := by
    rw [hu.next_eq, ht.next_eq, List.length_append, Nat.add_assoc]

end Schema

namespace Statement

open Schema (Becomes)

variable {m n : Summary} {s t u : Schema}

/-- Made and then changed, a table is as if made at once. -/
theorem Effect.joined (hm : m.action = .create) (hn : n.action = .modify)
    (htable : n.table = m.table) (h : m.Severable n)
    (hjunction : Naming.junctionClasses m.table = none) (hfresh : m.cls ∉ s.names)
    (ht : Effect m s t) (hu : Effect n t u) : Effect (m.joined n) s u := by
  have hlink : ∀ d : Summary, d.table = m.table → d.junction = none := by
    intro d hd
    unfold Summary.junction
    rw [hd, hjunction]
    split
    · split <;> rfl
    · rfl
  have hcls : n.cls = m.cls := congrArg Naming.className htable
  have hmade := ht.becomes_of_create hm (hlink m rfl) hfresh
  have hfields : t.fieldsOf m.cls = m.declared := by
    apply Schema.fieldsOf_of_mem hmade.consistent
    rw [hmade.outline_eq]
    exact List.mem_append_right _ List.mem_cons_self
  have hchanged := hu.becomes_of_modify hn h.drops_none.2
  rw [hcls, hfields, h.fieldsAfter_declared,
    Schema.outlineWith_of_concat hfresh hmade.outline_eq] at hchanged
  have hboth := hmade.trans hchanged
  rw [← h.relations_joined htable] at hboth
  refine .create hm (hlink (m.joined n) rfl) ?_
  rw [show (m.joined n).cls = m.cls from rfl, Schema.fieldsOf_of_not_mem hfresh,
    Schema.outlineWith_of_not_mem hfresh]
  exact hboth

end Statement

open Statement

/-- A table that is made with some lines and then changed with others is the table that is made with
all of them, down to the numbers of relations and the links. -/
theorem Schema.squash_migrations {s : Schema} (hs : s.Reachable) {table : String}
    {front back : List Clause} {first second whole : String}
    (hfirst : Says first ⟨.create, table, front⟩) (hsecond : Says second ⟨.modify, table, back⟩)
    (hwhole : Says whole ⟨.create, table, front ++ back⟩)
    (hcut : Summary.Severable ⟨.create, table, front⟩ ⟨.modify, table, back⟩)
    (hjunction : Naming.junctionClasses table = none) (hfresh : Naming.className table ∉ s.names) :
    ∃ t u, s.migrate first = .ok t ∧ t.migrate second = .ok u ∧ s.migrate whole = .ok u := by
  obtain ⟨t, hmade, ht⟩ := hfirst.migrate hs.consistent TableAction.noConfusion
  obtain ⟨u, hchanged, hu⟩ := hsecond.migrate ht.consistent TableAction.noConfusion
  obtain ⟨v, hall, hv⟩ := hwhole.migrate hs.consistent TableAction.noConfusion
  have hboth : Effect ⟨.create, table, front ++ back⟩ s u :=
    Effect.joined (m := ⟨.create, table, front⟩) (n := ⟨.modify, table, back⟩) rfl rfl rfl hcut
      hjunction hfresh ht hu
  obtain rfl := hboth.unique hv
  exact ⟨t, u, hmade, hchanged, hall⟩

namespace Statement

/-- The author is a plain column so far, with a modifier for it. -/
def draftText : String :=
  "Schema::create('posts', function ($table) \x7b
    $table->unique('author_id');
    $table->bigInteger('author_id')->nullable();
\x7d);"

/-- The author becomes a key. -/
def revisionText : String :=
  "Schema::table('posts', function ($table) \x7b
    $table->foreignId('author_id')->constrained();
\x7d);"

/-- The lines of `draftText` and then that of `revisionText`. -/
def finalText : String :=
  "Schema::create('posts', function ($table) \x7b
    $table->unique('author_id');
    $table->bigInteger('author_id')->nullable();
    $table->foreignId('author_id')->constrained();
\x7d);"

def draftClauses : List Clause :=
  [.flags ["author_id"] { unique := true },
    .column ⟨"author_id", some .bigint, { nullable := true }⟩]

def revisionClauses : List Clause :=
  [.reference ⟨"Author", ["author_id"], {}⟩]

theorem squash_migrations_posts : ∃ t u, Schema.empty.migrate draftText = .ok t ∧
    t.migrate revisionText = .ok u ∧ Schema.empty.migrate finalText = .ok u := by
  have hdraft : Says draftText ⟨.create, "posts", draftClauses⟩ := by decide +kernel
  have hrevision : Says revisionText ⟨.modify, "posts", revisionClauses⟩ := by decide +kernel
  have hfinal : Says finalText ⟨.create, "posts", draftClauses ++ revisionClauses⟩ := by
    decide +kernel
  exact Schema.squash_migrations .empty hdraft hrevision hfinal (by decide +kernel)
    (by decide +kernel) (by decide +kernel)

end Statement

end SchemaBridge
