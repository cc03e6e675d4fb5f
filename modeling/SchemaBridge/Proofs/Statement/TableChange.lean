/-
  How a change settles its columns. While each column that a key lists belongs to that key, flags
  for a column reach just the key that lists it. So taking in fields and modifiers maps every key
  to itself with the flags for its columns, and no key stands in the way of another.
  Main results: `bound_addKey`, `absorbFields_eq` and `settle_eq`.
-/
import SchemaBridge.Proofs.Statement.Settlement

namespace SchemaBridge

namespace Statement

/-! ## Keys and the flags of their columns -/

namespace KeyDeclaration

/-- The key with flags for a column, if it lists the column. -/
def takeFlags (k : KeyDeclaration) (column : String) (flags : Flags) : KeyDeclaration :=
  if column ∈ k.columns then k.apply flags else k

/-- The key with all flags of a list that are for its columns. -/
def takeAll (k : KeyDeclaration) (given : List (String × Flags)) : KeyDeclaration :=
  given.foldl (fun k g => k.takeFlags g.1 g.2) k

theorem columns_takeFlags (k : KeyDeclaration) (column : String) (flags : Flags) :
    (k.takeFlags column flags).columns = k.columns := by
  unfold takeFlags
  split <;> rfl

theorem apply_apply (k : KeyDeclaration) (flags : Flags) :
    (k.apply flags).apply flags = k.apply flags := by
  obtain ⟨nullable, unique, primary⟩ := flags
  cases nullable <;> cases unique <;> rfl

theorem takeAll_of_not_mem {k : KeyDeclaration} {given : List (String × Flags)}
    (h : ∀ g ∈ given, g.1 ∉ k.columns) : k.takeAll given = k := by
  induction given with
  | nil => rfl
  | cons g rest ih =>
    have hg : k.takeFlags g.1 g.2 = k := if_neg (h g List.mem_cons_self)
    unfold takeAll
    rw [List.foldl_cons, hg]
    exact ih fun x hx => h x (List.mem_cons_of_mem _ hx)

theorem takeAll_apply {k : KeyDeclaration} {flags : Flags} {given : List (String × Flags)}
    (h : ∀ g ∈ given, g.1 ∈ k.columns → g.2 = flags) :
    (k.apply flags).takeAll given = k.apply flags := by
  induction given with
  | nil => rfl
  | cons g rest ih =>
    have hg : (k.apply flags).takeFlags g.1 g.2 = k.apply flags := by
      unfold takeFlags
      split
      · rename_i hmem
        rw [h g List.mem_cons_self hmem, apply_apply]
      · rfl
    unfold takeAll
    rw [List.foldl_cons, hg]
    exact ih fun x hx => h x (List.mem_cons_of_mem _ hx)

/-- Where all flags for the columns of a key are the same, they count once. -/
theorem takeAll_of_same {k : KeyDeclaration} {flags : Flags} {given : List (String × Flags)}
    (h : ∀ g ∈ given, g.1 ∈ k.columns → g.2 = flags) (hsome : ∃ g ∈ given, g.1 ∈ k.columns) :
    k.takeAll given = k.apply flags := by
  induction given with
  | nil =>
    obtain ⟨g, hg, -⟩ := hsome
    exact absurd hg List.not_mem_nil
  | cons g rest ih =>
    have hrest : ∀ x ∈ rest, x.1 ∈ k.columns → x.2 = flags :=
      fun x hx => h x (List.mem_cons_of_mem _ hx)
    unfold takeAll
    rw [List.foldl_cons]
    by_cases hg : g.1 ∈ k.columns
    · have hone : k.takeFlags g.1 g.2 = k.apply flags := by
        unfold takeFlags
        rw [if_pos hg, h g List.mem_cons_self hg]
      rw [hone]
      exact takeAll_apply hrest
    · have hone : k.takeFlags g.1 g.2 = k := if_neg hg
      rw [hone]
      apply ih hrest
      obtain ⟨x, hx, hxk⟩ := hsome
      rcases List.mem_cons.mp hx with rfl | hx
      · exact absurd hxk hg
      · exact ⟨x, hx, hxk⟩

end KeyDeclaration

namespace TableChange

/-! ## Columns and their keys -/

/-- A column belongs to a key just if the key lists it. -/
def Bound (c : TableChange) : Prop :=
  ∀ column i, c.keyOf column = some i ↔ ∃ k, c.keys[i]? = some k ∧ column ∈ k.columns

variable {c : TableChange}

theorem Bound.keyOf_eq_none_iff (h : c.Bound) {column : String} :
    c.keyOf column = none ↔ ∀ k ∈ c.keys, column ∉ k.columns := by
  constructor
  · intro hnone k hk hcolumn
    obtain ⟨i, hi⟩ := List.getElem?_of_mem hk
    rw [(h column i).mpr ⟨k, hi, hcolumn⟩] at hnone
    cases hnone
  · intro hkeys
    cases hi : c.keyOf column with
    | none => rfl
    | some i =>
      obtain ⟨k, hk, hcolumn⟩ := (h column i).mp hi
      exact absurd hcolumn (hkeys k (List.mem_of_getElem? hk))

/-- Keys that keep their columns keep them bound. -/
theorem Bound.map (h : c.Bound) {f : KeyDeclaration → KeyDeclaration}
    (hf : ∀ k, (f k).columns = k.columns) : Bound { c with keys := c.keys.map f } := by
  intro column i
  show c.keyOf column = some i ↔ _
  rw [h column i, List.getElem?_map]
  constructor
  · rintro ⟨k, hk, hcolumn⟩
    refine ⟨f k, ?_, (hf k).symm ▸ hcolumn⟩
    rw [hk]
    rfl
  · rintro ⟨l, hl, hcolumn⟩
    obtain ⟨k, hk, rfl⟩ := Option.map_eq_some_iff.mp hl
    exact ⟨k, hk, hf k ▸ hcolumn⟩

theorem foldl_flagsFor {k : KeyDeclaration} {i : Nat}
    (h : ∀ column, c.keyOf column = some i ↔ column ∈ k.columns) (given : List (String × Flags)) :
    (c.flagsFor given i).foldl KeyDeclaration.apply k = k.takeAll given := by
  induction given generalizing k with
  | nil => rfl
  | cons g rest ih =>
    have hone : (c.flagsFor [g] i).foldl KeyDeclaration.apply k = k.takeFlags g.1 g.2 := by
      unfold flagsFor KeyDeclaration.takeFlags
      by_cases hg : g.1 ∈ k.columns
      · rw [if_pos hg, List.filter_cons_of_pos (by simp [(h g.1).mpr hg])]
        rfl
      · rw [if_neg hg, List.filter_cons_of_neg (by simp [h g.1, hg])]
        rfl
    have hnext : ∀ column, c.keyOf column = some i ↔ column ∈ (k.takeFlags g.1 g.2).columns := by
      rwa [k.columns_takeFlags]
    rw [← List.singleton_append, flagsFor_append, List.foldl_append, hone, ih hnext]
    rfl

/-- Flags reach just the keys that list their columns. -/
theorem Bound.deliver_eq (h : c.Bound) (given : List (String × Flags)) :
    c.deliver given = { c with keys := c.keys.map (·.takeAll given) } := by
  have hkeys : c.keys.mapIdx (fun i k => (c.flagsFor given i).foldl KeyDeclaration.apply k) =
      c.keys.map (·.takeAll given) := by
    apply List.ext_getElem?
    intro i
    rw [List.getElem?_mapIdx, List.getElem?_map]
    cases hi : c.keys[i]? with
    | none => rfl
    | some k =>
      have hkey : ∀ column, c.keyOf column = some i ↔ column ∈ k.columns := by
        intro column
        rw [h column i, hi]
        simp
      exact congrArg some (foldl_flagsFor hkey given)
  unfold deliver
  rw [hkeys]

/-! ## Declaring keys -/

theorem lookup_cons_of_ne {x a : String} (h : x ≠ a) (b : Nat) (l : List (String × Nat)) :
    ((a, b) :: l).lookup x = l.lookup x := by
  rw [List.lookup_cons, beq_false_of_ne h]

theorem lookup_filter_ne (columns : List (String × Nat)) (column name : String) :
    (columns.filter (·.1 != column)).lookup name =
      if name = column then none else columns.lookup name := by
  induction columns with
  | nil => simp
  | cons p rest ih =>
    obtain ⟨a, b⟩ := p
    by_cases ha : a = column
    · rw [List.filter_cons_of_neg (by simpa using ha), ih]
      by_cases hn : name = column
      · rw [if_pos hn, if_pos hn]
      · rw [if_neg hn, if_neg hn, lookup_cons_of_ne (ha ▸ hn)]
    · rw [List.filter_cons_of_pos (by simpa using ha)]
      by_cases hn : name = a
      · rw [if_neg (hn ▸ ha), hn, List.lookup_cons_self, List.lookup_cons_self]
      · rw [lookup_cons_of_ne hn, lookup_cons_of_ne hn, ih]

theorem lookup_bindColumn (columns : List (String × Nat)) (column name : String) (i : Nat) :
    (bindColumn columns column i).lookup name =
      if name = column then some i else columns.lookup name := by
  unfold bindColumn
  rw [List.lookup_append, lookup_filter_ne]
  by_cases hn : name = column
  · rw [if_pos hn, if_pos hn, hn, List.lookup_cons_self]
    rfl
  · rw [if_neg hn, if_neg hn, lookup_cons_of_ne hn]
    exact Option.or_none

theorem lookup_foldl_bindColumn (names : List String) (columns : List (String × Nat))
    (name : String) (i : Nat) :
    (names.foldl (fun cols col => bindColumn cols col i) columns).lookup name =
      if name ∈ names then some i else columns.lookup name := by
  induction names generalizing columns with
  | nil => rfl
  | cons n rest ih =>
    rw [List.foldl_cons, ih, lookup_bindColumn]
    by_cases hrest : name ∈ rest
    · rw [if_pos hrest, if_pos (List.mem_cons_of_mem _ hrest)]
    · by_cases hn : name = n
      · rw [if_neg hrest, if_pos hn, if_pos (List.mem_cons.mpr (.inl hn))]
      · rw [if_neg hrest, if_neg hn,
          if_neg fun h => (List.mem_cons.mp h).elim hn hrest]

theorem keyOf_addKey (c : TableChange) (k : KeyDeclaration) (column : String) :
    (c.addKey k).keyOf column = if column ∈ k.columns then some c.keys.length else c.keyOf column :=
  lookup_foldl_bindColumn k.columns c.keyColumns column c.keys.length

theorem map_fst_bindColumn (columns : List (String × Nat)) (column : String) (i : Nat) :
    (bindColumn columns column i).map Prod.fst =
      (columns.map Prod.fst).filter (· != column) ++ [column] := by
  unfold bindColumn
  rw [List.map_append, List.filter_map]
  rfl

/-- A key whose columns belong to no other key may be added. -/
theorem bound_addKey (h : c.Bound) {k : KeyDeclaration}
    (hk : ∀ column ∈ k.columns, c.keyOf column = none) : (c.addKey k).Bound := by
  intro column i
  have hkeys : (c.addKey k).keys = c.keys ++ [k] := rfl
  rw [keyOf_addKey, hkeys]
  by_cases hcolumn : column ∈ k.columns
  · rw [if_pos hcolumn]
    have hnone := h.keyOf_eq_none_iff.mp (hk column hcolumn)
    constructor
    · rintro hi
      cases hi
      exact ⟨k, List.getElem?_concat_length, hcolumn⟩
    · rintro ⟨l, hl, hmem⟩
      rcases Nat.lt_trichotomy i c.keys.length with hlt | heq | hgt
      · rw [List.getElem?_append_left hlt] at hl
        exact absurd hmem (hnone l (List.mem_of_getElem? hl))
      · rw [heq]
      · rw [List.getElem?_eq_none (by rw [List.length_append, List.length_singleton]; omega)] at hl
        cases hl
  · rw [if_neg hcolumn, h column i]
    constructor
    · rintro ⟨l, hl, hmem⟩
      obtain ⟨hlt, -⟩ := List.getElem?_eq_some_iff.mp hl
      exact ⟨l, by rw [List.getElem?_append_left hlt, hl], hmem⟩
    · rintro ⟨l, hl, hmem⟩
      rcases Nat.lt_or_ge i c.keys.length with hlt | hge
      · rw [List.getElem?_append_left hlt] at hl
        exact ⟨l, hl, hmem⟩
      · rw [List.getElem?_append_right hge] at hl
        have hlast := List.mem_singleton.mp (List.mem_of_getElem? hl)
        exact absurd (hlast ▸ hmem) hcolumn

/-! ## Taking in fields -/

/-- Fields that are columns of a key give it their flags, and are no fields any more. -/
theorem absorbFields_eq (h : c.Bound) :
    c.absorbFields = { c with
      keys := c.keys.map (·.takeAll (given c.fields))
      fields := c.fields.filter fun f => (c.keyOf f.name).isNone } := by
  rw [absorbFields_deliver, h.deliver_eq]
  rfl

/-! ## Taking in modifiers -/

/-- Every modifier is for a field or for a column of a key, and no field is a column of a key. -/
structure Settled (c : TableChange) (flags : List (String × Flags)) : Prop where
  bound : c.Bound
  apart : ∀ f ∈ c.fields, c.keyOf f.name = none
  known : ∀ m ∈ flags, m.1 ∈ c.fields.map (·.name) ∨ ∃ i, c.keyOf m.1 = some i

/-- Modifiers reach the fields and the keys that they are for, and no field that was there. -/
theorem settle_eq (h : c.Settled c.flags) (existing : List Field) :
    c.settle existing = ({ c with
      fields := withFlags c.fields c.flags
      keys := c.keys.map (·.takeAll c.flags) }, existing) := by
  have hnone : c.outer c.flags = [] := by
    apply List.filter_eq_nil_iff.mpr
    intro m hm
    rcases h.known m hm with hmem | ⟨i, hi⟩
    · obtain ⟨f, hf, hname⟩ := List.mem_map.mp hmem
      have hany : c.fields.any (·.name == m.1) = true :=
        List.any_eq_true.mpr ⟨f, hf, beq_iff_eq.mpr hname⟩
      simp [hany]
    · simp [hi]
  rw [settle_deliver h.apart, h.bound.deliver_eq, hnone]
  rfl

/-! ## Fields that the table already has -/

/-- Fields that are no columns of the keys stay. -/
theorem takeFields_eq {existing : List Field}
    (h : ∀ p ∈ c.keyColumns, ∀ f ∈ existing, f.name ≠ p.1) :
    c.takeFields existing = (c, existing) := by
  unfold takeFields
  revert h
  generalize c.keyColumns = columns
  intro h
  induction columns with
  | nil => rfl
  | cons p rest ih =>
    have hnone : existing.find? (·.name == p.1) = none := by
      apply List.find?_eq_none.mpr
      intro f hf
      exact fun hname => h p List.mem_cons_self f hf (beq_iff_eq.mp hname)
    have hone : takeField (c, existing) p.1 p.2 = (c, existing) := by
      unfold takeField
      dsimp only
      rw [hnone]
    rw [List.foldl_cons, hone]
    exact ih fun q hq => h q (List.mem_cons_of_mem _ hq)

end TableChange

end Statement

end SchemaBridge
