/-
  The names of key columns. The keys of one class to another differ by the number behind their
  columns alone. Those that come with the table are numbered by their place, if there are several.
  A deferred key is to be numbered after those that are left; but deferral goes class by class, so
  none is left and no deferred key bears a number. Columns clash where two keys of one class to
  another are deferred, and where two classes that share a table both number their keys to a third
  or both do not.
  Main result: `keysApart_iff`.
-/
import SchemaBridge.Proofs.Plan.Realisation
import SchemaBridge.Proofs.Schema.Deferral
import Mathlib.Data.List.Pairwise

namespace SchemaBridge

/-- Ordering takes out no two keys that one class stores of another. -/
def Schema.DefersSingly (s : Schema) : Prop :=
  s.order.2.deferred.Pairwise fun e f => Plan.ownerOf e.2 = Plan.ownerOf f.2 →
    Plan.otherEnd e.2 (Plan.ownerOf e.2) ≠ Plan.otherEnd f.2 (Plan.ownerOf f.2)

/-- Of two classes that share a table and both store keys of a third class, one numbers them, having
several left in its table, and the other does not. -/
def Schema.NumbersApart (s : Schema) : Prop :=
  ∀ c ∈ s.names, ∀ d ∈ s.names, c ≠ d → Naming.tableName c = Naming.tableName d → ∀ other,
    0 < Plan.ownedBetween s c other → 0 < Plan.ownedBetween s d other →
      (1 < Plan.ownedBetween s.order.1 c other ↔ ¬1 < Plan.ownedBetween s.order.1 d other)

instance (s : Schema) : Decidable s.DefersSingly :=
  inferInstanceAs (Decidable (List.Pairwise _ _))

namespace Plan

/-- No column of the one key is named as one of the other. -/
def ForeignKey.Apart (k l : ForeignKey) : Prop :=
  ∀ a ∈ k.columns, ∀ b ∈ l.columns, a.name ≠ b.name

instance (k l : ForeignKey) : Decidable (k.Apart l) :=
  inferInstanceAs (Decidable (∀ a ∈ k.columns, ∀ b ∈ l.columns, a.name ≠ b.name))

theorem ForeignKey.Apart.symm {k l : ForeignKey} (h : k.Apart l) : l.Apart k :=
  fun b hb a ha => (h a ha b hb).symm

/-- Any two keys of one table to one class have different columns. -/
def KeysApart (p : Plan) : Prop :=
  p.foreignKeys.Pairwise fun k l => k.table = l.table → k.related = l.related → k.Apart l

instance (p : Plan) : Decidable p.KeysApart :=
  inferInstanceAs (Decidable (List.Pairwise _ _))

/-! ## Names and numbers -/

theorem toString_injective {m n : Nat} (h : toString m = toString n) : m = n := by
  have hdigits : Nat.toDigits 10 m = Nat.toDigits 10 n := String.ofList_inj.mp h
  rw [← Nat.ofDigitChars_ten_toDigits (n := m), hdigits, Nat.ofDigitChars_ten_toDigits]

theorem suffixText_injective {m n : Option Nat} (h : suffixText m = suffixText n) : m = n := by
  have hsome : ∀ n : Nat, suffixText (some n) ≠ suffixText none := fun n hn => by
    have hlength := congrArg String.length hn
    have hpos : 0 < n.repr.length := Nat.length_repr_pos
    exact absurd hlength (Nat.ne_of_gt hpos)
  cases m with
  | none =>
    cases n with
    | none => rfl
    | some n => exact absurd h.symm (hsome n)
  | some m =>
    cases n with
    | none => exact absurd h (hsome m)
    | some n => exact congrArg some (toString_injective h)

/-- Without composite keys every key is one column. -/
theorem exists_referencedKeys_eq (s : Schema) (cls : String) :
    ∃ key, referencedKeys s false cls = [key] := by
  unfold referencedKeys
  split
  · unfold keysOf
    split
    · exact ⟨_, rfl⟩
    · split
      · exact ⟨_, rfl⟩
      · exact ⟨_, rfl⟩
      · exact ⟨_, rfl⟩
  · exact ⟨_, rfl⟩

/-- The columns of two keys to one class differ if their numbers do. -/
theorem apart_iff_of_columns_eq {s : Schema} {m n : Option Nat} {k l : ForeignKey}
    (hk : k.columns = keyColumns s false k.related (suffixText m))
    (hl : l.columns = keyColumns s false l.related (suffixText n))
    (hrelated : k.related = l.related) : k.Apart l ↔ m ≠ n := by
  obtain ⟨key, hkey⟩ := exists_referencedKeys_eq s l.related
  unfold ForeignKey.Apart
  rw [hk, hl, hrelated]
  unfold keyColumns
  rw [hkey]
  simp only [List.map_cons, List.map_nil, List.mem_singleton, forall_eq]
  constructor
  · rintro hne rfl
    exact hne rfl
  · intro hne heq
    exact hne (suffixText_injective ((String.append_right_inj _).mp heq))

/-! ## The place of a key -/

section

variable {s t : Schema} {composite : Bool}

/-- The relations between two classes of which the first stores the keys. -/
theorem mem_ownedIn_between (ht : t.Consistent) {cls other : String} {id : RelationId}
    {r : Relation} : (id, r) ∈ ownedIn t cls (t.relationsBetween cls other) ↔
      (id, r) ∈ t.relations ∧ r.ownership cls = some .own ∧ otherEnd r cls = other := by
  rw [mem_ownedIn ht, Schema.mem_relationsBetween]
  constructor
  · rintro ⟨⟨r', hr', hconnects⟩, hr, hown⟩
    obtain rfl := ht.relation_unique hr' hr
    obtain ⟨e, he, hcls⟩ := Relation.connects_iff.mp hconnects
    exact ⟨hr, hown, (otherEnd_of_ends he).trans hcls⟩
  · rintro ⟨hr, hown, hother⟩
    obtain ⟨mine, theirs, he⟩ := Relation.ends_of_owner hown
    rw [otherEnd_of_ends he] at hother
    exact ⟨⟨r, hr, Relation.connects_iff.mpr ⟨_, he, hother⟩⟩, hr, hown⟩

theorem ownedBetween_pos_iff (ht : t.Consistent) {cls other : String} :
    0 < ownedBetween t cls other ↔ ∃ id r, (id, r) ∈ t.relations ∧
      r.ownership cls = some .own ∧ otherEnd r cls = other := by
  unfold ownedBetween
  rw [List.length_pos_iff_exists_mem]
  constructor
  · rintro ⟨⟨id, r⟩, hmem⟩
    exact ⟨id, r, (mem_ownedIn_between ht).mp hmem⟩
  · rintro ⟨id, r, hmem⟩
    exact ⟨(id, r), (mem_ownedIn_between ht).mpr hmem⟩

/-- The key of `owner` is at this place among its keys to the same class, and bears the number of
the place. -/
structure ForeignKey.StandsAt (t : Schema) (composite : Bool) (owner : String) (place : Nat)
    (number : Option Nat) (k : ForeignKey) : Prop where
  place_eq : ((ownedIn t owner (t.relationsBetween owner k.related)).map Prod.fst)[place]? =
    some k.relation
  number_eq : number = if 1 < ownedBetween t owner k.related then some (place + 1) else none
  columns_eq : k.columns = keyColumns t composite k.related (suffixText number)

/-- The first key has the first place. -/
theorem ForeignKey.StandsAt.place_eq_zero (ht : t.Consistent) {owner : String} {place : Nat}
    {number : Option Nat} {k : ForeignKey} (h : k.StandsAt t composite owner place number)
    (hfirst : ((ownedIn t owner (t.relationsBetween owner k.related))[0]?).map Prod.fst =
      some k.relation) : place = 0 := by
  have hnodup : ((ownedIn t owner (t.relationsBetween owner k.related)).map Prod.fst).Nodup :=
    (map_fst_ownedIn_sublist _ _ _).nodup ((List.filter_sublist.map Prod.fst).nodup ht.ids_nodup)
  have hplace := h.place_eq
  rw [← List.getElem?_map, ← hplace] at hfirst
  exact (List.getElem?_inj (List.getElem?_eq_some_iff.mp hplace).1 hnodup).mp hfirst.symm

theorem columns_of_foreignKey {id : RelationId} {r : Relation} {owner : String}
    {number : Option Nat} {k : ForeignKey}
    (h : foreignKey t composite id r owner number = some k) :
    k.columns = keyColumns t composite k.related (suffixText number) := by
  unfold foreignKey at h
  split at h <;> cases h
  rfl

/-- Every key that a class stores for its relations to one other class has a place. -/
theorem standsAt_of_mem_keysTo (ht : t.Consistent) {cls other : String} {k : ForeignKey}
    (h : k ∈ keysTo t composite cls (t.relationsBetween cls other)) :
    k.related = other ∧ ∃ place number, k.StandsAt t composite cls place number := by
  unfold keysTo at h
  obtain ⟨⟨⟨id, r⟩, n⟩, hp, hk⟩ := List.mem_filterMap.mp h
  obtain ⟨place, hplace, heq⟩ := List.getElem_of_mem hp
  rw [List.length_zipIdx] at hplace
  rw [List.getElem_zipIdx] at heq
  obtain ⟨hentry, rfl⟩ := Prod.mk.inj heq
  have hmem : (id, r) ∈ ownedIn t cls (t.relationsBetween cls other) :=
    hentry ▸ List.getElem_mem hplace
  obtain ⟨-, hown, hother⟩ := (mem_ownedIn_between ht).mp hmem
  obtain ⟨mine, theirs, he⟩ := Relation.ends_of_owner hown
  obtain ⟨k', hk', hreal⟩ := foreignKey_realises (s := t) rfl composite id he
    (if 1 < (ownedIn t cls (t.relationsBetween cls other)).length then some (1 + place) else none)
  dsimp only at hk
  rw [hk'] at hk
  cases hk
  have hrelated : k.related = other := by
    obtain ⟨mine', theirs', he', hrelated, -⟩ := hreal.ends
    rw [he] at he'
    cases he'
    rw [hrelated, ← hother, otherEnd_of_ends he]
  refine ⟨hrelated, place, _, ?_, rfl, ?_⟩
  · rw [hrelated, List.getElem?_map, List.getElem?_eq_getElem hplace, hentry, hreal.relation_eq]
    rfl
  · rw [columns_of_foreignKey hk', hrelated, Nat.add_comm 1 place]
    rfl

end

/-! ## The number of a key -/

/-- The key is one that `owner` stores, with this number behind its columns. -/
structure ForeignKey.Numbered (s : Schema) (composite : Bool) (owner : String)
    (number : Option Nat) (k : ForeignKey) : Prop where
  owner_mem : owner ∈ s.names
  table_eq : k.table = Naming.tableName owner
  relation : ∃ r, (k.relation, r) ∈ s.relations ∧ r.ownership owner = some .own ∧
    otherEnd r owner = k.related
  columns_eq : k.columns = keyColumns s.order.1 composite k.related (suffixText number)
  /-- It has a place in its table, or it is deferred and no key of the two classes has. -/
  place : (∃ i, k.StandsAt s.order.1 composite owner i number) ∨
    (k.relation ∈ s.order.2.deferred.map Prod.fst ∧
      ownedBetween s.order.1 owner k.related = 0 ∧ number = none)

variable {s : Schema} {composite : Bool}

/-- When a key of one class to another is deferred, the table of the one holds no key to the
other. -/
theorem ownedBetween_of_deferred (hs : s.Consistent) {owner other : String} {id : RelationId}
    (hid : id ∈ s.order.2.deferred.map Prod.fst) (href : s.RefersBy owner id other) :
    ownedBetween s.order.1 owner other = 0 := by
  have ht := Schema.consistent_order hs
  apply Nat.eq_zero_of_not_pos
  rw [ownedBetween_pos_iff ht]
  rintro ⟨left, r, hr, hown, hother⟩
  obtain ⟨mine, theirs, he⟩ := Relation.ends_of_owner hown
  rw [otherEnd_of_ends he] at hother
  have hself : r.isSelf = false := by
    rw [Bool.eq_false_iff]
    intro hself
    exact href.ne (hother.symm.trans ((Relation.isSelf_iff_of_ends he).mp hself))
  exact Schema.not_refersBy_of_deferred hs hid href left
    ⟨r, mine, theirs, hr, hself, he, hother, hown⟩

/-- A key that comes with its table bears the number of its place. -/
theorem numbered_of_mem_tables (hs : s.Consistent) {table : Table}
    (htable : table ∈ (ofOrder s.order.1 s.order.2 composite).tables) {k : ForeignKey}
    (hk : k ∈ table.foreignKeys) : ∃ owner number, k.Numbered s composite owner number := by
  have ht := Schema.consistent_order hs
  have ho := Schema.isCreationOrder_order hs
  obtain ⟨c, hc, rfl⟩ := (mem_tables_iff ht ho).mp htable
  have hk' : k ∈ foreignKeysOf s.order.1 composite c := hk
  obtain ⟨r, hr, hown, hreal⟩ := mem_foreignKeysOf ht ho.outline_eq hk'
  rw [foreignKeysOf_eq] at hk'
  obtain ⟨link, hlink, hkeys⟩ := List.mem_flatMap.mp hk'
  rw [← (ht.links_canonical c hc).get_of_mem hlink, ht.get_links c hc] at hkeys
  obtain ⟨-, place, number, hstands⟩ := standsAt_of_mem_keysTo ht hkeys
  obtain ⟨mine, theirs, he, hrelated, -⟩ := hreal.ends
  refine ⟨c.name, number, ?_, hreal.table_eq, ⟨r, ?_, hown, ?_⟩, hstands.columns_eq,
    .inl ⟨place, hstands⟩⟩
  · rw [← names_eq_of_order ho]
    exact List.mem_map_of_mem hc
  · rw [ho.relations_eq] at hr
    exact (List.mem_filter.mp hr).1
  · rw [hrelated, otherEnd_of_ends he]

/-- A deferred key bears no number. -/
theorem numbered_of_mem_deferred (hs : s.Consistent) {k : ForeignKey}
    (hk : k ∈ (ofOrder s.order.1 s.order.2 composite).deferred) :
    ∃ owner, k.Numbered s composite owner none := by
  have ho := Schema.isCreationOrder_order hs
  obtain ⟨⟨id, r⟩, he, hkey⟩ := List.mem_filterMap.mp hk
  obtain ⟨owner, howner, other, -, href⟩ := ho.deferred_refers (id, r) he
  have hid : id ∈ s.order.2.deferred.map Prod.fst := List.mem_map_of_mem he
  have hzero := ownedBetween_of_deferred hs hid href
  obtain ⟨r', mine, theirs, hr, -, hends, rfl, hown⟩ := href
  obtain rfl := hs.relation_unique (ho.deferred_live _ he) hr
  obtain ⟨k', hk', hreal⟩ := deferredKey_of_owner (s := s) composite id hown ho.outline_eq
  rw [hk'] at hkey
  cases hkey
  obtain ⟨mine', theirs', hends', hrelated, -⟩ := hreal.ends
  rw [hends] at hends'
  cases hends'
  unfold deferredKey at hk'
  dsimp only at hk'
  rw [ownerOf_eq hown, otherEnd_of_ends hends, hzero, if_neg (Nat.lt_irrefl 0)] at hk'
  refine ⟨owner, howner, hreal.table_eq, ⟨r, hreal.relation_eq ▸ hr, hown, ?_⟩,
    columns_of_foreignKey hk', .inr ⟨hreal.relation_eq ▸ hid, hrelated ▸ hzero, rfl⟩⟩
  rw [hrelated, otherEnd_of_ends hends]

theorem exists_numbered (hs : s.Consistent) {k : ForeignKey}
    (hk : k ∈ (ofOrder s.order.1 s.order.2 composite).foreignKeys) :
    ∃ owner number, k.Numbered s composite owner number := by
  rcases List.mem_append.mp hk with hk | hk
  · obtain ⟨table, htable, hk⟩ := List.mem_flatMap.mp hk
    exact numbered_of_mem_tables hs htable hk
  · obtain ⟨owner, hnumbered⟩ := numbered_of_mem_deferred hs hk
    exact ⟨owner, none, hnumbered⟩

namespace ForeignKey.Numbered

variable {owner : String} {number : Option Nat} {k l : ForeignKey}

theorem ownedBetween_pos (hs : s.Consistent) (h : k.Numbered s composite owner number) :
    0 < ownedBetween s owner k.related :=
  (ownedBetween_pos_iff hs).mpr ⟨k.relation, h.relation⟩

/-- A key bears a number just if the table of its class holds several to the same class. -/
theorem ne_none_iff (h : k.Numbered s composite owner number) :
    number ≠ none ↔ 1 < ownedBetween s.order.1 owner k.related := by
  rcases h.place with ⟨i, hstands⟩ | ⟨-, hzero, rfl⟩
  · rw [hstands.number_eq]
    split <;> simp [*]
  · simp [hzero]

/-- A deferred key is not in its table. -/
theorem eq_none_of_deferred (hs : s.Consistent) (h : k.Numbered s composite owner number)
    (hdeferred : k.relation ∈ s.order.2.deferred.map Prod.fst) : number = none := by
  obtain ⟨r, hr, hown, hother⟩ := h.relation
  rcases h.place with ⟨i, hstands⟩ | ⟨-, -, hnone⟩
  · have hplaced := List.mem_of_getElem? hstands.place_eq
    obtain ⟨⟨id, r'⟩, hmem, heq⟩ := List.mem_map.mp hplaced
    obtain ⟨hleft, -⟩ := (mem_ownedIn_between (Schema.consistent_order hs)).mp hmem
    rw [(Schema.isCreationOrder_order hs).relations_eq] at hleft
    have hnot := (List.mem_filter.mp hleft).2
    rw [decide_eq_true_eq] at hnot
    exact absurd (heq ▸ hdeferred) hnot
  · exact hnone

/-- Owner and other end are those of the relation. -/
theorem owner_eq (hs : s.Consistent) (h : k.Numbered s composite owner number) {r : Relation}
    (hr : (k.relation, r) ∈ s.relations) :
    owner = ownerOf r ∧ otherEnd r (ownerOf r) = k.related := by
  obtain ⟨r', hr', hown, hother⟩ := h.relation
  obtain rfl := hs.relation_unique hr hr'
  rw [ownerOf_eq hown]
  exact ⟨rfl, hother⟩

/-- Two keys of one class to another with the same number are the same or both deferred. -/
theorem relation_eq_or_deferred (h : k.Numbered s composite owner number)
    (h' : l.Numbered s composite owner number) (hrelated : k.related = l.related) :
    k.relation = l.relation ∨ (k.relation ∈ s.order.2.deferred.map Prod.fst ∧
      l.relation ∈ s.order.2.deferred.map Prod.fst) := by
  have hbound : ∀ {x : ForeignKey} {i : Nat}, x.StandsAt s.order.1 composite owner i number →
      i < ownedBetween s.order.1 owner x.related := fun hstands => by
    have hlt := (List.getElem?_eq_some_iff.mp hstands.place_eq).1
    rwa [List.length_map] at hlt
  rcases h.place with ⟨i, hi⟩ | ⟨hk, hzero, -⟩ <;> rcases h'.place with ⟨j, hj⟩ | ⟨hl, hzero', -⟩
  · have hik := hbound hi
    have hjl := hbound hj
    have hnumber := hi.number_eq.symm.trans hj.number_eq
    rw [← hrelated] at hjl hnumber
    have hij : i = j := by
      split at hnumber
      · exact Nat.succ.inj (Option.some.inj hnumber)
      · omega
    have hplace := hj.place_eq
    rw [← hrelated, ← hij, hi.place_eq] at hplace
    exact .inl (Option.some.inj hplace)
  · have hik := hbound hi
    rw [hrelated, hzero'] at hik
    exact absurd hik (Nat.not_lt_zero _)
  · have hjl := hbound hj
    rw [← hrelated, hzero] at hjl
    exact absurd hjl (Nat.not_lt_zero _)
  · exact .inr ⟨hk, hl⟩

end ForeignKey.Numbered

/-- The relation of an owner has a key, to the class at its other end. -/
theorem exists_numbered_key (hs : s.Consistent) (composite : Bool) {id : RelationId} {r : Relation}
    {owner : String} (hr : (id, r) ∈ s.relations) (hown : r.ownership owner = some .own)
    (howner : owner ∈ s.names) :
    ∃ k ∈ (ofOrder s.order.1 s.order.2 composite).foreignKeys, k.relation = id ∧
      k.related = otherEnd r owner ∧ ∃ number, k.Numbered s composite owner number := by
  have ht := Schema.consistent_order hs
  have ho := Schema.isCreationOrder_order hs
  obtain ⟨k, hk, rfl⟩ := List.mem_map.mp
    ((mem_map_relation_foreignKeys composite hs ht ho).mpr ⟨r, owner, hr, hown, howner⟩)
  obtain ⟨owner', number, hnumbered⟩ := exists_numbered hs hk
  have howner' := hnumbered.owner_eq hs hr
  rw [ownerOf_eq hown] at howner'
  obtain ⟨rfl, hrelated⟩ := howner'
  exact ⟨k, hk, rfl, hrelated.symm, number, hnumbered⟩

/-- The first key of one class to another bears the number one, if there are several in the table,
and none otherwise. -/
theorem exists_first_key (hs : s.Consistent) (composite : Bool) {owner other : String}
    (howner : owner ∈ s.names) (hpos : 0 < ownedBetween s owner other) :
    ∃ k ∈ (ofOrder s.order.1 s.order.2 composite).foreignKeys, k.related = other ∧
      k.Numbered s composite owner
        (if 1 < ownedBetween s.order.1 owner other then some 1 else none) := by
  have ht := Schema.consistent_order hs
  have ho := Schema.isCreationOrder_order hs
  split
  · rename_i hseveral
    obtain ⟨⟨id, r⟩, hfirst⟩ : ∃ p,
        (ownedIn s.order.1 owner (s.order.1.relationsBetween owner other))[0]? = some p :=
      ⟨_, List.getElem?_eq_getElem (Nat.lt_of_lt_of_le Nat.zero_lt_one (Nat.le_of_lt hseveral))⟩
    obtain ⟨hleft, hown, hother⟩ := (mem_ownedIn_between ht).mp (List.mem_of_getElem? hfirst)
    rw [ho.relations_eq] at hleft
    obtain ⟨k, hk, hid, hrelated, number, hnumbered⟩ :=
      exists_numbered_key hs composite (List.mem_filter.mp hleft).1 hown howner
    rw [hother] at hrelated
    refine ⟨k, hk, hrelated, ?_⟩
    rcases hnumbered.place with ⟨i, hstands⟩ | ⟨-, hzero, -⟩
    · have hzero : i = 0 := hstands.place_eq_zero ht (by rw [hrelated, hfirst, hid]; rfl)
      have hone := hstands.number_eq
      rw [hrelated, if_pos hseveral, hzero] at hone
      exact hone ▸ hnumbered
    · rw [hrelated] at hzero
      omega
  · rename_i hfew
    obtain ⟨id, r, hr, hown, hother⟩ := (ownedBetween_pos_iff hs).mp hpos
    obtain ⟨k, hk, -, hrelated, number, hnumbered⟩ :=
      exists_numbered_key hs composite hr hown howner
    rw [hother] at hrelated
    have hnone : number = none := by
      by_contra hsome
      exact hfew (hrelated ▸ hnumbered.ne_none_iff.mp hsome)
    exact ⟨k, hk, hrelated, hnone ▸ hnumbered⟩

/-! ## Where columns clash -/

theorem DefersSingly.eq_of_same (h : s.DefersSingly) {e f : RelationId × Relation}
    (he : e ∈ s.order.2.deferred) (hf : f ∈ s.order.2.deferred)
    (howner : ownerOf e.2 = ownerOf f.2)
    (hother : otherEnd e.2 (ownerOf e.2) = otherEnd f.2 (ownerOf f.2)) : e = f := by
  by_contra hne
  have hsymm : Std.Symm fun e f : RelationId × Relation => ownerOf e.2 = ownerOf f.2 →
      otherEnd e.2 (ownerOf e.2) ≠ otherEnd f.2 (ownerOf f.2) :=
    ⟨fun _ _ hapart howner => (hapart howner.symm).symm⟩
  exact List.Pairwise.forall h he hf hne howner hother

/-- Keys to one class have different columns just if their numbers differ. -/
theorem ForeignKey.Numbered.apart_iff {owner owner' : String} {m n : Option Nat}
    {k l : ForeignKey} (hk : k.Numbered s false owner m) (hl : l.Numbered s false owner' n)
    (hrelated : k.related = l.related) : k.Apart l ↔ m ≠ n :=
  apart_iff_of_columns_eq hk.columns_eq hl.columns_eq hrelated

theorem KeysApart.apart {p : Plan} (h : p.KeysApart) {k l : ForeignKey}
    (hk : k ∈ p.foreignKeys) (hl : l ∈ p.foreignKeys) (hne : k ≠ l) (htable : k.table = l.table)
    (hrelated : k.related = l.related) : k.Apart l := by
  have hsymm : Std.Symm fun k l : ForeignKey =>
      k.table = l.table → k.related = l.related → k.Apart l :=
    ⟨fun _ _ hapart ht hr => (hapart ht.symm hr.symm).symm⟩
  exact List.Pairwise.forall h hk hl hne htable hrelated

theorem defersSingly_of_keysApart (hs : s.Consistent)
    (h : (ofOrder s.order.1 s.order.2 false).KeysApart) : s.DefersSingly := by
  have ho := Schema.isCreationOrder_order hs
  have hkey : ∀ e ∈ s.order.2.deferred, ∃ k ∈ (ofOrder s.order.1 s.order.2 false).foreignKeys,
      k.relation = e.1 ∧ k.related = otherEnd e.2 (ownerOf e.2) ∧
        k.Numbered s false (ownerOf e.2) none := by
    rintro ⟨id, r⟩ he
    have hmem : id ∈ s.order.2.deferred.map Prod.fst := List.mem_map_of_mem he
    obtain ⟨owner, howner, hown⟩ := owner_of_deferred hs ho he
    obtain ⟨k, hk, rfl, hrelated, number, hnumbered⟩ :=
      exists_numbered_key hs false (ho.deferred_live _ he) hown howner
    obtain rfl := hnumbered.eq_none_of_deferred hs hmem
    dsimp only
    rw [ownerOf_eq hown]
    exact ⟨k, hk, rfl, hrelated, hnumbered⟩
  refine (List.Nodup.of_map _ ho.deferred_nodup).pairwise_of_forall_ne ?_
  intro e he f hf hne howner hother
  obtain ⟨k, hk, hke, hkrelated, hknumbered⟩ := hkey e he
  obtain ⟨l, hl, hlf, hlrelated, hlnumbered⟩ := hkey f hf
  have hkl : k ≠ l := by
    rintro rfl
    exact hne (List.inj_on_of_nodup_map ho.deferred_nodup he hf (hke.symm.trans hlf))
  have htable : k.table = l.table := by rw [hknumbered.table_eq, hlnumbered.table_eq, howner]
  have hrelated : k.related = l.related := by rw [hkrelated, hlrelated, hother]
  exact (hknumbered.apart_iff hlnumbered hrelated).mp (h.apart hk hl hkl htable hrelated) rfl

theorem numbersApart_of_keysApart (hs : s.Consistent)
    (h : (ofOrder s.order.1 s.order.2 false).KeysApart) : s.NumbersApart := by
  intro c hc d hd hne htable other hcpos hdpos
  obtain ⟨k, hk, hkrelated, hknumbered⟩ := exists_first_key hs false hc hcpos
  obtain ⟨l, hl, hlrelated, hlnumbered⟩ := exists_first_key hs false hd hdpos
  have hrelated : k.related = l.related := hkrelated.trans hlrelated.symm
  have hkl : k ≠ l := by
    rintro rfl
    obtain ⟨r, hr, hown, -⟩ := hlnumbered.relation
    exact hne ((hknumbered.owner_eq hs hr).1.trans (ownerOf_eq hown))
  have hnumber := (hknumbered.apart_iff hlnumbered hrelated).mp
    (h.apart hk hl hkl (by rw [hknumbered.table_eq, hlnumbered.table_eq, htable]) hrelated)
  by_cases hcm : 1 < ownedBetween s.order.1 c other <;>
    by_cases hdm : 1 < ownedBetween s.order.1 d other <;> simp [hcm, hdm] at hnumber ⊢

/-- The keys of a plan are apart just if no two keys of one class to another are deferred, and the
keys of classes that share a table are told apart by having numbers or not. -/
theorem keysApart_iff (hs : s.Consistent) :
    (ofOrder s.order.1 s.order.2 false).KeysApart ↔ s.DefersSingly ∧ s.NumbersApart := by
  have ht := Schema.consistent_order hs
  have ho := Schema.isCreationOrder_order hs
  refine ⟨fun h => ⟨defersSingly_of_keysApart hs h, numbersApart_of_keysApart hs h⟩, ?_⟩
  rintro ⟨hsingly, hnumbers⟩
  have hnodup : ((ofOrder s.order.1 s.order.2 false).foreignKeys.map (·.relation)).Nodup :=
    nodup_map_relation_foreignKeys hs ht ho
  refine (List.Nodup.of_map _ hnodup).pairwise_of_forall_ne ?_
  intro k hk l hl hne htable hrelated
  obtain ⟨c, m, hknumbered⟩ := exists_numbered hs hk
  obtain ⟨d, n, hlnumbered⟩ := exists_numbered hs hl
  rw [hknumbered.apart_iff hlnumbered hrelated]
  rintro rfl
  by_cases hcd : c = d
  · subst hcd
    rcases hknumbered.relation_eq_or_deferred hlnumbered hrelated with hsame | ⟨hkd, hld⟩
    · exact hne (List.inj_on_of_nodup_map hnodup hk hl hsame)
    · obtain ⟨⟨i, r⟩, he, hi⟩ := List.mem_map.mp hkd
      obtain ⟨⟨j, r'⟩, hf, hj⟩ := List.mem_map.mp hld
      obtain rfl : i = k.relation := hi
      obtain rfl : j = l.relation := hj
      have hko := hknumbered.owner_eq hs (ho.deferred_live _ he)
      have hlo := hlnumbered.owner_eq hs (ho.deferred_live _ hf)
      have hsame := DefersSingly.eq_of_same hsingly he hf (hko.1.symm.trans hlo.1)
        (hko.2.trans (hrelated.trans hlo.2.symm))
      exact hne (List.inj_on_of_nodup_map hnodup hk hl (congrArg Prod.fst hsame))
  · have hkm := hknumbered.ne_none_iff
    have hlm := hlnumbered.ne_none_iff
    have hapart := hnumbers c hknumbered.owner_mem d hlnumbered.owner_mem hcd
      (by rw [← hknumbered.table_eq, ← hlnumbered.table_eq, htable]) k.related
      (hknumbered.ownedBetween_pos hs) (hrelated ▸ hlnumbered.ownedBetween_pos hs)
    rw [← hrelated] at hlm
    rw [← hkm, ← hlm] at hapart
    exact (iff_not_self hapart).elim

/-- In the plan of a reachable schema without composite keys, any two keys of one table to one class
have different columns just if no two keys of one class to another are deferred and, of two classes
that share a table, just one numbers its keys to a third. -/
theorem columns_apart_iff (h : s.Reachable) (options : Options)
    (hone : options.compositeKeys = false) :
    (generate s options).plan.KeysApart ↔ s.DefersSingly ∧ s.NumbersApart := by
  have hplan : (generate s options).plan =
      ofOrder s.order.1 s.order.2 options.compositeKeys := rfl
  rw [hplan, hone]
  exact keysApart_iff h.consistent

theorem columns_apart_crossed : Schema.crossed.Reachable ∧
    ({} : Options).compositeKeys = false ∧ (generate Schema.crossed {}).plan.KeysApart := by
  have htables : ∀ c ∈ Schema.crossed.names, ∀ d ∈ Schema.crossed.names,
      Naming.tableName c = Naming.tableName d → c = d := by decide +kernel
  exact ⟨Schema.reachable_crossed, rfl, (columns_apart_iff Schema.reachable_crossed {} rfl).mpr
    ⟨by decide +kernel, fun c hc d hd hne hsame => absurd (htables c hc d hd hsame) hne⟩⟩

/-- A class that stores two keys of another, which refers back. -/
def parallel : Schema :=
  ((((Schema.empty.ensureClass "A").ensureClass "B").addRelation
    ⟨⟨"A", .any⟩, ⟨"B", .one⟩⟩).addRelation ⟨⟨"A", .any⟩, ⟨"B", .one⟩⟩).addRelation
    ⟨⟨"B", .any⟩, ⟨"A", .one⟩⟩

/-- Both keys to the class `B` are deferred, and both are named `b_id`. -/
theorem columns_clash_parallel : parallel.Reachable ∧
    ({} : Options).compositeKeys = false ∧ ¬(generate parallel {}).plan.KeysApart :=
  ⟨((((Schema.Reachable.empty.ensureClass _).ensureClass _).addRelation _).addRelation
    _).addRelation _, rfl, by decide +kernel⟩

end Plan

end SchemaBridge
