/-
  Dropped foreign keys. A key is dropped by the name of the class it refers to, so the statement does
  not say which relation it means. It is the newest one of those that were there before the
  statement, in either direction; several drops to one class take as many of the newest. Relations
  that the statement declares itself are not among them. A key that is dropped right after it was
  added is therefore the one that goes.
  Main results: `foldl_dropNewest`, `Effect.dropsNewest` and `Schema.dropped_key_is_newest`.
-/
import SchemaBridge.Proofs.Statement.Undo
import Mathlib.Data.List.DropRight

namespace SchemaBridge

/-! ## The last of a list -/

section Last

variable {α : Type} {l front : List α} {x : α} {n : Nat}

theorem rdrop_append_rtake (l : List α) (n : Nat) : l.rdrop n ++ l.rtake n = l :=
  List.take_append_drop _ _

theorem rtake_succ_of_rdrop (h : l.rdrop n = front ++ [x]) : l.rtake (n + 1) = x :: l.rtake n := by
  have hparts := rdrop_append_rtake l n
  have hlength : l.length = front.length + 1 + n := by
    have hfront := congrArg List.length h
    simp only [List.rdrop, List.length_take, List.length_append, List.length_singleton] at hfront
    omega
  rw [h, List.append_assoc, List.singleton_append] at hparts
  have hstart : l.length - (n + 1) = front.length := by omega
  unfold List.rtake at hparts ⊢
  rw [hstart]
  conv_lhs => rw [← hparts]
  exact List.drop_left

theorem rtake_succ_of_rdrop_eq_nil (h : l.rdrop n = []) : l.rtake (n + 1) = l.rtake n := by
  have hlength : l.length - n = 0 := by
    have hnone := congrArg List.length h
    simp only [List.rdrop, List.length_take, List.length_nil] at hnone
    omega
  unfold List.rtake
  rw [hlength, show l.length - (n + 1) = 0 by omega]

/-- What is not among the last of a list, told by its keys, is what stands before them. -/
theorem filter_not_mem_rtake {β : Type} [DecidableEq α] {l : List (α × β)}
    (hnodup : (l.map Prod.fst).Nodup) (n : Nat) :
    (l.filter fun p => p.1 ∉ (l.map Prod.fst).rtake n) = l.rdrop n := by
  have hkeys : (l.map Prod.fst).rtake n = (l.rtake n).map Prod.fst := by
    unfold List.rtake
    rw [List.length_map, List.map_drop]
  rw [hkeys]
  have hparts := rdrop_append_rtake l n
  rw [← hparts, List.map_append] at hnodup
  have hapart := List.disjoint_of_nodup_append hnodup
  conv_lhs => arg 2; rw [← hparts]
  rw [List.filter_append, List.filter_eq_self.mpr, List.filter_eq_nil_iff.mpr, List.append_nil]
  · intro p hp hnot
    exact of_decide_eq_true hnot (List.mem_map_of_mem hp)
  · intro p hp
    exact decide_eq_true fun hlast => hapart (List.mem_map_of_mem hp) hlast

end Last

/-! ## Dropping one after the other -/

namespace Relation

/-- The numbers of the relations that drops to these classes take: of those to each class as many of
the newest as there are drops. -/
def newest (cls : String) (drops : List String) (relations : List (RelationId × Relation)) :
    List RelationId :=
  drops.flatMap fun other =>
    ((relations.filter fun p => p.2.connects cls other).map Prod.fst).rtake (drops.count other)

variable {cls other : String} {drops : List String} {relations : List (RelationId × Relation)}

theorem mem_newest_iff {id : RelationId} : id ∈ newest cls drops relations ↔ ∃ other,
    id ∈ ((relations.filter fun p => p.2.connects cls other).map Prod.fst).rtake
      (drops.count other) := by
  unfold newest
  rw [List.mem_flatMap]
  refine ⟨fun ⟨other, _, hid⟩ => ⟨other, hid⟩, fun ⟨other, hid⟩ => ⟨other, ?_, hid⟩⟩
  by_contra hnone
  rw [List.count_eq_zero.mpr hnone, List.rtake_zero] at hid
  exact List.not_mem_nil hid

theorem connects_unique {r : Relation} {other' : String} (h : r.connects cls other = true)
    (h' : r.connects cls other' = true) : other = other' := by
  obtain ⟨e, he, rfl⟩ := connects_iff.mp h
  obtain ⟨e', he', rfl⟩ := connects_iff.mp h'
  rw [he] at he'
  cases he'
  rfl

/-- One more drop takes one more relation, if there is one. -/
theorem mem_newest_concat {id : RelationId} : id ∈ newest cls (drops ++ [other]) relations ↔
    id ∈ newest cls drops relations ∨
      id ∈ ((relations.filter fun p => p.2.connects cls other).map Prod.fst).rtake
        (drops.count other + 1) := by
  have hother : (drops ++ [other]).count other = drops.count other + 1 := by
    rw [List.count_append, List.count_singleton_self]
  have hrest : ∀ o, o ≠ other → (drops ++ [other]).count o = drops.count o := by
    intro o hne
    rw [List.count_append, List.count_singleton, if_neg (by simpa using hne.symm), Nat.add_zero]
  rw [mem_newest_iff, mem_newest_iff]
  constructor
  · rintro ⟨o, hid⟩
    by_cases ho : o = other
    · rw [ho, hother] at hid
      exact .inr hid
    · rw [hrest o ho] at hid
      exact .inl ⟨o, hid⟩
  · rintro (⟨o, hid⟩ | hid)
    · refine ⟨o, ?_⟩
      by_cases ho : o = other
      · rw [ho] at hid ⊢
        rw [hother]
        exact List.drop_subset_drop_left _ (by omega) hid
      · rwa [hrest o ho]
    · exact ⟨other, by rwa [hother]⟩

variable (hnodup : (relations.map Prod.fst).Nodup)

include hnodup

/-- A relation to a class is taken by the drops to this class alone. -/
theorem mem_newest_iff_of_connects {p : RelationId × Relation} (hp : p ∈ relations)
    (hconnects : p.2.connects cls other = true) : p.1 ∈ newest cls drops relations ↔
      p.1 ∈ ((relations.filter fun p => p.2.connects cls other).map Prod.fst).rtake
        (drops.count other) := by
  rw [mem_newest_iff]
  refine ⟨fun ⟨other', hid⟩ => ?_, fun hid => ⟨other, hid⟩⟩
  obtain ⟨q, hq, heq⟩ := List.mem_map.mp (List.mem_of_mem_drop hid)
  obtain ⟨hmem, hconnects'⟩ := List.mem_filter.mp hq
  obtain rfl := List.inj_on_of_nodup_map hnodup hmem hp heq
  rwa [connects_unique hconnects hconnects']

/-- The newest relations to a class go, the older ones stay. -/
theorem filter_not_mem_newest (drops : List String) (other : String) :
    ((relations.filter fun p => p.1 ∉ newest cls drops relations).filter
      fun p => p.2.connects cls other) =
        (relations.filter fun p => p.2.connects cls other).rdrop (drops.count other) := by
  have hbetween : ((relations.filter fun p => p.2.connects cls other).map Prod.fst).Nodup :=
    (List.filter_sublist.map Prod.fst).nodup hnodup
  rw [← filter_not_mem_rtake hbetween, List.filter_comm]
  apply List.filter_congr
  intro p hp
  obtain ⟨hmem, hconnects⟩ := List.mem_filter.mp hp
  rw [decide_eq_decide, mem_newest_iff_of_connects hnodup hmem hconnects]

theorem dropNewest_filter_newest (drops : List String) (other : String) :
    dropNewest cls other (relations.filter fun p => p.1 ∉ newest cls drops relations) =
      relations.filter fun p => p.1 ∉ newest cls (drops ++ [other]) relations := by
  have hkeys : ((relations.filter fun p => p.2.connects cls other).map Prod.fst).rdrop
      (drops.count other) =
        ((relations.filter fun p => p.2.connects cls other).rdrop (drops.count other)).map
          Prod.fst := by
    unfold List.rdrop
    rw [List.length_map, List.map_take]
  unfold dropNewest
  rw [filter_not_mem_newest hnodup]
  split
  · rename_i newest' hlast
    obtain ⟨front, hfront⟩ := List.getLast?_eq_some_iff.mp hlast
    rw [hfront, List.map_append, List.map_singleton] at hkeys
    rw [List.filter_filter]
    apply List.filter_congr
    intro p _
    rw [Bool.eq_iff_iff, Bool.and_eq_true, bne_iff_ne, decide_eq_true_iff, decide_eq_true_iff,
      mem_newest_concat, rtake_succ_of_rdrop hkeys, List.mem_cons, not_or, not_or]
    constructor
    · exact fun ⟨hne, hold⟩ => ⟨hold, hne, fun hid => hold (mem_newest_iff.mpr ⟨other, hid⟩)⟩
    · exact fun ⟨hold, hne, _⟩ => ⟨hne, hold⟩
  · rename_i hlast
    rw [List.getLast?_eq_none_iff] at hlast
    rw [hlast, List.map_nil] at hkeys
    apply List.filter_congr
    intro p _
    rw [decide_eq_decide, mem_newest_concat, rtake_succ_of_rdrop_eq_nil hkeys, not_or]
    exact ⟨fun hold => ⟨hold, fun hid => hold (mem_newest_iff.mpr ⟨other, hid⟩)⟩, And.left⟩

/-- Drops one after the other take the newest relations. -/
theorem foldl_dropNewest (drops : List String) :
    drops.foldl (fun rs other => dropNewest cls other rs) relations =
      relations.filter fun p => p.1 ∉ newest cls drops relations := by
  induction drops using List.reverseRecOn with
  | nil => exact (List.filter_eq_self.mpr fun _ _ => rfl).symm
  | append_singleton drops other ih =>
    rw [List.foldl_append, ih]
    exact dropNewest_filter_newest hnodup drops other

omit hnodup in
/-- What was added last goes first. -/
theorem dropNewest_concat {id : RelationId} {r : Relation} (hnew : ∀ p ∈ relations, p.1 ≠ id)
    (hconnects : r.connects cls other = true) :
    dropNewest cls other (relations ++ [(id, r)]) = relations := by
  have hadded : ([(id, r)].filter fun p => p.2.connects cls other) = [(id, r)] :=
    List.filter_cons_of_pos hconnects
  have hlast : ((relations ++ [(id, r)]).filter fun p => p.2.connects cls other).getLast? =
      some (id, r) := by
    rw [List.filter_append, hadded, List.getLast?_concat]
  unfold dropNewest
  rw [hlast]
  dsimp only
  rw [List.filter_append, List.filter_eq_self.mpr fun p hp => bne_iff_ne.mpr (hnew p hp),
    List.filter_cons_of_neg (by simp), List.filter_nil, List.append_nil]

end Relation

theorem Class.without_singleton {column : String} {fields : List Field}
    (h : ∀ f ∈ fields, f.name ≠ column) : without [column] fields = fields :=
  List.eraseP_of_forall_not fun f hf heq => h f hf (beq_iff_eq.mp heq)

namespace Schema

variable {s t : Schema} {name : String}

/-- A class that keeps its fields keeps the outline. -/
theorem outlineWith_fieldsOf (hs : s.Consistent) (hname : name ∈ s.names) :
    s.outlineWith name (s.fieldsOf name) = s.outline := by
  unfold outlineWith
  rw [if_pos hname]
  refine (List.map_congr_left fun e he => ?_).trans (List.map_id _)
  by_cases heq : e.1 = name
  · rw [if_pos heq, ← heq, fieldsOf_of_mem hs he]
    rfl
  · rw [if_neg heq]
    rfl

theorem fieldsOf_of_outline_eq (hs : s.Consistent) (ht : t.Consistent)
    (houtline : t.outline = s.outline) (hname : name ∈ s.names) :
    t.fieldsOf name = s.fieldsOf name := by
  rw [names_eq_outline] at hname
  obtain ⟨e, he, rfl⟩ := List.mem_map.mp hname
  rw [fieldsOf_of_mem hs he, fieldsOf_of_mem ht (houtline ▸ he)]

end Schema

namespace Statement

open Schema (Becomes)

/-! ## What a change drops -/

namespace Summary

/-- The relations that a change declares, with their numbers. -/
def added (m : Summary) (s : Schema) : List (RelationId × Relation) :=
  (m.relations (s.fieldsOf m.cls)).mapIdx fun i r => (s.nextRelation + i, r)

/-- The numbers of the relations that a change drops. -/
def dropped (m : Summary) (s : Schema) : List RelationId :=
  Relation.newest m.cls m.droppedReferences s.relations

end Summary

/-- The relations that a change drops are the newest ones that were there before it; those that it
declares itself come after the rest. -/
structure DropsNewest (m : Summary) (s t : Schema) : Prop where
  relations_eq : t.relations = (s.relations.filter fun p => p.1 ∉ m.dropped s) ++ m.added s
  /-- To each class as many are missing as there are drops, from the end. -/
  between_eq : ∀ other, t.relationsBetween m.cls other =
    (s.relationsBetween m.cls other).rdrop (m.droppedReferences.count other) ++
      ((m.added s).filter fun p => p.2.connects m.cls other).map Prod.fst

variable {m : Summary} {s t u : Schema} {table column related : String} {flags : Flags}

theorem Effect.dropsNewest (h : Effect m s t) (hs : s.Consistent) (haction : m.action = .modify) :
    DropsNewest m s t := by
  have hrelations := (h.becomes_of_change haction).relations_eq
  rw [Relation.foldl_dropNewest hs.ids_nodup] at hrelations
  refine ⟨hrelations, fun other => ?_⟩
  unfold Schema.relationsBetween
  rw [hrelations, List.filter_append, Relation.filter_not_mem_newest hs.ids_nodup, List.map_append]
  unfold List.rdrop
  rw [List.length_map, List.map_take]
  rfl

/-! ## Dropping what was added -/

/-- A key for a column that is no field yet is one more relation. -/
theorem Effect.addRelation_of_key
    (h : Effect ⟨.modify, table, [.reference ⟨related, [column], flags⟩]⟩ s t) (hs : s.Consistent)
    (hname : Naming.className table ∈ s.names)
    (hfree : ∀ f ∈ s.fieldsOf (Naming.className table), f.name ≠ column) :
    ∃ r : Relation, r.connects (Naming.className table) related = true ∧ t = s.addRelation r := by
  have hbecomes := h.becomes_of_modify rfl rfl
  set m : Summary := ⟨.modify, table, [.reference ⟨related, [column], flags⟩]⟩
  have hfields : m.fieldsAfter (s.fieldsOf m.cls) = s.fieldsOf m.cls := by
    show Class.without [] (Class.without [column] (s.fieldsOf m.cls) ++ []) = s.fieldsOf m.cls
    rw [List.append_nil]
    exact Class.without_singleton hfree
  have hkept : s.outlineWith m.cls (s.fieldsOf m.cls) = s.outline :=
    Schema.outlineWith_fieldsOf hs hname
  rw [hfields, hkept] at hbecomes
  refine ⟨m.relationOf (s.fieldsOf m.cls) 0 ⟨related, [column], flags⟩, ?_,
    hbecomes.unique (Schema.becomes_addRelation hs _)⟩
  exact Relation.connects_iff.mpr ⟨_, Relation.ends_of_source rfl, rfl⟩

/-- A change that drops a key and its column, which is no field. -/
theorem Effect.becomes_of_drop
    (h : Effect ⟨.modify, table, [.dropReference related, .dropColumns [column]]⟩ s t)
    (hs : s.Consistent) (hname : Naming.className table ∈ s.names)
    (hfree : ∀ f ∈ s.fieldsOf (Naming.className table), f.name ≠ column) :
    Becomes s t s.outline
      (Relation.dropNewest (Naming.className table) related s.relations) [] := by
  have hbecomes := h.becomes_of_change rfl
  set m : Summary := ⟨.modify, table, [.dropReference related, .dropColumns [column]]⟩
  have hfields : m.fieldsAfter (s.fieldsOf m.cls) = s.fieldsOf m.cls := by
    show Class.without [column] (s.fieldsOf m.cls ++ []) = s.fieldsOf m.cls
    rw [List.append_nil]
    exact Class.without_singleton hfree
  have hkept : s.outlineWith m.cls (s.fieldsOf m.cls) = s.outline :=
    Schema.outlineWith_fieldsOf hs hname
  rwa [hfields, hkept] at hbecomes

/-- A key that is dropped after it was added leaves its number behind. -/
theorem Effect.drop_of_key
    (hadd : Effect ⟨.modify, table, [.reference ⟨related, [column], flags⟩]⟩ s t)
    (hdrop : Effect ⟨.modify, table, [.dropReference related, .dropColumns [column]]⟩ t u)
    (hs : s.Consistent) (hname : Naming.className table ∈ s.names)
    (hfree : ∀ f ∈ s.fieldsOf (Naming.className table), f.name ≠ column) :
    u = { s with nextRelation := s.nextRelation + 1 } := by
  obtain ⟨r, hconnects, rfl⟩ := hadd.addRelation_of_key hs hname hfree
  have houtline := Schema.outline_addRelation s r
  have hfields := Schema.fieldsOf_of_outline_eq hs (hs.addRelation r) houtline hname
  have hname' : Naming.className table ∈ (s.addRelation r).names := by
    rwa [Schema.names_eq_outline, houtline, ← Schema.names_eq_outline]
  have hbecomes := hdrop.becomes_of_drop (hs.addRelation r) hname' (by rwa [hfields])
  rw [houtline, Schema.relations_addRelation, Relation.dropNewest_concat
    (fun p hp => Nat.ne_of_lt (hs.ids_lt p hp)) hconnects] at hbecomes
  apply hbecomes.consistent.ext (hs.advance (Nat.le_succ _)) hbecomes.outline_eq
  · rw [hbecomes.relations_eq]
    exact List.append_nil _
  · rw [hbecomes.next_eq, Schema.nextRelation_addRelation]
    rfl

end Statement

open Statement

/-- On every schema that can arise a key for a new column is gone when it is dropped right after it
was added, whatever other relations there are between the two classes; and a statement that drops
keys drops the newest relations that were there before it, whatever else it declares, in any order.
-/
theorem Schema.dropped_key_is_newest {s : Schema} (hs : s.Reachable) :
    (∀ (table column adding dropping : String) (flags : Flags),
      Naming.className table ∈ s.names →
      (∀ f ∈ s.fieldsOf (Naming.className table), f.name ≠ column) →
      Says adding ⟨.modify, table, [.reference ⟨Naming.relatedClass column, [column], flags⟩]⟩ →
      Says dropping
        ⟨.modify, table, [.dropReference (Naming.relatedClass column), .dropColumns [column]]⟩ →
      ∃ t, s.migrate adding = .ok t ∧
        t.migrate dropping = .ok { s with nextRelation := s.nextRelation + 1 }) ∧
    ∀ (m : Summary) (text : String), m.action = .modify → Says text m →
      ∃ t, s.migrate text = .ok t ∧ DropsNewest m s t := by
  constructor
  · intro table column adding dropping flags hname hfree hadding hdropping
    obtain ⟨t, hadded, ht⟩ := hadding.migrate hs.consistent TableAction.noConfusion
    obtain ⟨u, hdropped, hu⟩ := hdropping.migrate ht.consistent TableAction.noConfusion
    obtain rfl := ht.drop_of_key hu hs.consistent hname hfree
    exact ⟨t, hadded, hdropped⟩
  · intro m text haction hsays
    obtain ⟨t, hchanged, ht⟩ := hsays.migrate hs.consistent (by rw [haction]; decide)
    exact ⟨t, hchanged, ht.dropsNewest hs.consistent haction⟩

namespace Statement

/-- Posts of users, and users with a favourite post. -/
def linkedPosts : Schema :=
  (((Schema.empty.ensureClass "Post").ensureClass "User").addRelation
    ⟨⟨"Post", .any⟩, ⟨"User", .one⟩⟩).addRelation ⟨⟨"User", .any⟩, ⟨"Post", .one⟩⟩

theorem reachable_linkedPosts : linkedPosts.Reachable :=
  .addRelation (.addRelation (.ensureClass (.ensureClass .empty _) _) _) _

def addUser : String :=
  "Schema::table('posts', function ($table) \x7b
    $table->foreignId('user_id')->nullable();
\x7d);"

def dropUser : String :=
  "Schema::table('posts', function ($table) \x7b
    $table->dropForeign(['user_id']);
    $table->dropColumn('user_id');
\x7d);"

/-- The new key is declared before the old one is dropped. -/
def swapUser : String :=
  "Schema::table('posts', function ($table) \x7b
    $table->foreignId('user_id')->unique();
    $table->dropForeign('user_id');
\x7d);"

theorem dropped_key_is_newest_posts : linkedPosts.Reachable ∧
    (∃ t, linkedPosts.migrate addUser = .ok t ∧
      t.migrate dropUser = .ok { linkedPosts with nextRelation := 3 }) ∧
    ∃ t, linkedPosts.migrate swapUser = .ok t ∧ t.relations =
      [(0, ⟨⟨"Post", .any⟩, ⟨"User", .one⟩⟩), (2, ⟨⟨"Post", .zeroOrOne⟩, ⟨"User", .one⟩⟩)] := by
  have hadd : Says addUser
      ⟨.modify, "posts", [.reference ⟨"User", ["user_id"], { nullable := true }⟩]⟩ := by
    decide +kernel
  have hdrop : Says dropUser
      ⟨.modify, "posts", [.dropReference "User", .dropColumns ["user_id"]]⟩ := by
    decide +kernel
  have hswap : Says swapUser ⟨.modify, "posts",
      [.reference ⟨"User", ["user_id"], { unique := true }⟩, .dropReference "User"]⟩ := by
    decide +kernel
  have huser : Naming.relatedClass "user_id" = "User" := by decide +kernel
  obtain ⟨hundone, hnewest⟩ := Schema.dropped_key_is_newest reachable_linkedPosts
  refine ⟨reachable_linkedPosts, ?_, ?_⟩
  · exact hundone "posts" "user_id" addUser dropUser { nullable := true } (by decide +kernel)
      (by decide +kernel) (huser ▸ hadd) (huser ▸ hdrop)
  · obtain ⟨t, hmigrate, ht⟩ := hnewest _ swapUser rfl hswap
    exact ⟨t, hmigrate, ht.relations_eq.trans (by decide +kernel)⟩

end Statement

end SchemaBridge
