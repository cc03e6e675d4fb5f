/-
  Ordering a schema. `Placement.Sound` ties a state of ordering to the schema it began with: nothing
  but deferred relations is missing, the placed and the unplaced classes make up all classes, every
  placed class comes after the classes it refers to, and after a stall no class is ready. A pass and
  a deferral keep it, so it holds in every state that ordering runs through; there the fallback
  that places all classes at once is never taken. Main result: `isCreationOrder_order`.
-/
import SchemaBridge.Proofs.Schema.Outline
import SchemaBridge.Proofs.Schema.Reachable
import SchemaBridge.Schema.CreationOrder

namespace SchemaBridge

/-- `a` stands before `b` in a list. -/
def Precedes (names : List String) (a b : String) : Prop :=
  ∃ i j : Nat, i < j ∧ names[i]? = some a ∧ names[j]? = some b

theorem Precedes.append {names : List String} {a b : String} (h : Precedes names a b)
    (more : List String) : Precedes (names ++ more) a b := by
  obtain ⟨i, j, hlt, hi, hj⟩ := h
  obtain ⟨hil, -⟩ := List.getElem?_eq_some_iff.mp hi
  obtain ⟨hjl, -⟩ := List.getElem?_eq_some_iff.mp hj
  refine ⟨i, j, hlt, ?_, ?_⟩
  · rw [List.getElem?_append_left hil, hi]
  · rw [List.getElem?_append_left hjl, hj]

/-- What stands in the first of two lists stands before what stands in the second. -/
theorem precedes_of_mem {front back : List String} {a b : String} (ha : a ∈ front)
    (hb : b ∈ back) : Precedes (front ++ back) a b := by
  obtain ⟨i, hil, hi⟩ := List.getElem_of_mem ha
  obtain ⟨j, hjl, hj⟩ := List.getElem_of_mem hb
  refine ⟨i, front.length + j, by omega, ?_, ?_⟩
  · rw [List.getElem?_append_left hil, List.getElem?_eq_getElem hil, hi]
  · rw [List.getElem?_append_right (by omega), Nat.add_sub_cancel_left,
      List.getElem?_eq_getElem hjl, hj]

namespace Schema

/-- The class refers by this relation to another class: it stores a key of the class `other`. -/
def RefersBy (s : Schema) (name : String) (id : RelationId) (other : String) : Prop :=
  ∃ r mine theirs, (id, r) ∈ s.relations ∧ r.isSelf = false ∧ r.ends name = some (mine, theirs) ∧
    theirs.cls = other ∧ r.ownership name = some .own

/-- What `order` promises of a schema `s`, the schema `t` that is left and the order `o`. -/
structure IsCreationOrder (s t : Schema) (o : ClassOrder) : Prop where
  /-- Every class of the schema is listed, once. -/
  classes_nodup : o.classes.Nodup
  mem_classes : ∀ name, name ∈ o.classes ↔ name ∈ s.names
  /-- A class comes after every other class that it still refers to. -/
  referenced_first : ∀ name id other, t.RefersBy name id other → name ∈ s.names →
    other ∈ s.names → Precedes o.classes other name
  /-- The schema that is left is the given one with the deferred relations removed. -/
  left_eq : t = o.deferred.foldl (fun u e => u.removeRelation e.1) s
  outline_eq : t.outline = s.outline
  relations_eq : t.relations = s.relations.filter fun e => e.1 ∉ o.deferred.map Prod.fst
  links_eq : ∀ c ∈ t.classes, ∀ d ∈ s.classes, c.name = d.name → ∀ other,
    c.links.get other = (d.links.get other).filter fun id => id ∉ o.deferred.map Prod.fst
  next_eq : t.nextRelation = s.nextRelation
  /-- Deferred relations were live with their very values, and none is deferred twice. -/
  deferred_live : ∀ e ∈ o.deferred, e ∈ s.relations
  deferred_nodup : (o.deferred.map Prod.fst).Nodup
  /-- By a deferred relation one class of the schema refers to another. -/
  deferred_refers : ∀ e ∈ o.deferred, ∃ name ∈ s.names, ∃ other ∈ s.names,
    s.RefersBy name e.1 other

variable {s : Schema}

theorem mem_ids_linksAt (h : s.Consistent) {name : String} {id : RelationId} {other : String} :
    id ∈ (s.linksAt name).get other ↔ name ∈ s.names ∧
      ∃ r, (id, r) ∈ s.relations ∧ ∃ e, r.ends name = some e ∧ e.2.cls = other := by
  unfold linksAt
  cases hf : s.find? name with
  | none =>
    have hn := find?_eq_none_iff.mp hf
    simp [hn]
  | some c =>
    obtain ⟨hc, hname⟩ := find?_some_mem hf
    have hn : name ∈ s.names := List.mem_map.mpr ⟨c, hc, hname⟩
    simp only [Option.map_some, Option.getD_some, hn, true_and]
    rw [h.mem_get_links hc, hname]

theorem canonical_linksAt (h : s.Consistent) (name : String) : (s.linksAt name).Canonical := by
  unfold linksAt
  cases hf : s.find? name with
  | none => exact Links.canonical_nil
  | some c => exact h.links_canonical c (find?_some_mem hf).1

theorem dependsBy_iff (h : s.Consistent) {name : String} {id : RelationId} {r : Relation}
    (hr : (id, r) ∈ s.relations) :
    s.dependsBy name id = true ↔ r.isSelf = false ∧ r.ownership name = some .own := by
  unfold dependsBy
  rw [h.relation?_eq_some_iff.mpr hr]
  simp

/-- A class is held back by the relations through which it refers to a pending class. -/
theorem mem_blocking_iff (h : s.Consistent) {pending : List String} {name : String}
    {id : RelationId} : id ∈ s.blocking pending name ↔
      name ∈ s.names ∧ ∃ other ∈ pending, s.RefersBy name id other := by
  unfold blocking
  rw [List.mem_flatMap]
  constructor
  · rintro ⟨entry, hentry, hid⟩
    split at hid
    · rename_i hpending
      obtain ⟨hmem, hdep⟩ := List.mem_filter.mp hid
      rw [← (canonical_linksAt h name).get_of_mem hentry, mem_ids_linksAt h] at hmem
      obtain ⟨hname, r, hr, ⟨mine, theirs⟩, he, hcls⟩ := hmem
      obtain ⟨hself, hown⟩ := (dependsBy_iff h hr).mp hdep
      exact ⟨hname, entry.1, by simpa using hpending, r, mine, theirs, hr, hself, he, hcls, hown⟩
    · exact absurd hid List.not_mem_nil
  · rintro ⟨hname, other, hother, r, mine, theirs, hr, hself, he, hcls, hown⟩
    have hget : id ∈ (s.linksAt name).get other :=
      (mem_ids_linksAt h).mpr ⟨hname, r, hr, _, he, hcls⟩
    refine ⟨(other, (s.linksAt name).get other),
      Links.mem_of_get_ne_nil (List.ne_nil_of_mem hget), ?_⟩
    rw [if_pos (by simpa using hother)]
    exact List.mem_filter.mpr ⟨hget, (dependsBy_iff h hr).mpr ⟨hself, hown⟩⟩

end Schema

namespace Placement

/-! ## The states that ordering runs through -/

/-- One state of ordering leads to another by rounds, each made while classes are left. -/
inductive Leads : Placement → Placement → Prop
  | refl (p : Placement) : Leads p p
  | round {p q : Placement} (hp : p.unplaced ≠ []) (h : Leads p.round q) : Leads p q

/-- Ordering runs to a state without unplaced classes. -/
theorem leads_run (p : Placement) : p.Leads p.run ∧ p.run.unplaced = [] := by
  fun_induction run p with
  | case1 p h => exact ⟨.refl p, h⟩
  | case2 p h ih => exact ⟨.round h ih.1, ih.2⟩

/-- What every round keeps holds in all states that follow. -/
theorem Leads.keeps {P : Placement → Prop} (hround : ∀ p, p.unplaced ≠ [] → P p → P p.round)
    {p q : Placement} (h : p.Leads q) (hp : P p) : P q := by
  induction h with
  | refl p => exact hp
  | round hne _ ih => exact ih (hround _ hne hp)

/-! ## The invariant -/

/-- How a state of ordering stands to the schema `s` it began with. -/
structure Sound (s : Schema) (p : Placement) : Prop where
  consistent : p.schema.Consistent
  left_eq : p.schema = p.order.deferred.foldl (fun u e => u.removeRelation e.1) s
  outline_eq : p.schema.outline = s.outline
  relations_eq : p.schema.relations =
    s.relations.filter fun e => e.1 ∉ p.order.deferred.map Prod.fst
  next_eq : p.schema.nextRelation = s.nextRelation
  deferred_live : ∀ e ∈ p.order.deferred, e ∈ s.relations
  deferred_nodup : (p.order.deferred.map Prod.fst).Nodup
  deferred_refers : ∀ e ∈ p.order.deferred, ∃ name ∈ s.names, ∃ other ∈ s.names,
    s.RefersBy name e.1 other
  placed : (p.order.classes ++ p.unplaced).Perm s.names
  referenced_first : ∀ name ∈ p.order.classes, ∀ id other, p.schema.RefersBy name id other →
    other ∈ s.names → Precedes p.order.classes other name
  stalled : p.stalled = true → p.ready = []

variable {s : Schema} {p : Placement}

theorem Sound.names_eq (h : p.Sound s) : p.schema.names = s.names := by
  rw [Schema.names_eq_outline, Schema.names_eq_outline, h.outline_eq]

theorem Sound.mem_names (h : p.Sound s) {name : String} :
    name ∈ s.names ↔ name ∈ p.order.classes ∨ name ∈ p.unplaced := by
  rw [← h.placed.mem_iff, List.mem_append]

theorem Sound.unordered (h : s.Consistent) : s.unordered.Sound s where
  consistent := h
  left_eq := rfl
  outline_eq := rfl
  relations_eq := by simp [Schema.unordered]
  next_eq := rfl
  deferred_live _ he := absurd he List.not_mem_nil
  deferred_nodup := List.nodup_nil
  deferred_refers _ he := absurd he List.not_mem_nil
  placed := List.Perm.refl _
  referenced_first _ hn := absurd hn List.not_mem_nil
  stalled hst := Bool.noConfusion hst

theorem perm_ready_append_blocked (p : Placement) : (p.ready ++ p.blocked).Perm p.unplaced :=
  List.filter_append_perm (fun c => (p.schema.blocking p.unplaced c).isEmpty) p.unplaced

/-- When no class is ready, all are blocked. -/
theorem blocked_of_ready_eq_nil (h : p.ready = []) : p.blocked = p.unplaced := by
  unfold blocked
  apply List.filter_eq_self.mpr
  intro c hc
  have hnot := List.filter_eq_nil_iff.mp h c hc
  simpa using hnot

/-- A class that is placed refers only to classes placed in earlier passes. -/
theorem Sound.placed_of_ready (h : p.Sound s) {name : String} (hname : name ∈ p.ready)
    {id : RelationId} {other : String} (href : p.schema.RefersBy name id other)
    (hother : other ∈ s.names) : other ∈ p.order.classes := by
  obtain ⟨hun, hempty⟩ := List.mem_filter.mp hname
  rw [List.isEmpty_iff] at hempty
  rcases h.mem_names.mp hother with hplaced | hpending
  · exact hplaced
  · have hmem : name ∈ p.schema.names := by
      rw [h.names_eq, h.mem_names]
      exact .inr hun
    have hblock := (Schema.mem_blocking_iff h.consistent).mpr ⟨hmem, other, hpending, href⟩
    rw [hempty] at hblock
    exact absurd hblock List.not_mem_nil

theorem Sound.pass (h : p.Sound s) : p.pass.Sound s where
  consistent := h.consistent
  left_eq := h.left_eq
  outline_eq := h.outline_eq
  relations_eq := h.relations_eq
  next_eq := h.next_eq
  deferred_live := h.deferred_live
  deferred_nodup := h.deferred_nodup
  deferred_refers := h.deferred_refers
  placed := by
    have hperm := (perm_ready_append_blocked p).append_left p.order.classes
    rw [← List.append_assoc] at hperm
    exact hperm.trans h.placed
  referenced_first := by
    intro name hname id other href hother
    rcases List.mem_append.mp hname with hold | hnew
    · exact (h.referenced_first name hold id other href hother).append _
    · exact precedes_of_mem (h.placed_of_ready hnew href hother) hnew
  stalled := by
    intro hst
    have hready : p.ready = [] := List.isEmpty_iff.mp hst
    have hsame : p.pass.ready = p.ready := by
      unfold ready Placement.pass
      dsimp only
      rw [blocked_of_ready_eq_nil hready]
    rw [hsame, hready]

theorem refersBy_of_removeRelation {t : Schema} (h : t.Consistent) {id : RelationId} {r : Relation}
    (hr : (id, r) ∈ t.relations) {name other : String} {i : RelationId}
    (href : (t.removeRelation id).RefersBy name i other) : t.RefersBy name i other := by
  obtain ⟨r', mine, theirs, hr', hrest⟩ := href
  rw [h.removeRelation_eq hr] at hr'
  exact ⟨r', mine, theirs, (List.mem_filter.mp hr').1, hrest⟩

theorem Sound.refersBy (h : p.Sound s) {name other : String} {id : RelationId}
    (href : p.schema.RefersBy name id other) : s.RefersBy name id other := by
  obtain ⟨r, mine, theirs, hr, hrest⟩ := href
  rw [h.relations_eq] at hr
  exact ⟨r, mine, theirs, (List.mem_filter.mp hr).1, hrest⟩

/-- The deferral of a live relation between two unplaced classes. The result is not stalled in the
sense of the invariant, since classes may have become ready; the pass that follows settles that. -/
theorem Sound.defer (h : p.Sound s) {id : RelationId} {r : Relation}
    (hr : (id, r) ∈ p.schema.relations) {name other : String} (hname : name ∈ p.unplaced)
    (hother : other ∈ p.unplaced) (href : p.schema.RefersBy name id other) :
    ({ p.defer id r with stalled := false }).Sound s where
  consistent := h.consistent.removeRelation id
  left_eq := by
    simp only [Placement.defer, List.foldl_append, List.foldl_cons, List.foldl_nil]
    rw [← h.left_eq]
  outline_eq := (Schema.outline_removeRelation h.consistent id).trans h.outline_eq
  relations_eq := by
    simp only [Placement.defer]
    rw [h.consistent.removeRelation_eq hr, h.relations_eq, List.filter_filter]
    apply List.filter_congr
    intro e _
    simp only [List.map_append, List.map_singleton, List.mem_append, List.mem_singleton]
    by_cases h1 : e.1 = id <;> simp [h1]
  next_eq := by
    simp only [Placement.defer]
    rw [h.consistent.removeRelation_eq hr]
    exact h.next_eq
  deferred_live := by
    intro e he
    rcases List.mem_append.mp he with he | he
    · exact h.deferred_live e he
    · rw [List.mem_singleton.mp he]
      rw [h.relations_eq] at hr
      exact (List.mem_filter.mp hr).1
  deferred_nodup := by
    rw [h.relations_eq] at hr
    have hnew := (List.mem_filter.mp hr).2
    simp only [Placement.defer, List.map_append, List.map_singleton]
    rw [List.nodup_append]
    refine ⟨h.deferred_nodup, List.nodup_singleton _, ?_⟩
    rintro a ha b hb rfl
    rw [List.mem_singleton.mp hb] at ha
    simp only [decide_eq_true_eq] at hnew
    exact hnew ha
  deferred_refers := by
    intro e he
    rcases List.mem_append.mp he with he | he
    · exact h.deferred_refers e he
    · rw [List.mem_singleton.mp he]
      exact ⟨name, h.mem_names.mpr (.inr hname), other, h.mem_names.mpr (.inr hother),
        h.refersBy href⟩
  placed := h.placed
  referenced_first := by
    intro name hname i other href hother
    exact h.referenced_first name hname i other
      (refersBy_of_removeRelation h.consistent hr href) hother
  stalled hst := Bool.noConfusion hst

/-- A pass does not ask whether the last one stalled. -/
theorem pass_with_stalled (p : Placement) (b : Bool) :
    ({ p with stalled := b } : Placement).pass = p.pass := rfl

/-- The relation that is deferred holds back one unplaced class by another. -/
theorem Sound.deferral_refers (h : p.Sound s) {id : RelationId} {r : Relation}
    (hd : p.deferral = some (id, r)) : (id, r) ∈ p.schema.relations ∧
      ∃ name ∈ p.unplaced, ∃ other ∈ p.unplaced, p.schema.RefersBy name id other := by
  refine ⟨Schema.relation?_some_mem (deferral_live hd), ?_⟩
  unfold deferral at hd
  cases hf : p.schema.firstBlocking p.unplaced with
  | none =>
    rw [hf] at hd
    cases hd
  | some i =>
    rw [hf] at hd
    obtain ⟨r', -, heq⟩ := Option.map_eq_some_iff.mp hd
    cases heq
    obtain ⟨name, hname, hblock⟩ := List.mem_flatMap.mp (List.mem_of_head? hf)
    obtain ⟨-, other, hother, href⟩ := (Schema.mem_blocking_iff h.consistent).mp hblock
    exact ⟨name, hname, other, hother, href⟩

/-- After a pass that placed no class some relation can be deferred, so that the fallback is never
taken: a class that is not ready is held back by a live relation. -/
theorem Sound.deferral_isSome (h : p.Sound s) (hst : p.stalled = true) (hne : p.unplaced ≠ []) :
    ∃ id r, p.deferral = some (id, r) := by
  obtain ⟨c, hc⟩ := List.exists_mem_of_ne_nil _ hne
  have hblock : p.schema.blocking p.unplaced c ≠ [] := by
    have hnot := List.filter_eq_nil_iff.mp (h.stalled hst) c hc
    simpa using hnot
  obtain ⟨i, hi⟩ := List.exists_mem_of_ne_nil _ hblock
  have hall : p.unplaced.flatMap (p.schema.blocking p.unplaced) ≠ [] :=
    List.ne_nil_of_mem (List.mem_flatMap.mpr ⟨c, hc, hi⟩)
  obtain ⟨id, hid⟩ := Option.isSome_iff_exists.mp (List.isSome_head?.mpr hall)
  obtain ⟨d, -, hd⟩ := List.mem_flatMap.mp (List.mem_of_head? hid)
  obtain ⟨r, hr⟩ := Schema.mem_blocking_live hd
  refine ⟨id, r, ?_⟩
  unfold deferral Schema.firstBlocking
  rw [hid]
  simp [hr]

theorem Sound.round (h : p.Sound s) (hne : p.unplaced ≠ []) : p.round.Sound s := by
  unfold Placement.round
  split
  · rename_i hst
    obtain ⟨id, r, hd⟩ := h.deferral_isSome hst hne
    obtain ⟨hr, name, hname, other, hother, href⟩ := h.deferral_refers hd
    rw [hd]
    dsimp only
    rw [← pass_with_stalled (p.defer id r) false]
    exact (h.defer hr hname hother href).pass
  · exact h.pass

theorem Sound.of_leads {q : Placement} (h : p.Sound s) (hq : p.Leads q) : q.Sound s :=
  hq.keeps (fun _ hne hp => hp.round hne) h

end Placement

namespace Schema

variable {s : Schema}

theorem sound_run (h : s.Consistent) : s.unordered.run.Sound s :=
  (Placement.Sound.unordered h).of_leads (Placement.leads_run _).1

theorem consistent_order (h : s.Consistent) : s.order.1.Consistent :=
  (sound_run h).consistent

/-- Ordering removes relations one after the other and does nothing else to the schema. -/
theorem edits_order (s : Schema) : Edits s s.order.1 := by
  have hround : ∀ p : Placement, p.unplaced ≠ [] → Edits s p.schema → Edits s p.round.schema := by
    intro p _ h
    unfold Placement.round
    split
    · split
      · exact h
      · exact h.tail (.removeRelation p.schema _)
    · exact h
  exact (Placement.leads_run s.unordered).1.keeps hround .refl

/-- Links lose exactly the relations that the schema loses. -/
theorem get_links_of_relations_eq {t : Schema} (hs : s.Consistent) (ht : t.Consistent)
    {gone : List RelationId} (hrelations : t.relations = s.relations.filter fun e => e.1 ∉ gone)
    {c d : Class} (hc : c ∈ t.classes) (hd : d ∈ s.classes) (hname : c.name = d.name)
    (other : String) :
    c.links.get other = (d.links.get other).filter fun id => id ∉ gone := by
  rw [ht.get_links c hc, hs.get_links d hd, hname]
  unfold relationsBetween
  rw [hrelations, List.filter_map, List.filter_filter, List.filter_filter]
  congr 1
  apply List.filter_congr
  intro e _
  exact Bool.and_comm _ _

theorem isCreationOrder_order (h : s.Consistent) : IsCreationOrder s s.order.1 s.order.2 := by
  have hsound := sound_run h
  have hunplaced := (Placement.leads_run s.unordered).2
  have hplaced := hsound.placed
  rw [hunplaced, List.append_nil] at hplaced
  constructor
  · exact hplaced.nodup_iff.mpr h.names_nodup
  · exact fun name => hplaced.mem_iff
  · intro name id other href hname hother
    exact hsound.referenced_first name (hplaced.mem_iff.mpr hname) id other href hother
  · exact hsound.left_eq
  · exact hsound.outline_eq
  · exact hsound.relations_eq
  · intro c hc d hd hname other
    exact get_links_of_relations_eq h hsound.consistent hsound.relations_eq hc hd hname other
  · exact hsound.next_eq
  · exact hsound.deferred_live
  · exact hsound.deferred_nodup
  · exact hsound.deferred_refers

/-- Ordering ends: from the unordered schema, rounds lead to a state with every class placed, which
is the result. The result is a creation order, and in no state on the way is a relation to defer
looked for in vain. -/
theorem order_ends_in_creation_order (h : s.Reachable) :
    (∃ q, s.unordered.Leads q ∧ q.unplaced = [] ∧ s.order = (q.schema, q.order)) ∧
      IsCreationOrder s s.order.1 s.order.2 ∧
      ∀ q, s.unordered.Leads q → q.stalled = true → q.unplaced ≠ [] →
        ∃ id r, q.deferral = some (id, r) := by
  have hrun := Placement.leads_run s.unordered
  refine ⟨⟨s.unordered.run, hrun.1, hrun.2, rfl⟩, isCreationOrder_order h.consistent, ?_⟩
  intro q hq hst hne
  exact ((Placement.Sound.unordered h.consistent).of_leads hq).deferral_isSome hst hne

/-- Two classes that refer to each other, and one that refers to itself and to a class outside. -/
def crossed : Schema :=
  ((((((empty.ensureClass "A").ensureClass "B").ensureClass "C").addRelation
    ⟨⟨"A", .any⟩, ⟨"B", .one⟩⟩).addRelation ⟨⟨"B", .zeroOrOne⟩, ⟨"A", .one⟩⟩).addRelation
    ⟨⟨"C", .any⟩, ⟨"C", .zeroOrOne⟩⟩).addRelation ⟨⟨"C", .any⟩, ⟨"D", .one⟩⟩

theorem reachable_crossed : crossed.Reachable :=
  (((((((Reachable.empty.ensureClass _).ensureClass _).ensureClass _).addRelation _).addRelation
    _).addRelation _).addRelation _)

theorem order_ends_for_crossed : crossed.Reachable ∧
    (∃ q, crossed.unordered.Leads q ∧ q.unplaced = [] ∧ crossed.order = (q.schema, q.order)) ∧
      IsCreationOrder crossed crossed.order.1 crossed.order.2 ∧
      ∀ q, crossed.unordered.Leads q → q.stalled = true → q.unplaced ≠ [] →
        ∃ id r, q.deferral = some (id, r) :=
  ⟨reachable_crossed, order_ends_in_creation_order reachable_crossed⟩

end Schema

end SchemaBridge
