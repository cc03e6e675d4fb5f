/-
  What ordering takes out of a schema. A relation is taken out only when each class left depends on
  another one left, so the classes of a finite schema without circles are placed with all relations
  in it, and what has been ordered once is not changed by ordering it again. `Placement.Counted`
  counts passes: each of them places a class, or a relation is taken out right after it.
  `Placement.Whole` says that relations are taken out class by class: of the keys that one class
  stores of another either all are deferred or none.
  Main results: `defersOnCircles_order` and `not_refersBy_of_deferred`.
-/
import SchemaBridge.Proofs.Schema.CreationOrder
import SchemaBridge.Proofs.Schema.Ownership
import Mathlib.Data.Fintype.EquivFin
import Mathlib.Order.WellFounded

namespace SchemaBridge

namespace Schema

/-! ## Dependence -/

/-- One class of the schema stores a key of another. -/
def DependsOn (s : Schema) (name other : String) : Prop :=
  name ∈ s.names ∧ other ∈ s.names ∧ ∃ id, s.RefersBy name id other

/-- No class depends on itself by way of others. -/
def Acyclic (s : Schema) : Prop :=
  ∀ name, ¬ Relation.TransGen s.DependsOn name name

/-- From the class one comes to a class that depends on itself by way of others. -/
def LeadsToCircle (s : Schema) (name : String) : Prop :=
  ∃ round, Relation.ReflTransGen s.DependsOn name round ∧ Relation.TransGen s.DependsOn round round

/-- Some classes, each of which depends on another of them. -/
structure Entangled (s : Schema) (names : List String) : Prop where
  ne_nil : names ≠ []
  depends : ∀ name ∈ names, ∃ other ∈ names, other ≠ name ∧ s.DependsOn name other

/-- The schema just before the relation with this place among the deferred ones is taken out. -/
def beforeDeferral (s : Schema) (o : ClassOrder) (k : Nat) : Schema :=
  (o.deferred.take k).foldl (fun u e => u.removeRelation e.1) s

/-- What ordering a schema `s` takes out of it, leaving the schema `t` with the order `o`. -/
structure DefersOnCircles (s t : Schema) (o : ClassOrder) : Prop where
  deferred_eq_nil_iff : o.deferred = [] ↔ s.Acyclic
  /-- For each relation taken out there is a list of classes, all entangled just before. -/
  length_cycles : o.cycles.length = o.deferred.length
  entangled : ∀ k cycle, o.cycles[k]? = some cycle → (s.beforeDeferral o k).Entangled cycle
  passes_le : o.passes ≤ s.classes.length + o.deferred.length
  /-- Ordering once more takes nothing out. -/
  again : t.order.2.deferred = [] ∧ t.order.1 = t

variable {s t : Schema}

theorem RefersBy.ne {name other : String} {id : RelationId} (h : s.RefersBy name id other) :
    other ≠ name := by
  obtain ⟨r, mine, theirs, -, hself, he, rfl, -⟩ := h
  intro heq
  rw [(Relation.isSelf_iff_of_ends he).mpr heq] at hself
  cases hself

/-- A relation tells which class refers to which. -/
theorem RefersBy.unique (hs : s.Consistent) {name other name' other' : String} {id : RelationId}
    (h : s.RefersBy name id other) (h' : s.RefersBy name' id other') :
    name = name' ∧ other = other' := by
  obtain ⟨r, mine, theirs, hr, -, he, rfl, hown⟩ := h
  obtain ⟨r', mine', theirs', hr', -, he', rfl, hown'⟩ := h'
  obtain rfl := hs.relation_unique hr hr'
  obtain rfl := Relation.owner_unique hown hown'
  rw [he] at he'
  cases he'
  exact ⟨rfl, rfl⟩

theorem refersBy_removeRelation (hs : s.Consistent) {name other : String} {i id : RelationId}
    {r : Relation} (hr : (id, r) ∈ s.relations) (h : s.RefersBy name i other) (hne : i ≠ id) :
    (s.removeRelation id).RefersBy name i other := by
  obtain ⟨r', mine, theirs, hr', hrest⟩ := h
  refine ⟨r', mine, theirs, ?_, hrest⟩
  rw [hs.removeRelation_eq hr]
  exact List.mem_filter.mpr ⟨hr', by simpa using hne⟩

/-- Dependence can be tested: the class is held back by the other one alone. -/
theorem dependsOn_iff_blocking (h : s.Consistent) {name other : String} : s.DependsOn name other ↔
    other ∈ s.names ∧ s.blocking [other] name ≠ [] := by
  constructor
  · rintro ⟨hname, hother, id, hrefers⟩
    refine ⟨hother, List.ne_nil_of_mem (a := id) ?_⟩
    exact (mem_blocking_iff h).mpr ⟨hname, other, List.mem_singleton_self other, hrefers⟩
  · rintro ⟨hother, hne⟩
    obtain ⟨id, hid⟩ := List.exists_mem_of_ne_nil _ hne
    obtain ⟨hname, other', hmem, hrefers⟩ := (mem_blocking_iff h).mp hid
    rw [List.mem_singleton.mp hmem] at hrefers
    exact ⟨hname, hother, id, hrefers⟩

/-! ## Circles -/

/-- Following what the classes of a list depend on within the list, one comes round. -/
theorem Entangled.leadsToCircle {names : List String} (h : s.Entangled names) {name : String}
    (hname : name ∈ names) : s.LeadsToCircle name := by
  by_contra hnone
  let Reached := {c // c ∈ names ∧ Relation.ReflTransGen s.DependsOn name c}
  let follows : Reached → Reached → Prop := fun a b => Relation.TransGen s.DependsOn b.1 a.1
  have : Finite Reached :=
    Finite.of_injective (fun c => (⟨c.1, c.2.1⟩ : {c // c ∈ names})) fun _ _ heq =>
      Subtype.ext (Subtype.mk.inj heq)
  have : IsTrans _ follows := ⟨fun _ _ _ hab hbc => hbc.trans hab⟩
  have : Std.Irrefl follows := ⟨fun a hround => hnone ⟨a.1, a.2.2, hround⟩⟩
  have hwf : WellFounded follows := Finite.wellFounded_of_trans_of_irrefl follows
  obtain ⟨last, -, hlast⟩ := hwf.has_min Set.univ ⟨⟨name, hname, .refl⟩, trivial⟩
  obtain ⟨other, hother, -, hdepends⟩ := h.depends last.1 last.2.1
  exact hlast ⟨other, hother, last.2.2.tail hdepends⟩ trivial (.single hdepends)

theorem Entangled.not_acyclic {names : List String} (h : s.Entangled names) : ¬ s.Acyclic := by
  intro hacyclic
  obtain ⟨first, hfirst⟩ := List.exists_mem_of_ne_nil _ h.ne_nil
  obtain ⟨round, -, hround⟩ := h.leadsToCircle hfirst
  exact hacyclic round hround

theorem idxOf_lt_of_precedes {names : List String} (hnodup : names.Nodup) {a b : String}
    (h : Precedes names a b) : names.idxOf a < names.idxOf b := by
  obtain ⟨i, j, hij, hi, hj⟩ := h
  obtain ⟨hil, rfl⟩ := List.getElem?_eq_some_iff.mp hi
  obtain ⟨hjl, rfl⟩ := List.getElem?_eq_some_iff.mp hj
  rwa [hnodup.idxOf_getElem, hnodup.idxOf_getElem]

theorem IsCreationOrder.names_eq {o : ClassOrder} (ho : s.IsCreationOrder t o) :
    t.names = s.names := by
  rw [names_eq_outline, names_eq_outline, ho.outline_eq]

/-- A schema in which every class has a place after those it depends on has no circles. -/
theorem IsCreationOrder.acyclic {o : ClassOrder} (ho : s.IsCreationOrder t o) : t.Acyclic := by
  have hfalls : ∀ a b, Relation.TransGen t.DependsOn a b →
      o.classes.idxOf b < o.classes.idxOf a := by
    intro a b h
    have hstep : ∀ c d, t.DependsOn c d → o.classes.idxOf d < o.classes.idxOf c := by
      rintro c d ⟨hc, hd, id, hrefers⟩
      rw [ho.names_eq] at hc hd
      exact idxOf_lt_of_precedes ho.classes_nodup (ho.referenced_first c id d hrefers hc hd)
    induction h with
    | single h => exact hstep _ _ h
    | tail _ h ih => exact (hstep _ _ h).trans ih
  exact fun name h => lt_irrefl _ (hfalls name name h)

end Schema

namespace Placement

variable {s : Schema} {p : Placement}

/-! ## Stalls -/

/-- When a pass has placed no class, each class left is held back. -/
theorem Sound.blocking_ne_nil (h : p.Sound s) (hst : p.stalled = true) {name : String}
    (hname : name ∈ p.unplaced) : p.schema.blocking p.unplaced name ≠ [] := by
  have hnot := List.filter_eq_nil_iff.mp (h.stalled hst) name hname
  simpa using hnot

/-- Then each depends on another one left. -/
theorem Sound.entangled (h : p.Sound s) (hst : p.stalled = true) (hne : p.unplaced ≠ []) :
    p.schema.Entangled p.unplaced := by
  refine ⟨hne, fun name hname => ?_⟩
  obtain ⟨id, hid⟩ := List.exists_mem_of_ne_nil _ (h.blocking_ne_nil hst hname)
  obtain ⟨hmem, other, hother, hrefers⟩ := (Schema.mem_blocking_iff h.consistent).mp hid
  refine ⟨other, hother, hrefers.ne, hmem, ?_, id, hrefers⟩
  rw [h.names_eq, h.mem_names]
  exact .inr hother

/-- A class left that still refers to a class left is not ready. -/
theorem Sound.not_mem_ready (h : p.Sound s) {name other : String} {id : RelationId}
    (hname : name ∈ p.unplaced) (hother : other ∈ p.unplaced)
    (hrefers : p.schema.RefersBy name id other) : name ∉ p.ready := by
  intro hready
  have hempty := (List.mem_filter.mp hready).2
  have hmem : name ∈ p.schema.names := by
    rw [h.names_eq, h.mem_names]
    exact .inr hname
  have hblock := (Schema.mem_blocking_iff h.consistent).mpr ⟨hmem, other, hother, hrefers⟩
  rw [List.isEmpty_iff.mp hempty] at hblock
  exact List.not_mem_nil hblock

/-- The key that is deferred after a stall is the first that holds back the first class left. -/
theorem Sound.deferral_head (h : p.Sound s) (hst : p.stalled = true) {id : RelationId}
    {r : Relation} (hd : p.deferral = some (id, r)) : ∃ first,
      p.unplaced.head? = some first ∧ (p.schema.blocking p.unplaced first).head? = some id := by
  unfold deferral Schema.firstBlocking at hd
  cases hun : p.unplaced with
  | nil =>
    rw [hun] at hd
    cases hd
  | cons first rest =>
    have hfirst : first ∈ p.unplaced := hun ▸ List.mem_cons_self
    obtain ⟨i, is, hcons⟩ := List.exists_cons_of_ne_nil (h.blocking_ne_nil hst hfirst)
    have hhead : (p.unplaced.flatMap (p.schema.blocking p.unplaced)).head? = some i := by
      conv_lhs => arg 1; arg 2; rw [hun]
      rw [List.flatMap_cons, hcons]
      rfl
    rw [hhead] at hd
    obtain ⟨r', -, heq⟩ := Option.map_eq_some_iff.mp hd
    cases heq
    refine ⟨first, rfl, ?_⟩
    rw [← hun, hcons]
    rfl

theorem Sound.deferral_first (h : p.Sound s) (hst : p.stalled = true) {id : RelationId}
    {r : Relation} (hd : p.deferral = some (id, r)) : ∃ first other,
      p.unplaced.head? = some first ∧ other ∈ p.unplaced ∧
        p.schema.RefersBy first id other := by
  obtain ⟨first, hfirst, hid⟩ := h.deferral_head hst hd
  obtain ⟨-, other, hother, hrefers⟩ :=
    (Schema.mem_blocking_iff h.consistent).mp (List.mem_of_head? hid)
  exact ⟨first, other, hfirst, hother, hrefers⟩

/-! ## Passes and deferrals -/

/-- What a state of ordering has cost so far. -/
structure Counted (s : Schema) (p : Placement) : Prop where
  length_cycles : p.order.cycles.length = p.order.deferred.length
  entangled : ∀ k cycle, p.order.cycles[k]? = some cycle →
    (s.beforeDeferral p.order k).Entangled cycle
  /-- A pass that placed no class is paid for by the deferral that follows. -/
  passes_le : p.order.passes + p.unplaced.length ≤
    s.classes.length + p.order.deferred.length + if p.stalled then 1 else 0
  unplaced_ne_nil : p.stalled = true → p.unplaced ≠ []

theorem Counted.unordered (s : Schema) : s.unordered.Counted s where
  length_cycles := rfl
  entangled _ _ h := by cases h
  passes_le := by simp [Schema.unordered]
  unplaced_ne_nil h := Bool.noConfusion h

theorem Counted.pass (h : p.Counted s) (hst : p.stalled = false) (hne : p.unplaced ≠ []) :
    p.pass.Counted s where
  length_cycles := h.length_cycles
  entangled := h.entangled
  passes_le := by
    have hpaid := h.passes_le
    have hparts := length_ready_add_blocked p
    rw [hst] at hpaid
    simp only [Placement.pass, Bool.false_eq_true, if_false] at hpaid ⊢
    by_cases hready : p.ready = []
    · simp only [hready, List.length_nil, List.isEmpty_nil, if_true] at hparts ⊢
      omega
    · have hplaced := List.length_pos_iff.mpr hready
      simp only [List.isEmpty_iff, hready, if_false]
      omega
  unplaced_ne_nil := by
    intro hstalled
    have hblocked : p.pass.unplaced = p.unplaced :=
      blocked_of_ready_eq_nil (List.isEmpty_iff.mp hstalled)
    rwa [hblocked]

/-- The schema before a deferral is settled by the deferrals before it. -/
theorem beforeDeferral_defer (s : Schema) (p : Placement) (id : RelationId) (r : Relation) {k : Nat}
    (hk : k ≤ p.order.deferred.length) :
    s.beforeDeferral (p.defer id r).order k = s.beforeDeferral p.order k := by
  unfold Schema.beforeDeferral Placement.defer
  rw [List.take_append_of_le_length hk]

theorem Counted.defer (h : p.Counted s) (hs : p.Sound s) (hst : p.stalled = true)
    (id : RelationId) (r : Relation) : ({ p.defer id r with stalled := false }).Counted s where
  length_cycles := by
    simp only [Placement.defer, List.length_append, List.length_singleton, h.length_cycles]
  entangled := by
    intro k cycle hk
    have hsame : s.beforeDeferral ({ p.defer id r with stalled := false } : Placement).order k =
        s.beforeDeferral p.order k := by
      apply beforeDeferral_defer
      have hlt := (List.getElem?_eq_some_iff.mp hk).1
      simp only [Placement.defer, List.length_append, List.length_singleton] at hlt
      have hlength := h.length_cycles
      omega
    rw [hsame]
    simp only [Placement.defer] at hk
    by_cases hold : k < p.order.cycles.length
    · rw [List.getElem?_append_left hold] at hk
      exact h.entangled k cycle hk
    · -- The last cycle is what was left unplaced just before the last deferral.
      rw [List.getElem?_append_right (by omega)] at hk
      have hzero : k - p.order.cycles.length = 0 := by
        have hlt := (List.getElem?_eq_some_iff.mp hk).1
        rw [List.length_singleton] at hlt
        omega
      rw [hzero] at hk
      cases hk
      have hall : s.beforeDeferral p.order k = p.schema := by
        unfold Schema.beforeDeferral
        have hlength := h.length_cycles
        rw [List.take_of_length_le (by omega), ← hs.left_eq]
      rw [hall]
      exact hs.entangled hst (h.unplaced_ne_nil hst)
  passes_le := by
    have hpaid := h.passes_le
    rw [hst] at hpaid
    simp only [Placement.defer, List.length_append, List.length_singleton, if_true,
      Bool.false_eq_true, if_false] at hpaid ⊢
    omega
  unplaced_ne_nil h := Bool.noConfusion h

theorem Counted.round (h : p.Counted s) (hs : p.Sound s) (hne : p.unplaced ≠ []) :
    p.round.Counted s := by
  unfold Placement.round
  split
  · rename_i hst
    obtain ⟨id, r, hd⟩ := hs.deferral_isSome hst hne
    rw [hd]
    dsimp only
    rw [← pass_with_stalled (p.defer id r) false]
    exact (h.defer hs hst id r).pass rfl hne
  · rename_i hst
    exact h.pass (Bool.eq_false_iff.mpr hst) hne

/-! ## Deferral class by class -/

/-- While only some of the keys of one class to another are deferred, nothing else is done: the
class is the first one left, and no pass places a class. -/
def Whole (s : Schema) (p : Placement) : Prop :=
  ∀ name other id left, id ∈ p.order.deferred.map Prod.fst → s.RefersBy name id other →
    p.schema.RefersBy name left other →
      p.stalled = true ∧ p.unplaced.head? = some name ∧ other ∈ p.unplaced

theorem Whole.unordered (s : Schema) : s.unordered.Whole s :=
  fun _ _ _ _ hid => absurd hid List.not_mem_nil

/-- When a key of the first class left has been deferred and it has another, no class is ready: the
first is held back by the other key, and the rest have lost none. -/
theorem Sound.ready_defer (hs : p.Sound s) (hst : p.stalled = true) {name referred other : String}
    {id left : RelationId} {r : Relation} (hr : (id, r) ∈ p.schema.relations)
    (hname : name ∈ p.unplaced) (hreferred : referred ∈ p.unplaced)
    (hdeferred : p.schema.RefersBy name id referred) (hother : other ∈ p.unplaced)
    (hleft : (p.defer id r).schema.RefersBy name left other) : (p.defer id r).ready = [] := by
  have hdefer := hs.defer hr hname hreferred hdeferred
  apply List.filter_eq_nil_iff.mpr
  intro c hcun hempty
  have hcready : c ∈ ({ p.defer id r with stalled := false } : Placement).ready :=
    List.mem_filter.mpr ⟨hcun, hempty⟩
  by_cases hc : c = name
  · subst hc
    exact hdefer.not_mem_ready hcun hother hleft hcready
  · obtain ⟨i, hi⟩ := List.exists_mem_of_ne_nil _ (hs.blocking_ne_nil hst hcun)
    obtain ⟨-, other', hother', hrefers⟩ := (Schema.mem_blocking_iff hs.consistent).mp hi
    have hkept : i ≠ id := by
      rintro rfl
      exact hc (hrefers.unique hs.consistent hdeferred).1
    exact hdefer.not_mem_ready hcun hother'
      (Schema.refersBy_removeRelation hs.consistent hr hrefers hkept) hcready

/-- If the class that has lost a key has more to the same class, the next round defers one of
them. -/
theorem Whole.defer (h : p.Whole s) (hc : s.Consistent) (hs : p.Sound s) (hst : p.stalled = true)
    {id : RelationId} {r : Relation} (hd : p.deferral = some (id, r)) :
    (p.defer id r).pass.Whole s := by
  intro name other i left hi href hleft
  obtain ⟨hr, -⟩ := hs.deferral_refers hd
  obtain ⟨first, referred, hfirst, hreferred, hdeferred⟩ := hs.deferral_first hst hd
  have hleft' : p.schema.RefersBy name left other :=
    refersBy_of_removeRelation hs.consistent hr hleft
  have hplace : p.unplaced.head? = some name ∧ other ∈ p.unplaced := by
    change i ∈ (p.order.deferred ++ [(id, r)]).map Prod.fst at hi
    rw [List.map_append, List.mem_append] at hi
    rcases hi with hold | hnew
    · exact (h name other i left hold href hleft').2
    · rw [List.map_singleton, List.mem_singleton] at hnew
      subst hnew
      obtain ⟨rfl, rfl⟩ := (hs.refersBy hdeferred).unique hc href
      exact ⟨hfirst, hreferred⟩
  have hready : (p.defer id r).ready = [] := by
    have hname : first = name := Option.some.inj (hfirst.symm.trans hplace.1)
    exact hs.ready_defer hst hr (List.mem_of_head? hfirst) hreferred hdeferred hplace.2
      (hname ▸ hleft)
  refine ⟨List.isEmpty_iff.mpr hready, ?_⟩
  have hsame : (p.defer id r).pass.unplaced = p.unplaced := blocked_of_ready_eq_nil hready
  rwa [hsame]

theorem Whole.round (h : p.Whole s) (hc : s.Consistent) (hs : p.Sound s) (hne : p.unplaced ≠ []) :
    p.round.Whole s := by
  unfold Placement.round
  split
  · rename_i hst
    obtain ⟨id, r, hd⟩ := hs.deferral_isSome hst hne
    rw [hd]
    exact h.defer hc hs hst hd
  · -- Without a stall all pairs of classes are whole, and a pass takes nothing out.
    rename_i hst
    intro name other id left hid href hleft
    exact absurd (h name other id left hid href hleft).1 hst

end Placement

namespace Schema

variable {s : Schema}

/-! ## The result of ordering -/

theorem counted_run (h : s.Consistent) :
    s.unordered.run.Sound s ∧ s.unordered.run.Counted s ∧ s.unordered.run.Whole s :=
  (Placement.leads_run s.unordered).1.keeps
    (P := fun p => p.Sound s ∧ p.Counted s ∧ p.Whole s)
    (fun _ hne hp => ⟨hp.1.round hne, hp.2.1.round hp.1 hne, hp.2.2.round h hp.1 hne⟩)
    ⟨.unordered h, .unordered s, .unordered s⟩

/-- When a key of one class to another is deferred, so are all keys of the one to the other. -/
theorem not_refersBy_of_deferred (h : s.Consistent) {name other : String} {id : RelationId}
    (hid : id ∈ s.order.2.deferred.map Prod.fst) (href : s.RefersBy name id other)
    (left : RelationId) : ¬ s.order.1.RefersBy name left other := by
  intro hleft
  obtain ⟨-, hhead, -⟩ := (counted_run h).2.2 name other id left hid href hleft
  rw [(Placement.leads_run s.unordered).2] at hhead
  cases hhead

/-- Without circles nothing is deferred: the classes left before a deferral are entangled. -/
theorem deferred_eq_nil_of_acyclic (h : s.Consistent) (hacyclic : s.Acyclic) :
    s.order.2.deferred = [] := by
  have hcounted := (counted_run h).2.1
  by_contra hne
  have hlt : 0 < s.order.2.cycles.length := by
    have hlength : s.order.2.cycles.length = s.order.2.deferred.length := hcounted.length_cycles
    rw [hlength]
    exact List.length_pos_iff.mpr hne
  exact (hcounted.entangled 0 _ (List.getElem?_eq_getElem hlt)).not_acyclic hacyclic

/-- What has nothing taken out is left as it is. -/
theorem order_eq_of_deferred_eq_nil (h : s.Consistent) (hnil : s.order.2.deferred = []) :
    s.order.1 = s := by
  rw [(isCreationOrder_order h).left_eq, hnil]
  rfl

theorem defersOnCircles_order (h : s.Consistent) : DefersOnCircles s s.order.1 s.order.2 := by
  have ho := isCreationOrder_order h
  have hcounted := (counted_run h).2.1
  constructor
  · refine ⟨fun hnil => ?_, deferred_eq_nil_of_acyclic h⟩
    have hacyclic := ho.acyclic
    rwa [order_eq_of_deferred_eq_nil h hnil] at hacyclic
  · exact hcounted.length_cycles
  · exact hcounted.entangled
  · have hpaid := hcounted.passes_le
    have hunplaced := (Placement.leads_run s.unordered).2
    have hst : s.unordered.run.stalled = false :=
      Bool.eq_false_iff.mpr fun hst => hcounted.unplaced_ne_nil hst hunplaced
    rw [hunplaced, hst] at hpaid
    exact hpaid
  · have ht := consistent_order h
    have hnil := deferred_eq_nil_of_acyclic ht ho.acyclic
    exact ⟨hnil, order_eq_of_deferred_eq_nil ht hnil⟩

/-- Ordering a reachable schema takes relations out of it just if classes depend on each other in
circles, one for each list of entangled classes that it meets; it needs no more passes than there
are classes and relations taken out; and it changes nothing when done again. -/
theorem order_defers_on_circles (h : s.Reachable) : DefersOnCircles s s.order.1 s.order.2 :=
  defersOnCircles_order h.consistent

theorem order_defers_on_circles_crossed : crossed.Reachable ∧
    DefersOnCircles crossed crossed.order.1 crossed.order.2 :=
  ⟨reachable_crossed, order_defers_on_circles reachable_crossed⟩

end Schema

end SchemaBridge
