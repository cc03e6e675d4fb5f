/-
  Schemas without circles are ordered by depth. The depth of a class is the number of classes on the
  longest path of dependences that starts at it. A class is held back just by the classes that are
  deeper than those placed, so each pass places the classes that lie one level deeper than the last
  ones: the order lists level by level, each in the order of the schema. It is settled by the names
  of the classes and by which class depends on which.
  Main results: `succ_lt_depth_iff`, `leveled_run` and `order_by_depth`.
-/
import SchemaBridge.Proofs.Schema.Deferral
import Mathlib.Order.Lattice.Nat

namespace SchemaBridge

namespace Schema

/-! ## Depth -/

/-- The numbers of classes on the paths of dependences that start at a class. -/
def pathLengths (s : Schema) (name : String) : Set Nat :=
  {n | ∃ rest : List String, (name :: rest).IsChain s.DependsOn ∧ (name :: rest).length = n}

/-- The number of classes on the longest path. -/
noncomputable def depth (s : Schema) (name : String) : Nat :=
  sSup (s.pathLengths name)

/-- The classes of a depth, in order. -/
noncomputable def level (s : Schema) (d : Nat) : List String :=
  s.names.filter fun name => s.depth name = d

/-- The order of a schema without circles: nothing is deferred, the classes come level by level, and
there are as many passes as levels. -/
structure OrderedByDepth (s : Schema) (o : ClassOrder) : Prop where
  /-- The depth of a class is the length of a path, and no path is longer. -/
  longest : ∀ name ∈ s.names, IsGreatest (s.pathLengths name) (s.depth name)
  classes_eq : o.classes = (List.range (o.passes + 1)).flatMap s.level
  deferred_eq : o.deferred = []
  cycles_eq : o.cycles = []
  /-- The largest depth. -/
  passes_eq : o.passes = (s.names.map s.depth).max?.getD 0

variable {s t : Schema} {name other : String}

theorem mem_names_of_isChain {rest : List String} (h : (name :: rest).IsChain s.DependsOn) :
    ∀ other ∈ rest, other ∈ s.names := by
  induction rest generalizing name with
  | nil => exact List.forall_mem_nil _
  | cons next rest ih =>
    obtain ⟨hstep, hrest⟩ := List.isChain_cons_cons.mp h
    exact List.forall_mem_cons.mpr ⟨hstep.2.1, ih hrest⟩

theorem one_mem_pathLengths (s : Schema) (name : String) : 1 ∈ s.pathLengths name :=
  ⟨[], List.isChain_singleton name, rfl⟩

section Acyclic

variable (hacyclic : s.Acyclic)

include hacyclic

/-- No path comes to a class twice. -/
theorem Acyclic.nodup_of_isChain {path : List String} (h : path.IsChain s.DependsOn) :
    path.Nodup := by
  have hpairs : path.Pairwise (Relation.TransGen s.DependsOn) :=
    List.isChain_iff_pairwise.mp (h.imp fun _ _ => .single)
  refine hpairs.imp fun {a b} hab => ?_
  rintro rfl
  exact hacyclic a hab

theorem Acyclic.length_path_le (hname : name ∈ s.names) {n : Nat} (h : n ∈ s.pathLengths name) :
    n ≤ s.names.length := by
  obtain ⟨rest, hchain, rfl⟩ := h
  have hsubset : name :: rest ⊆ s.names :=
    List.cons_subset.mpr ⟨hname, mem_names_of_isChain hchain⟩
  exact ((hacyclic.nodup_of_isChain hchain).subperm hsubset).length_le

theorem Acyclic.isGreatest_depth (hname : name ∈ s.names) :
    IsGreatest (s.pathLengths name) (s.depth name) := by
  have hbounded : BddAbove (s.pathLengths name) :=
    ⟨s.names.length, fun _ hn => hacyclic.length_path_le hname hn⟩
  exact ⟨Nat.sSup_mem ⟨1, one_mem_pathLengths s name⟩ hbounded, fun _ hn => le_csSup hbounded hn⟩

/-- Paths can be cut short, so that there are paths of all lengths up to the depth. -/
theorem Acyclic.lt_depth_iff (hname : name ∈ s.names) {n : Nat} : n < s.depth name ↔
    ∃ rest : List String, (name :: rest).IsChain s.DependsOn ∧ rest.length = n := by
  have hdepth := hacyclic.isGreatest_depth hname
  constructor
  · intro hlt
    obtain ⟨rest, hchain, hlength⟩ := hdepth.1
    rw [List.length_cons] at hlength
    refine ⟨rest.take n, ?_, List.length_take_of_le (by omega)⟩
    rw [← List.take_succ_cons]
    exact hchain.take (n + 1)
  · rintro ⟨rest, hchain, rfl⟩
    exact hdepth.2 ⟨rest, hchain, rfl⟩

/-- A class lies deeper than the classes it depends on, and no deeper than it must. -/
theorem Acyclic.succ_lt_depth_iff (hname : name ∈ s.names) {n : Nat} :
    n + 1 < s.depth name ↔ ∃ other, s.DependsOn name other ∧ n < s.depth other := by
  rw [hacyclic.lt_depth_iff hname]
  constructor
  · rintro ⟨rest, hchain, hlength⟩
    obtain ⟨other, rest, rfl⟩ := List.exists_cons_of_length_eq_add_one hlength
    obtain ⟨hstep, hrest⟩ := List.isChain_cons_cons.mp hchain
    exact ⟨other, hstep, (hacyclic.lt_depth_iff hstep.2.1).mpr ⟨rest, hrest, Nat.succ.inj hlength⟩⟩
  · rintro ⟨other, hstep, hlt⟩
    obtain ⟨rest, hrest, rfl⟩ := (hacyclic.lt_depth_iff hstep.2.1).mp hlt
    exact ⟨other :: rest, List.isChain_cons_cons.mpr ⟨hstep, hrest⟩, rfl⟩

theorem Acyclic.depth_pos (hname : name ∈ s.names) : 0 < s.depth name :=
  (hacyclic.isGreatest_depth hname).2 (one_mem_pathLengths s name)

theorem Acyclic.depth_lt (h : s.DependsOn name other) : s.depth other < s.depth name := by
  have hpos := hacyclic.depth_pos h.2.1
  have hlt : (s.depth other - 1) + 1 < s.depth name :=
    (hacyclic.succ_lt_depth_iff h.1).mpr ⟨other, h, by omega⟩
  omega

/-- Below a class there are classes of all smaller depths. -/
theorem Acyclic.exists_depth_eq {n : Nat} (hname : name ∈ s.names) (hlt : n < s.depth name) :
    ∃ other ∈ s.names, s.depth other = n + 1 := by
  induction hd : s.depth name using Nat.strong_induction_on generalizing name with
  | _ d ih =>
    subst hd
    by_cases heq : s.depth name = n + 1
    · exact ⟨name, hname, heq⟩
    · have hbelow : n + 1 < s.depth name := by omega
      obtain ⟨other, hstep, hother⟩ := (hacyclic.succ_lt_depth_iff hname).mp hbelow
      exact ih _ (hacyclic.depth_lt hstep) hstep.2.1 hother rfl

end Acyclic

end Schema

namespace Placement

/-! ## Passes -/

/-- A state of ordering in which as many levels have been placed as there were passes, and
nothing else was done. -/
structure Leveled (s : Schema) (p : Placement) : Prop where
  schema_eq : p.schema = s
  classes_eq : p.order.classes = (List.range (p.order.passes + 1)).flatMap s.level
  unplaced_eq : p.unplaced = s.names.filter fun name => p.order.passes < s.depth name
  deferred_eq : p.order.deferred = []
  cycles_eq : p.order.cycles = []
  /-- The last of the levels is not empty. -/
  reached : p.order.passes = 0 ∨ ∃ name ∈ s.names, s.depth name = p.order.passes
  stalled_eq : p.stalled = false

variable {s : Schema} {p : Placement} (hs : s.Consistent) (hacyclic : s.Acyclic)

include hacyclic in
theorem Leveled.unordered : s.unordered.Leveled s where
  schema_eq := rfl
  classes_eq := by
    have hnone : s.level 0 = [] := by
      refine List.filter_eq_nil_iff.mpr fun name hname heq => ?_
      have hpos := hacyclic.depth_pos hname
      have hzero := of_decide_eq_true heq
      omega
    show [] = (List.range 1).flatMap s.level
    rw [List.range_one, List.flatMap_singleton, hnone]
  unplaced_eq := by
    refine (List.filter_eq_self.mpr fun name hname => ?_).symm
    exact decide_eq_true (hacyclic.depth_pos hname)
  deferred_eq := rfl
  cycles_eq := rfl
  reached := .inl rfl
  stalled_eq := rfl

include hacyclic in
/-- While classes are left, the next level is not empty. -/
theorem Leveled.exists_next (h : p.Leveled s) (hne : p.unplaced ≠ []) :
    ∃ name ∈ s.names, s.depth name = p.order.passes + 1 := by
  obtain ⟨name, hname⟩ := List.exists_mem_of_ne_nil _ hne
  rw [h.unplaced_eq] at hname
  obtain ⟨hmem, hlt⟩ := List.mem_filter.mp hname
  exact hacyclic.exists_depth_eq hmem (of_decide_eq_true hlt)

include hs hacyclic

/-- Held back are the classes that lie more than one level deeper than those placed. -/
theorem Leveled.blocking_eq_nil_iff (h : p.Leveled s) {name : String} (hname : name ∈ s.names) :
    p.schema.blocking p.unplaced name = [] ↔ s.depth name ≤ p.order.passes + 1 := by
  rw [← not_iff_not, Nat.not_le, hacyclic.succ_lt_depth_iff hname, h.schema_eq, h.unplaced_eq]
  constructor
  · intro hne
    obtain ⟨id, hid⟩ := List.exists_mem_of_ne_nil _ hne
    obtain ⟨-, other, hother, hrefers⟩ := (Schema.mem_blocking_iff hs).mp hid
    obtain ⟨hmem, hlt⟩ := List.mem_filter.mp hother
    exact ⟨other, ⟨hname, hmem, id, hrefers⟩, of_decide_eq_true hlt⟩
  · rintro ⟨other, ⟨-, hmem, id, hrefers⟩, hlt⟩
    have hother : other ∈ s.names.filter fun name => p.order.passes < s.depth name :=
      List.mem_filter.mpr ⟨hmem, decide_eq_true hlt⟩
    exact List.ne_nil_of_mem ((Schema.mem_blocking_iff hs).mpr ⟨hname, other, hother, hrefers⟩)

theorem Leveled.ready_eq (h : p.Leveled s) : p.ready = s.level (p.order.passes + 1) := by
  unfold ready Schema.level
  conv_lhs => arg 2; rw [h.unplaced_eq]
  rw [List.filter_filter]
  apply List.filter_congr
  intro name hname
  have hnil := h.blocking_eq_nil_iff hs hacyclic hname
  rw [Bool.eq_iff_iff, Bool.and_eq_true, List.isEmpty_iff, hnil, decide_eq_true_iff,
    decide_eq_true_iff]
  omega

theorem Leveled.blocked_eq (h : p.Leveled s) :
    p.blocked = s.names.filter fun name => p.order.passes + 1 < s.depth name := by
  unfold blocked
  conv_lhs => arg 2; rw [h.unplaced_eq]
  rw [List.filter_filter]
  apply List.filter_congr
  intro name hname
  have hnil := h.blocking_eq_nil_iff hs hacyclic hname
  rw [Bool.eq_iff_iff, Bool.and_eq_true, Bool.not_eq_true', ← Bool.not_eq_true, List.isEmpty_iff,
    hnil, decide_eq_true_iff, decide_eq_true_iff]
  omega

/-- A pass places the next level. -/
theorem Leveled.pass (h : p.Leveled s) (hne : p.unplaced ≠ []) : p.pass.Leveled s where
  schema_eq := h.schema_eq
  classes_eq := by
    show p.order.classes ++ p.ready = (List.range (p.order.passes + 1 + 1)).flatMap s.level
    rw [List.range_succ, List.flatMap_append, List.flatMap_singleton, h.classes_eq,
      h.ready_eq hs hacyclic]
  unplaced_eq := h.blocked_eq hs hacyclic
  deferred_eq := h.deferred_eq
  cycles_eq := h.cycles_eq
  reached := .inr (h.exists_next hacyclic hne)
  stalled_eq := by
    obtain ⟨name, hname, hdepth⟩ := h.exists_next hacyclic hne
    have hready : name ∈ p.ready := by
      rw [h.ready_eq hs hacyclic]
      exact List.mem_filter.mpr ⟨hname, decide_eq_true hdepth⟩
    exact List.isEmpty_eq_false_iff.mpr (List.ne_nil_of_mem hready)

theorem Leveled.round (h : p.Leveled s) (hne : p.unplaced ≠ []) : p.round.Leveled s := by
  unfold Placement.round
  rw [if_neg (by rw [h.stalled_eq]; exact Bool.false_ne_true)]
  exact h.pass hs hacyclic hne

end Placement

namespace Schema

variable {s t : Schema}

/-! ## The order -/

theorem leveled_run (hs : s.Consistent) (hacyclic : s.Acyclic) : s.unordered.run.Leveled s :=
  (Placement.leads_run s.unordered).1.keeps (fun _ hne hp => hp.round hs hacyclic hne)
    (.unordered hacyclic)

theorem orderedByDepth_order (hs : s.Consistent) (hacyclic : s.Acyclic) :
    s.OrderedByDepth s.order.2 := by
  have hleveled := leveled_run hs hacyclic
  have hall : ∀ name ∈ s.names, s.depth name ≤ s.order.2.passes := by
    intro name hname
    have hunplaced := (Placement.leads_run s.unordered).2
    rw [hleveled.unplaced_eq] at hunplaced
    have hnot := List.filter_eq_nil_iff.mp hunplaced name hname
    exact Nat.not_lt.mp fun hlt => hnot (decide_eq_true hlt)
  refine ⟨fun _ => hacyclic.isGreatest_depth, hleveled.classes_eq, hleveled.deferred_eq,
    hleveled.cycles_eq, ?_⟩
  rcases hleveled.reached with hzero | ⟨name, hname, hdepth⟩
  · have hnone : s.names = [] := by
      refine List.eq_nil_iff_forall_not_mem.mpr fun name hname => ?_
      have hle : s.depth name ≤ 0 := hzero ▸ hall name hname
      exact Nat.not_lt.mpr hle (hacyclic.depth_pos hname)
    rw [hnone]
    exact hzero
  · have hmax : (s.names.map s.depth).max? = some s.order.2.passes :=
      List.max?_eq_some_iff.mpr ⟨List.mem_map.mpr ⟨name, hname, hdepth⟩, by
        intro d hd
        obtain ⟨name, hname, rfl⟩ := List.mem_map.mp hd
        exact hall name hname⟩
    rw [hmax, Option.getD_some]

/-- The order by depth comes from the names and from which class depends on which alone. -/
theorem OrderedByDepth.unique {o o' : ClassOrder} (ho : s.OrderedByDepth o)
    (ho' : t.OrderedByDepth o') (hnames : t.names = s.names)
    (hdepends : t.DependsOn = s.DependsOn) : o' = o := by
  have hdepth : t.depth = s.depth := by
    unfold depth pathLengths
    rw [hdepends]
  have hlevel : t.level = s.level := by
    unfold level
    rw [hnames, hdepth]
  have hpasses : o'.passes = o.passes := by
    rw [ho'.passes_eq, ho.passes_eq, hnames, hdepth]
  have hclasses : o'.classes = o.classes := by
    rw [ho'.classes_eq, ho.classes_eq, hpasses, hlevel]
  have hdeferred : o'.deferred = o.deferred := ho'.deferred_eq.trans ho.deferred_eq.symm
  have hcycles : o'.cycles = o.cycles := ho'.cycles_eq.trans ho.cycles_eq.symm
  obtain ⟨classes, deferred, cycles, passes⟩ := o
  obtain ⟨classes', deferred', cycles', passes'⟩ := o'
  rw [ClassOrder.mk.injEq]
  exact ⟨hclasses, hdeferred, hcycles, hpasses⟩

/-- Ordering a schema without circles lists the classes by depth, those of one depth as the schema
has them, in as many passes as the largest depth, and leaves the schema as it is. Nothing but the
names and the dependences plays a part: not the numbers of relations nor the order in which they
were made, nor relations of a class to itself, to a class that is not there, or with a junction. -/
theorem order_by_depth (h : s.Reachable) (hacyclic : s.Acyclic) :
    s.OrderedByDepth s.order.2 ∧ s.order.1 = s ∧
      ∀ t : Schema, t.Reachable → t.names = s.names →
        (∀ name other, t.DependsOn name other ↔ s.DependsOn name other) →
          t.order.2 = s.order.2 := by
  have hordered := orderedByDepth_order h.consistent hacyclic
  refine ⟨hordered, order_eq_of_deferred_eq_nil h.consistent hordered.deferred_eq, ?_⟩
  intro t ht hnames hsame
  have hdepends : t.DependsOn = s.DependsOn :=
    funext fun name => funext fun other => propext (hsame name other)
  have hacyclic' : t.Acyclic := by
    unfold Acyclic
    rwa [hdepends]
  exact hordered.unique (orderedByDepth_order ht.consistent hacyclic') hnames hdepends

/-- Comments on posts of users: comments answer comments, posts carry tags, and tags belong to a
class that is not there. -/
def threaded : Schema :=
  (((((((((empty.ensureClass "Comment").ensureClass "Tag").ensureClass "Post").ensureClass
    "User").addRelation ⟨⟨"Comment", .any⟩, ⟨"Post", .one⟩⟩).addRelation
    ⟨⟨"Comment", .any⟩, ⟨"Comment", .zeroOrOne⟩⟩).addRelation
    ⟨⟨"Comment", .any⟩, ⟨"User", .one⟩⟩).addRelation ⟨⟨"Post", .any⟩, ⟨"Tag", .any⟩⟩).addRelation
    ⟨⟨"Tag", .any⟩, ⟨"Group", .one⟩⟩).addRelation ⟨⟨"User", .one⟩, ⟨"Post", .any⟩⟩

/-- The same dependences by other relations. -/
def rethreaded : Schema :=
  (((((((empty.ensureClass "Comment").ensureClass "Tag").ensureClass "Post").ensureClass
    "User").addRelation ⟨⟨"Post", .any⟩, ⟨"User", .zeroOrOne⟩⟩).addRelation
    ⟨⟨"User", .one⟩, ⟨"Comment", .any⟩⟩).addRelation
    ⟨⟨"User", .one⟩, ⟨"Post", .any⟩⟩).addRelation ⟨⟨"Post", .one⟩, ⟨"Comment", .any⟩⟩

theorem reachable_threaded : threaded.Reachable :=
  ((((((((((Reachable.empty.ensureClass _).ensureClass _).ensureClass _).ensureClass _).addRelation
    _).addRelation _).addRelation _).addRelation _).addRelation _).addRelation _)

theorem reachable_rethreaded : rethreaded.Reachable :=
  ((((((((Reachable.empty.ensureClass _).ensureClass _).ensureClass _).ensureClass _).addRelation
    _).addRelation _).addRelation _).addRelation _)

theorem acyclic_threaded : threaded.Acyclic :=
  (defersOnCircles_order reachable_threaded.consistent).deferred_eq_nil_iff.mp (by decide +kernel)

theorem dependsOn_rethreaded (name other : String) :
    rethreaded.DependsOn name other ↔ threaded.DependsOn name other := by
  have hsame : ∀ name ∈ threaded.names, ∀ other ∈ threaded.names,
      rethreaded.blocking [other] name ≠ [] ↔ threaded.blocking [other] name ≠ [] := by
    decide +kernel
  have hnames : rethreaded.names = threaded.names := by decide +kernel
  constructor
  · intro h
    have hmem := hnames ▸ h.1
    obtain ⟨hother, hne⟩ := (dependsOn_iff_blocking reachable_rethreaded.consistent).mp h
    rw [hnames] at hother
    exact (dependsOn_iff_blocking reachable_threaded.consistent).mpr
      ⟨hother, (hsame name hmem other hother).mp hne⟩
  · intro h
    obtain ⟨hother, hne⟩ := (dependsOn_iff_blocking reachable_threaded.consistent).mp h
    refine (dependsOn_iff_blocking reachable_rethreaded.consistent).mpr ⟨hnames ▸ hother, ?_⟩
    exact (hsame name h.1 other hother).mpr hne

theorem order_by_depth_threaded : threaded.Reachable ∧ threaded.Acyclic ∧
    threaded.OrderedByDepth threaded.order.2 ∧ threaded.order.1 = threaded ∧
      threaded.order.2.classes = ["Tag", "User", "Post", "Comment"] ∧
      rethreaded.order.2 = threaded.order.2 := by
  obtain ⟨hordered, hsame, hother⟩ := order_by_depth reachable_threaded acyclic_threaded
  refine ⟨reachable_threaded, acyclic_threaded, hordered, hsame, by decide +kernel, ?_⟩
  exact hother rethreaded reachable_rethreaded (by decide +kernel) dependsOn_rethreaded

end Schema

end SchemaBridge
