/-
  Which relation ordering takes out. At a stall the classes left are those that lead to a circle,
  whether or not they lie on one: the classes placed refer to classes placed before them, and each
  class left depends on another one left. Of them ordering takes the first of the schema, and of its
  relations to others of them the first by the name of the other class and by its number. Such a
  relation need not lie on a circle: a class that comes before a circle of classes it depends on has
  its key taken out, although the circle stays.
  Main results: `Sound.mem_unplaced_iff`, `Sound.firstToCircle` and `deferred_on_circle_iff`.
-/
import SchemaBridge.Proofs.Schema.Deferral

namespace SchemaBridge

/-! ## Standing before -/

theorem Precedes.mem {names : List String} {a b : String} (h : Precedes names a b) :
    a ∈ names ∧ b ∈ names := by
  obtain ⟨i, j, -, hi, hj⟩ := h
  exact ⟨List.mem_of_getElem? hi, List.mem_of_getElem? hj⟩

theorem Precedes.asymm {names : List String} (hnodup : names.Nodup) {a b : String}
    (h : Precedes names a b) : ¬ Precedes names b a := fun h' =>
  lt_asymm (Schema.idxOf_lt_of_precedes hnodup h) (Schema.idxOf_lt_of_precedes hnodup h')

theorem precedes_or {names : List String} {a b : String} (ha : a ∈ names) (hb : b ∈ names)
    (hne : a ≠ b) : Precedes names a b ∨ Precedes names b a := by
  obtain ⟨i, hi⟩ := List.mem_iff_getElem?.mp ha
  obtain ⟨j, hj⟩ := List.mem_iff_getElem?.mp hb
  rcases lt_trichotomy i j with hlt | rfl | hgt
  · exact .inl ⟨i, j, hlt, hi, hj⟩
  · exact absurd (Option.some.inj (hi.symm.trans hj)) hne
  · exact .inr ⟨j, i, hgt, hj, hi⟩

theorem pairwise_precedes (names : List String) : names.Pairwise (Precedes names) :=
  List.pairwise_iff_getElem.mpr fun i j hi hj hlt =>
    ⟨i, j, hlt, List.getElem?_eq_getElem hi, List.getElem?_eq_getElem hj⟩

namespace Schema

/-- The class is the first of those that lead to a circle, and the relation the first by which it
refers to another of them: the first by the name of the other class, then by its number. -/
structure FirstToCircle (s : Schema) (name : String) (id : RelationId) (other : String) : Prop where
  leads_name : s.LeadsToCircle name
  none_before : ∀ earlier, Precedes s.names earlier name → ¬ s.LeadsToCircle earlier
  refers : s.RefersBy name id other
  leads_other : s.LeadsToCircle other
  least : ∀ other' id', s.LeadsToCircle other' → s.RefersBy name id' other' →
    other < other' ∨ other = other' ∧ id ≤ id'

/-- A class refers to another, be they classes of the schema or not. -/
def RefersTo (s : Schema) (name other : String) : Prop :=
  ∃ id, s.RefersBy name id other

/-- Each relation taken out lies on a circle: just before, the class it refers to refers back to the
class that stores it, by way of others or at once. -/
def DefersFromCircles (s : Schema) (o : ClassOrder) : Prop :=
  ∀ k id r name other, o.deferred[k]? = some (id, r) →
    (s.beforeDeferral o k).RefersBy name id other →
      Relation.TransGen (s.beforeDeferral o k).RefersTo other name

variable {s : Schema}

theorem LeadsToCircle.mem_names {name : String} (h : s.LeadsToCircle name) : name ∈ s.names := by
  obtain ⟨round, hpath, hround⟩ := h
  have hwhole : Relation.TransGen s.DependsOn name round := .trans_right hpath hround
  obtain ⟨_, hstep, _⟩ := Relation.TransGen.head'_iff.mp hwhole
  exact hstep.1

theorem FirstToCircle.unique {name other name' other' : String} {id id' : RelationId}
    (h : s.FirstToCircle name id other) (h' : s.FirstToCircle name' id' other') :
    name = name' ∧ id = id' ∧ other = other' := by
  have hname : name = name' := by
    by_contra hne
    rcases precedes_or h.leads_name.mem_names h'.leads_name.mem_names hne with hlt | hgt
    · exact h'.none_before name hlt h.leads_name
    · exact h.none_before name' hgt h'.leads_name
  subst hname
  have hle := h.least other' id' h'.leads_other h'.refers
  have hge := h'.least other id h.leads_other h.refers
  rcases hle with hlt | ⟨rfl, hle⟩
  · rcases hge with hgt | ⟨rfl, -⟩
    · exact absurd hgt (lt_asymm hlt)
    · exact absurd hlt (lt_irrefl _)
  · rcases hge with hgt | ⟨-, hge⟩
    · exact absurd hgt (lt_irrefl _)
    · exact ⟨rfl, le_antisymm hle hge, rfl⟩

/-! ## The order in which relations hold a class back -/

theorem relationsBetween_ascend (hs : s.Consistent) (cls other : String) :
    (s.relationsBetween cls other).Pairwise (· < ·) :=
  List.pairwise_map.mpr (hs.ids_ascend.filter _)

theorem linksAt_ascend (hs : s.Consistent) (name other : String) :
    ((s.linksAt name).get other).Pairwise (· < ·) := by
  unfold linksAt
  cases hf : s.find? name with
  | none => exact List.Pairwise.nil
  | some c =>
    rw [Option.map_some, Option.getD_some, hs.get_links c (find?_some_mem hf).1]
    exact relationsBetween_ascend hs c.name other

/-- The links under the name of a class tell which class a relation refers to. -/
theorem other_of_mem_linksAt (hs : s.Consistent) {name other referred : String} {id : RelationId}
    (hid : id ∈ (s.linksAt name).get other) (hrefers : s.RefersBy name id referred) :
    referred = other := by
  obtain ⟨-, r, hr, e, he, hcls⟩ := (mem_ids_linksAt hs).mp hid
  obtain ⟨r', mine, theirs, hr', -, he', hcls', -⟩ := hrefers
  obtain rfl := hs.relation_unique hr hr'
  rw [he] at he'
  cases he'
  rw [← hcls', hcls]

/-- The relations that hold a class back come by the name of the class they refer to, and those to
one class by their numbers. -/
theorem blocking_ascend (hs : s.Consistent) (pending : List String) (name : String) :
    (s.blocking pending name).Pairwise fun id id' => ∀ other other',
      s.RefersBy name id other → s.RefersBy name id' other' →
        other < other' ∨ other = other' ∧ id < id' := by
  have hcanonical := canonical_linksAt hs name
  have hlisted : ∀ entry ∈ s.linksAt name, ∀ id ∈ (if pending.contains entry.1 then
      entry.2.filter (s.dependsBy name) else []), id ∈ (s.linksAt name).get entry.1 := by
    intro entry hentry id hid
    rw [hcanonical.get_of_mem hentry]
    split at hid
    · exact List.mem_of_mem_filter hid
    · cases hid
  refine List.pairwise_flatMap.mpr ⟨fun entry hentry => ?_, ?_⟩
  · have hascend := linksAt_ascend hs name entry.1
    rw [hcanonical.get_of_mem hentry] at hascend
    have hsome : (if pending.contains entry.1 then entry.2.filter (s.dependsBy name)
        else []).Pairwise (· < ·) := by
      split
      · exact hascend.filter _
      · exact List.Pairwise.nil
    refine hsome.imp_of_mem fun hid hid' hlt other other' hrefers hrefers' => .inr ⟨?_, hlt⟩
    rw [other_of_mem_linksAt hs (hlisted entry hentry _ hid) hrefers,
      other_of_mem_linksAt hs (hlisted entry hentry _ hid') hrefers']
  · refine hcanonical.ascending.imp_of_mem ?_
    intro entry entry' hentry hentry' hlt id hid id' hid' other other' hrefers hrefers'
    rw [other_of_mem_linksAt hs (hlisted entry hentry id hid) hrefers,
      other_of_mem_linksAt hs (hlisted entry' hentry' id' hid') hrefers']
    exact .inl hlt

end Schema

namespace Placement

variable {s : Schema} {p : Placement}

/-! ## What is left at a stall -/

/-- A placed class depends on classes placed before it. -/
theorem Sound.placed_of_dependsOn (h : p.Sound s) {name other : String}
    (hname : name ∈ p.order.classes) (hdepends : p.schema.DependsOn name other) :
    Precedes p.order.classes other name := by
  obtain ⟨-, hother, id, hrefers⟩ := hdepends
  rw [h.names_eq] at hother
  exact h.referenced_first name hname id other hrefers hother

theorem Sound.classes_nodup (h : p.Sound s) : p.order.classes.Nodup := by
  have hnodup := h.placed.nodup_iff.mpr (h.names_eq ▸ h.consistent.names_nodup)
  exact hnodup.of_append_left

/-- From a placed class one comes to no circle. -/
theorem Sound.not_leadsToCircle (h : p.Sound s) {name : String} (hname : name ∈ p.order.classes) :
    ¬ p.schema.LeadsToCircle name := by
  rintro ⟨round, hpath, hround⟩
  have hplaced : round ∈ p.order.classes := by
    clear hround
    induction hpath with
    | refl => exact hname
    | tail _ hstep ih => exact (h.placed_of_dependsOn ih hstep).mem.1
  have hfalls : ∀ other, Relation.TransGen p.schema.DependsOn round other →
      other ∈ p.order.classes ∧ p.order.classes.idxOf other < p.order.classes.idxOf round := by
    intro other hother
    induction hother with
    | single hstep =>
      have hprecedes := h.placed_of_dependsOn hplaced hstep
      exact ⟨hprecedes.mem.1, Schema.idxOf_lt_of_precedes h.classes_nodup hprecedes⟩
    | tail _ hstep ih =>
      have hprecedes := h.placed_of_dependsOn ih.1 hstep
      exact ⟨hprecedes.mem.1,
        (Schema.idxOf_lt_of_precedes h.classes_nodup hprecedes).trans ih.2⟩
  exact lt_irrefl _ (hfalls round hround).2

/-- The classes left at a stall are those that lead to a circle. -/
theorem Sound.mem_unplaced_iff (h : p.Sound s) (hst : p.stalled = true) {name : String} :
    name ∈ p.unplaced ↔ p.schema.LeadsToCircle name := by
  constructor
  · intro hname
    exact (h.entangled hst (List.ne_nil_of_mem hname)).leadsToCircle hname
  · intro hleads
    have hmem : name ∈ s.names := by
      rw [← h.names_eq]
      exact hleads.mem_names
    exact (h.mem_names.mp hmem).resolve_left fun hplaced => h.not_leadsToCircle hplaced hleads

/-- The relation taken out after a stall. -/
theorem Sound.firstToCircle (h : p.Sound s) (hsublist : p.unplaced.Sublist s.names)
    (hst : p.stalled = true) {id : RelationId} {r : Relation} (hd : p.deferral = some (id, r)) :
    ∃ name other, p.schema.FirstToCircle name id other := by
  obtain ⟨name, hname, hid⟩ := h.deferral_head hst hd
  obtain ⟨rest, hunplaced⟩ := List.head?_eq_some_iff.mp hname
  obtain ⟨ids, hids⟩ := List.head?_eq_some_iff.mp hid
  have hmem : name ∈ p.unplaced := List.mem_of_head? hname
  obtain ⟨hnames, other, hother, hrefers⟩ :=
    (Schema.mem_blocking_iff h.consistent).mp (List.mem_of_head? hid)
  refine ⟨name, other, (h.mem_unplaced_iff hst).mp hmem, fun earlier hearlier hleads => ?_, hrefers,
    (h.mem_unplaced_iff hst).mp hother, fun other' id' hleads' hrefers' => ?_⟩
  · have hleft := (h.mem_unplaced_iff hst).mpr hleads
    have hpairs := (pairwise_precedes s.names).sublist hsublist
    rw [h.names_eq] at hearlier
    rw [hunplaced] at hleft hpairs
    have hnodup : s.names.Nodup := h.names_eq ▸ h.consistent.names_nodup
    rcases List.mem_cons.mp hleft with rfl | hrest
    · exact hearlier.asymm hnodup hearlier
    · exact hearlier.asymm hnodup ((List.pairwise_cons.mp hpairs).1 earlier hrest)
  · have hblocking : id' ∈ p.schema.blocking p.unplaced name :=
      (Schema.mem_blocking_iff h.consistent).mpr
        ⟨hnames, other', (h.mem_unplaced_iff hst).mpr hleads', hrefers'⟩
    have hascend := Schema.blocking_ascend h.consistent p.unplaced name
    rw [hids] at hblocking hascend
    rcases List.mem_cons.mp hblocking with rfl | hlater
    · exact .inr ⟨(hrefers.unique h.consistent hrefers').2, le_rfl⟩
    · have hfirst := (List.pairwise_cons.mp hascend).1 id' hlater other other' hrefers hrefers'
      exact hfirst.imp_right fun heq => ⟨heq.1, heq.2.le⟩

/-! ## The run -/

/-- The classes left are in the order of the schema, and each relation taken out so far was the
first to a circle. -/
structure Choosing (s : Schema) (p : Placement) : Prop where
  sublist : p.unplaced.Sublist s.names
  chosen : ∀ k id r, p.order.deferred[k]? = some (id, r) →
    ∃ name other, (s.beforeDeferral p.order k).FirstToCircle name id other

theorem Choosing.unordered (s : Schema) : s.unordered.Choosing s where
  sublist := List.Sublist.refl _
  chosen _ _ _ h := by cases h

theorem Choosing.pass (h : p.Choosing s) : p.pass.Choosing s where
  sublist := List.filter_sublist.trans h.sublist
  chosen := h.chosen

theorem Choosing.defer (h : p.Choosing s) (hs : p.Sound s) (hst : p.stalled = true)
    {id : RelationId} {r : Relation} (hd : p.deferral = some (id, r)) :
    (p.defer id r).Choosing s where
  sublist := h.sublist
  chosen := by
    intro k id' r' hk
    have hle : k ≤ p.order.deferred.length := by
      have hlt := (List.getElem?_eq_some_iff.mp hk).1
      simp only [Placement.defer, List.length_append, List.length_singleton] at hlt
      omega
    rw [beforeDeferral_defer s p id r hle]
    change (p.order.deferred ++ [(id, r)])[k]? = some (id', r') at hk
    rcases Nat.lt_or_eq_of_le hle with hlt | rfl
    · rw [List.getElem?_append_left hlt] at hk
      exact h.chosen k id' r' hk
    · rw [List.getElem?_concat_length] at hk
      cases hk
      have hall : s.beforeDeferral p.order p.order.deferred.length = p.schema := by
        unfold Schema.beforeDeferral
        rw [List.take_length, ← hs.left_eq]
      rw [hall]
      exact hs.firstToCircle h.sublist hst hd

theorem Choosing.round (h : p.Choosing s) (hs : p.Sound s) (hne : p.unplaced ≠ []) :
    p.round.Choosing s := by
  unfold Placement.round
  split
  · rename_i hst
    obtain ⟨id, r, hd⟩ := hs.deferral_isSome hst hne
    rw [hd]
    exact (h.defer hs hst hd).pass
  · exact h.pass

end Placement

namespace Schema

variable {s : Schema}

theorem choosing_run (hs : s.Consistent) : s.unordered.run.Choosing s :=
  ((Placement.leads_run s.unordered).1.keeps (P := fun p => p.Sound s ∧ p.Choosing s)
    (fun _ hne hp => ⟨hp.1.round hne, hp.2.round hp.1 hne⟩)
    ⟨.unordered hs, .unordered s⟩).2

theorem consistent_beforeDeferral (hs : s.Consistent) (o : ClassOrder) (k : Nat) :
    (s.beforeDeferral o k).Consistent := by
  unfold beforeDeferral
  rw [← List.foldl_map (f := Prod.fst) (g := removeRelation)]
  exact hs.removeRelations _

/-- Ordering takes out the first relation to a circle each time. It therefore takes relations out of
circles alone just if, each time, there is a way back from the class that this relation refers to.
-/
theorem deferred_on_circle_iff (h : s.Reachable) :
    (∀ k id r, s.order.2.deferred[k]? = some (id, r) →
      ∃ name other, (s.beforeDeferral s.order.2 k).FirstToCircle name id other) ∧
    (s.DefersFromCircles s.order.2 ↔
      ∀ k < s.order.2.deferred.length, ∀ name id other,
        (s.beforeDeferral s.order.2 k).FirstToCircle name id other →
          Relation.TransGen (s.beforeDeferral s.order.2 k).RefersTo other name) := by
  have hchosen := (choosing_run h.consistent).chosen
  refine ⟨hchosen, fun hcircles k hk name id other hfirst => ?_, fun hback k id r name other hk
    hrefers => ?_⟩
  · have hget := List.getElem?_eq_getElem hk
    obtain ⟨name', other', hfirst'⟩ := hchosen k _ _ hget
    obtain ⟨rfl, rfl, rfl⟩ := hfirst'.unique hfirst
    exact hcircles k _ _ _ _ hget hfirst'.refers
  · obtain ⟨name', other', hfirst⟩ := hchosen k id r hk
    have hconsistent := consistent_beforeDeferral h.consistent s.order.2 k
    obtain ⟨rfl, rfl⟩ := hfirst.refers.unique hconsistent hrefers
    exact hback k (List.getElem?_eq_some_iff.mp hk).1 _ _ _ hfirst

/-- Of two classes that refer to each other either leads back to the other. -/
theorem deferred_on_circle_crossed : crossed.Reachable ∧ crossed.order.2.deferred.length = 1 ∧
    crossed.DefersFromCircles crossed.order.2 := by
  have hone : crossed.order.2.deferred.length = 1 := by decide +kernel
  refine ⟨reachable_crossed, hone, (deferred_on_circle_iff reachable_crossed).2.mpr ?_⟩
  intro k hk name id other hfirst
  obtain rfl : k = 0 := by omega
  change Relation.TransGen crossed.RefersTo other name
  have hthere : crossed.DependsOn name other :=
    ⟨hfirst.leads_name.mem_names, hfirst.leads_other.mem_names, id, hfirst.refers⟩
  have hback : ∀ name ∈ crossed.names, ∀ other ∈ crossed.names,
      crossed.blocking [other] name ≠ [] → crossed.blocking [name] other ≠ [] := by decide +kernel
  have hconsistent := reachable_crossed.consistent
  have hne := ((dependsOn_iff_blocking hconsistent).mp hthere).2
  have hdepends : crossed.DependsOn other name := (dependsOn_iff_blocking hconsistent).mpr
    ⟨hthere.1, hback name hthere.1 other hthere.2.1 hne⟩
  exact .single hdepends.2.2

/-- Two classes that refer to each other, and before them one that refers to the first of them. -/
def trailing : Schema :=
  (((((empty.ensureClass "C").ensureClass "A").ensureClass "B").addRelation
    ⟨⟨"C", .any⟩, ⟨"A", .one⟩⟩).addRelation ⟨⟨"A", .any⟩, ⟨"B", .one⟩⟩).addRelation
    ⟨⟨"B", .any⟩, ⟨"A", .one⟩⟩

theorem reachable_trailing : trailing.Reachable :=
  ((((((Reachable.empty.ensureClass _).ensureClass _).ensureClass _).addRelation _).addRelation
    _).addRelation _)

/-- The key of the class that lies on no circle is taken out. -/
theorem defers_off_circle_trailing : trailing.Reachable ∧
    ¬ trailing.DefersFromCircles trailing.order.2 := by
  refine ⟨reachable_trailing, fun hcircles => ?_⟩
  have hdeferred : trailing.order.2.deferred[0]? = some (0, ⟨⟨"C", .any⟩, ⟨"A", .one⟩⟩) := by
    decide +kernel
  have hrefers : trailing.RefersBy "C" 0 "A" :=
    ⟨⟨⟨"C", .any⟩, ⟨"A", .one⟩⟩, ⟨"C", .any⟩, ⟨"A", .one⟩, by decide +kernel⟩
  have hpath := hcircles 0 _ _ "C" "A" hdeferred hrefers
  obtain ⟨last, -, id, hback⟩ := Relation.TransGen.tail'_iff.mp hpath
  have hne : "C" ≠ last := hback.ne
  obtain ⟨r, mine, theirs, hr, -, he, hcls, hown⟩ := hback
  -- Of every relation with an end at this class it is the owner, so no relation refers to it.
  have howner : ∀ p ∈ trailing.relations, p.2.involves "C" = true →
      p.2.ownership "C" = some .own := by decide +kernel
  have hinvolves : r.involves "C" = true := by
    unfold Relation.involves
    rcases Relation.ends_cases he with ⟨-, rfl⟩ | ⟨-, rfl⟩ <;> simp [hcls]
  exact hne (Relation.owner_unique (howner _ hr hinvolves) hown)

end Schema

end SchemaBridge
