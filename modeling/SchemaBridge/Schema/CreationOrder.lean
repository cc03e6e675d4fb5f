/-
  An order in which tables can be made, each after the tables it refers to. Classes are placed in
  passes; when a pass places none, the rest refer to each other in circles, and one relation is
  taken out of the schema, to be added when all tables exist.
-/
import SchemaBridge.Schema.Basic
import SchemaBridge.Schema.Ownership

namespace SchemaBridge

/-- The result of ordering. -/
structure ClassOrder where
  /-- All classes in the order of creation. -/
  classes : List String := []
  /-- The relations taken out, in the order they were taken. -/
  deferred : List (RelationId × Relation) := []
  /-- The classes left each time a relation was taken out. -/
  cycles : List (List String) := []
  passes : Nat := 0
  deriving DecidableEq, Repr

namespace Schema

/-- The links of the class of this name. -/
def linksAt (s : Schema) (name : String) : Links :=
  ((s.find? name).map Class.links).getD []

/-- The relation makes the class refer to another class. -/
def dependsBy (s : Schema) (name : String) (id : RelationId) : Bool :=
  match s.relation? id with
  | some r => !r.isSelf && r.ownership name == some .own
  | none => false

/-- The relations by which a class refers to one of the `pending` classes other than itself. -/
def blocking (s : Schema) (pending : List String) (name : String) : List RelationId :=
  (s.linksAt name).flatMap fun entry =>
    if pending.contains entry.1 then entry.2.filter (s.dependsBy name) else []

theorem mem_blocking_live {s : Schema} {pending : List String} {name : String} {id : RelationId}
    (h : id ∈ s.blocking pending name) : ∃ r, s.relation? id = some r := by
  simp only [blocking, List.mem_flatMap] at h
  obtain ⟨entry, _, h⟩ := h
  split at h
  · have := (List.mem_filter.mp h).2
    unfold dependsBy at this
    split at this
    · exact ⟨_, ‹_›⟩
    · simp at this
  · simp at h

/-- The first relation that holds back the first class to have one. -/
def firstBlocking (s : Schema) (pending : List String) : Option RelationId :=
  (pending.flatMap (s.blocking pending)).head?

/-- Removing a live relation leaves fewer. -/
theorem length_removeRelation_lt {s : Schema} {id : RelationId} {r : Relation}
    (h : s.relation? id = some r) :
    (s.removeRelation id).relations.length < s.relations.length := by
  obtain ⟨before, after, hs, -⟩ := List.lookup_eq_some_iff.mp h
  simp only [removeRelation, h]
  exact List.length_filter_lt_length_iff_exists.mpr ⟨(id, r), by simp [hs], by simp⟩

end Schema

/-- The state of ordering: what is left of the schema, the classes not yet placed, whether the
last pass placed none, and the result so far. -/
structure Placement where
  schema : Schema
  unplaced : List String
  stalled : Bool
  order : ClassOrder

namespace Placement

/-- The classes that refer to no unplaced class. -/
def ready (p : Placement) : List String :=
  p.unplaced.filter fun c => (p.schema.blocking p.unplaced c).isEmpty

/-- The classes that refer to an unplaced class. -/
def blocked (p : Placement) : List String :=
  p.unplaced.filter fun c => !(p.schema.blocking p.unplaced c).isEmpty

/-- Places all classes that are ready. -/
def pass (p : Placement) : Placement where
  schema := p.schema
  unplaced := p.blocked
  stalled := p.ready.isEmpty
  order := { p.order with
    classes := p.order.classes ++ p.ready
    passes := p.order.passes + 1 }

/-- Takes a relation out of the schema. -/
def defer (p : Placement) (id : RelationId) (r : Relation) : Placement :=
  { p with
    schema := p.schema.removeRelation id
    order := { p.order with
      deferred := p.order.deferred ++ [(id, r)]
      cycles := p.order.cycles ++ [p.unplaced] } }

/-- Places all classes in the order they are in. -/
def placeAll (p : Placement) : Placement :=
  { p with
    unplaced := []
    order := { p.order with classes := p.order.classes ++ p.unplaced } }

/-- The relation to take out after a pass that placed no class. -/
def deferral (p : Placement) : Option (RelationId × Relation) :=
  match p.schema.firstBlocking p.unplaced with
  | none => none
  | some id => (p.schema.relation? id).map (id, ·)

/-- One round: a pass, and before it a deferral if the last pass placed no class. -/
def round (p : Placement) : Placement :=
  if p.stalled then
    match p.deferral with
    | none => p.placeAll
    | some (id, r) => (p.defer id r).pass
  else p.pass

/-- What every round makes smaller. -/
def size (p : Placement) : Nat :=
  2 * (p.unplaced.length + p.schema.relations.length) + if p.stalled then 0 else 1

theorem length_ready_add_blocked (p : Placement) :
    p.ready.length + p.blocked.length = p.unplaced.length := by
  simpa [ready, blocked] using
    (List.filter_append_perm (fun c => (p.schema.blocking p.unplaced c).isEmpty)
      p.unplaced).length_eq

theorem size_pass_le (p : Placement) :
    p.pass.size ≤ 2 * (p.unplaced.length + p.schema.relations.length) := by
  have h := length_ready_add_blocked p
  by_cases hr : p.ready = []
  · simp [pass, size, hr] at h ⊢
    omega
  · have hpos := List.length_pos_iff.mpr hr
    simp [pass, size, hr]
    omega

theorem deferral_live {p : Placement} {id : RelationId} {r : Relation}
    (h : p.deferral = some (id, r)) : p.schema.relation? id = some r := by
  unfold deferral at h
  split at h
  · simp at h
  · obtain ⟨r', hr', heq⟩ := Option.map_eq_some_iff.mp h
    cases heq
    exact hr'

/-- Ordering ends, since each round places a class, takes out a relation, or is followed by one
that takes out a relation. -/
theorem size_round_lt {p : Placement} (h : p.unplaced ≠ []) : p.round.size < p.size := by
  have hpos := List.length_pos_iff.mpr h
  unfold round
  split <;> rename_i hs
  · split
    · simp [placeAll, size, hs]
      omega
    · rename_i id r hd
      have h1 := size_pass_le (p.defer id r)
      have h2 := Schema.length_removeRelation_lt (deferral_live hd)
      simp only [defer, size, hs] at h1 ⊢
      simp
      omega
  · have := size_pass_le p
    simp only [size, hs] at this ⊢
    simp
    omega

/-- Rounds until every class is placed. -/
def run (p : Placement) : Placement :=
  if _h : p.unplaced = [] then p else run p.round
termination_by p.size
decreasing_by exact size_round_lt (by assumption)

end Placement

namespace Schema

/-- The state before the first round. -/
def unordered (s : Schema) : Placement where
  schema := s
  unplaced := s.classes.map Class.name
  stalled := false
  order := {}

/-- An order of the classes, with the schema less the relations taken out. -/
def order (s : Schema) : Schema × ClassOrder :=
  let p := s.unordered.run
  (p.schema, p.order)

end Schema

end SchemaBridge
