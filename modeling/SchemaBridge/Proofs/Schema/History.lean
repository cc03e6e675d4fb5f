/-
  Schemas over time. A history is a list of schemas in which each comes from the one before by one
  step: an operation, a change to a table, a statement, or ordering. Every step consists of edits,
  and an edit takes new numbers from `nextRelation` on only; so `Follows` holds between any two
  moments, and a number is never given to a second relation.
  Main result: `history_keeps_invariant`.
-/
import SchemaBridge.Proofs.Schema.CreationOrder

namespace SchemaBridge.Schema

/-! ## What holds at every moment -/

/-- The invariant of schemas, in terms of looking up: what a class has on file about another one are
the live relations between the two. -/
structure Linked (s : Schema) : Prop where
  names_nodup : s.names.Nodup
  ids_lt : ∀ id r, s.relation? id = some r → id < s.nextRelation
  /-- Every other class has one entry at most. -/
  others_ascend : ∀ c ∈ s.classes, (c.links.map Prod.fst).Pairwise (· < ·)
  /-- There is an entry just if a live relation connects the two classes. -/
  lookup_links : ∀ c ∈ s.classes, ∀ other, c.links.lookup other =
    if s.relationsBetween c.name other = [] then none else some (s.relationsBetween c.name other)
  mem_between : ∀ a b id, id ∈ s.relationsBetween a b ↔
    ∃ r, s.relation? id = some r ∧ r.connects a b = true
  between_ascend : ∀ a b, (s.relationsBetween a b).Pairwise (· < ·)

variable {s t u : Schema}

theorem Consistent.lookup_links (h : s.Consistent) {c : Class} (hc : c ∈ s.classes)
    (other : String) : c.links.lookup other =
      if s.relationsBetween c.name other = [] then none
      else some (s.relationsBetween c.name other) := by
  rw [← h.get_links c hc]
  unfold Links.get
  cases hl : c.links.lookup other with
  | none => rfl
  | some ids =>
    obtain ⟨before, after, heq, -⟩ := List.lookup_eq_some_iff.mp hl
    have hmem : (other, ids) ∈ c.links := by
      rw [heq]
      exact List.mem_append_right _ List.mem_cons_self
    have hne : ids ≠ [] := (h.links_canonical c hc).filled _ hmem
    rw [Option.getD_some, if_neg hne]

theorem Consistent.linked (h : s.Consistent) : s.Linked where
  names_nodup := h.names_nodup
  ids_lt _ _ hr := h.ids_lt _ (relation?_some_mem hr)
  others_ascend c hc := List.pairwise_map.mpr (h.links_canonical c hc).ascending
  lookup_links _ hc := h.lookup_links hc
  mem_between a b id := by
    rw [mem_relationsBetween]
    simp only [h.relation?_eq_some_iff]
  between_ascend _ _ := List.pairwise_map.mpr (h.ids_ascend.filter _)

/-! ## What holds from one moment to a later one -/

/-- The numbers of the live relations. -/
def ids (s : Schema) : List RelationId :=
  s.relations.map Prod.fst

/-- Numbers given before are not given again: a relation of the later schema that has one of them is
a relation of the earlier one, between the same classes. -/
structure Follows (s t : Schema) : Prop where
  next_le : s.nextRelation ≤ t.nextRelation
  kept : ∀ p ∈ t.relations, p.1 < s.nextRelation → ∃ q ∈ s.relations, q.1 = p.1 ∧
    q.2.source.cls = p.2.source.cls ∧ q.2.target.cls = p.2.target.cls

theorem follows_of_sublist (hnext : t.nextRelation = s.nextRelation)
    (hrelations : t.relations.Sublist s.relations) : Follows s t :=
  ⟨Nat.le_of_eq hnext.symm, fun p hp _ => ⟨p, hrelations.mem hp, rfl, rfl, rfl⟩⟩

theorem Follows.refl (s : Schema) : Follows s s :=
  follows_of_sublist rfl (List.Sublist.refl _)

theorem Follows.trans (hst : Follows s t) (htu : Follows t u) : Follows s u := by
  refine ⟨Nat.le_trans hst.next_le htu.next_le, fun p hp hlt => ?_⟩
  obtain ⟨q, hq, hid, hsource, htarget⟩ := htu.kept p hp (Nat.lt_of_lt_of_le hlt hst.next_le)
  obtain ⟨r, hr, hid', hsource', htarget'⟩ := hst.kept q hq (hid ▸ hlt)
  exact ⟨r, hr, hid'.trans hid, hsource'.trans hsource, htarget'.trans htarget⟩

instance : Trans Follows Follows Follows :=
  ⟨Follows.trans⟩

theorem follows_ensureClass (s : Schema) (name : String) : Follows s (s.ensureClass name) := by
  unfold ensureClass
  split
  · exact .refl s
  · exact follows_of_sublist rfl (List.Sublist.refl _)

theorem follows_removeRelation (s : Schema) (id : RelationId) : Follows s (s.removeRelation id) := by
  unfold removeRelation
  split
  · exact .refl s
  · exact follows_of_sublist rfl List.filter_sublist

theorem follows_removeClass (s : Schema) (name : String) : Follows s (s.removeClass name) := by
  have hfold : ∀ (ids : List RelationId) (t : Schema),
      Follows t (ids.foldl removeRelation t) := by
    intro ids
    induction ids with
    | nil => exact Follows.refl
    | cons id rest ih => exact fun t => (follows_removeRelation t id).trans (ih _)
  unfold removeClass
  split
  · have herased : Follows s { s with classes := s.classes.eraseP (·.name == name) } :=
      follows_of_sublist rfl (List.Sublist.refl _)
    exact herased.trans (hfold _ _)
  · exact .refl s

/-- A new relation has the number that was the next one. -/
theorem follows_addRelation (s : Schema) (r : Relation) : Follows s (s.addRelation r) := by
  rw [addRelation_eq]
  refine ⟨Nat.le_succ _, fun p hp hlt => ?_⟩
  rcases List.mem_append.mp hp with hp | hp
  · exact ⟨p, hp, rfl, rfl, rfl⟩
  · rw [List.mem_singleton.mp hp] at hlt
    exact absurd hlt (Nat.lt_irrefl _)

theorem follows_setMultiplicities (s : Schema) (id : RelationId) (source target : Multiplicity) :
    Follows s (s.setMultiplicities id source target) := by
  refine ⟨Nat.le_refl _, fun p hp _ => ?_⟩
  obtain ⟨q, hq, rfl⟩ := List.mem_map.mp hp
  refine ⟨q, hq, ?_⟩
  split <;> exact ⟨rfl, rfl, rfl⟩

theorem Edit.follows (h : Edit s t) : Follows s t := by
  cases h with
  | ensureClass name => exact follows_ensureClass s name
  | setFields name f => exact follows_of_sublist rfl (List.Sublist.refl _)
  | removeClass name => exact follows_removeClass s name
  | addRelation r => exact follows_addRelation s r
  | removeRelation id => exact follows_removeRelation s id
  | setMultiplicities id source target => exact follows_setMultiplicities s id source target

theorem follows_of_edits (h : Edits s t) : Follows s t := by
  induction h with
  | refl => exact .refl s
  | tail _ hedit ih => exact ih.trans hedit.follows

/-! ## Histories -/

/-- What takes a schema from one moment to the next. -/
inductive Step : Schema → Schema → Prop
  | edit {s t : Schema} (h : Edit s t) : Step s t
  | /-- A change whose columns belong to keys that it has. -/
    commit (s : Schema) (c : Statement.TableChange)
      (h : ∀ column ∈ c.keyColumns, column.2 < c.keys.length) : Step s (c.commit s)
  | migrate {s t : Schema} (text : String) (h : s.migrate text = .ok t) : Step s t
  | /-- Ordering takes the relations that it defers out of the schema. -/
    order (s : Schema) : Step s s.order.1

theorem edits_migrate {text : String} (h : s.migrate text = .ok t) : Edits s t := by
  unfold migrate at h
  cases hread : Statement.read text with
  | error e =>
    rw [hread] at h
    cases h
  | ok statement =>
    rw [hread] at h
    cases h
    exact statement.edits_apply s

/-- A step consists of edits. -/
theorem Step.edits (h : Step s t) : Edits s t := by
  cases h with
  | edit h => exact .single h
  | commit c _ => exact c.edits_commit s
  | migrate text h => exact edits_migrate h
  | order => exact edits_order s

/-- All schemas of a history that begins with a reachable one are reachable. -/
theorem reachable_of_chain {states : List Schema} (hs : s.Reachable)
    (h : (s :: states).IsChain Step) : ∀ t ∈ s :: states, t.Reachable := by
  induction states generalizing s with
  | nil => exact List.forall_mem_singleton.mpr hs
  | cons t rest ih =>
    obtain ⟨hstep, hrest⟩ := List.isChain_cons_cons.mp h
    exact List.forall_mem_cons.mpr ⟨hs, ih (hs.edits hstep.edits) hrest⟩

/-- A relation of this number is there after the step and was not before. -/
def HandsOut (s t : Schema) (id : RelationId) : Prop :=
  id ∈ t.ids ∧ id ∉ s.ids

theorem Consistent.lt_of_mem_ids (h : s.Consistent) {id : RelationId} (hid : id ∈ s.ids) :
    id < s.nextRelation := by
  obtain ⟨p, hp, rfl⟩ := List.mem_map.mp hid
  exact h.ids_lt p hp

/-- What is handed out was not handed out before. -/
theorem Follows.next_le_of_handsOut (h : Follows s t) {id : RelationId} (hid : HandsOut s t id) :
    s.nextRelation ≤ id := by
  by_contra hlt
  obtain ⟨p, hp, rfl⟩ := List.mem_map.mp hid.1
  obtain ⟨q, hq, heq, -⟩ := h.kept p hp (Nat.lt_of_not_le hlt)
  exact hid.2 (heq ▸ List.mem_map_of_mem hq)

/-- What the schemas of a history have, alone and together. -/
structure Lawful (states : List Schema) : Prop where
  linked : ∀ s ∈ states, s.Linked
  next_le : states.Pairwise fun s t => s.nextRelation ≤ t.nextRelation
  fresh : states.IsChain fun s t => ∀ id, HandsOut s t id →
    s.nextRelation ≤ id ∧ id < t.nextRelation
  /-- A number that was live at one moment is not handed out at that moment or later. -/
  once : ∀ (i j : Nat) (hij : i ≤ j) (hj : j + 1 < states.length) (id : RelationId),
    id ∈ states[i].ids → ¬HandsOut states[j] states[j + 1] id

theorem lawful_of_chain {states : List Schema} (hreachable : ∀ t ∈ states, t.Reachable)
    (h : states.IsChain Step) : Lawful states := by
  have hfollows : states.Pairwise Follows :=
    (h.imp fun _ _ hstep => follows_of_edits hstep.edits).pairwise
  have hindex := List.pairwise_iff_getElem.mp hfollows
  have hfresh : ∀ (j : Nat) (hj : j + 1 < states.length) (id : RelationId),
      HandsOut states[j] states[j + 1] id →
        states[j].nextRelation ≤ id ∧ id < states[j + 1].nextRelation := by
    intro j hj id hid
    have hnext := hindex j (j + 1) (Nat.lt_of_succ_lt hj) hj (Nat.lt_succ_self j)
    exact ⟨hnext.next_le_of_handsOut hid,
      (hreachable _ (List.getElem_mem hj)).consistent.lt_of_mem_ids hid.1⟩
  constructor
  · exact fun t ht => (hreachable t ht).consistent.linked
  · exact hfollows.imp Follows.next_le
  · exact List.isChain_iff_getElem.mpr hfresh
  · intro i j hij hj id hid hout
    have hlt := (hreachable _ (List.getElem_mem (by omega))).consistent.lt_of_mem_ids hid
    have hle : states[i].nextRelation ≤ states[j].nextRelation := by
      rcases Nat.lt_or_eq_of_le hij with hlt | rfl
      · exact (hindex i j (by omega) (by omega) hlt).next_le
      · exact Nat.le_refl _
    exact absurd hlt (Nat.not_lt.mpr (Nat.le_trans hle (hfresh j hj id hout).1))

/-- In a history that begins with the empty schema or one of a diagram, every schema has its links
right, and no number is handed out twice. -/
theorem history_keeps_invariant {states : List Schema}
    (hstart : s = .empty ∨ ∃ text, Diagram.read text = .ok s)
    (h : (s :: states).IsChain Step) : Lawful (s :: states) := by
  apply lawful_of_chain (reachable_of_chain _ h) h
  rcases hstart with rfl | ⟨text, hread⟩
  · exact .empty
  · exact Diagram.reachable_read hread

/-! ### A history -/

/-- A key of one class to another. -/
def firstKey : Relation :=
  ⟨⟨"Post", .any⟩, ⟨"User", .one⟩⟩

/-- A change that adds two keys to the table of the first class, one of them to itself, and drops
the last one to the second class. -/
def rekeying : Statement.TableChange where
  action := some .modify
  table := "posts"
  cls := "Post"
  keys := [⟨"Post", ["parent_id"], .any, .zeroOrOne⟩, ⟨"User", ["editor_id"], .zeroOrOne, .one⟩]
  keyColumns := [("parent_id", 0), ("editor_id", 1)]
  droppedKeys := ["User"]

/-- A class, a relation to a class that comes later, the relation taken out and put in again, and
the change. -/
def postHistory : List Schema :=
  [empty.ensureClass "Post",
    (empty.ensureClass "Post").addRelation firstKey,
    ((empty.ensureClass "Post").addRelation firstKey).ensureClass "User",
    (((empty.ensureClass "Post").addRelation firstKey).ensureClass "User").removeRelation 0,
    ((((empty.ensureClass "Post").addRelation firstKey).ensureClass "User").removeRelation
      0).addRelation firstKey,
    rekeying.commit (((((empty.ensureClass "Post").addRelation firstKey).ensureClass
      "User").removeRelation 0).addRelation firstKey)]

theorem history_keeps_posts :
    (empty :: postHistory).IsChain Step ∧ Lawful (empty :: postHistory) := by
  have hchain : (empty :: postHistory).IsChain Step :=
    .cons_cons (.edit (.ensureClass _ _)) <| .cons_cons (.edit (.addRelation _ _)) <|
      .cons_cons (.edit (.ensureClass _ _)) <| .cons_cons (.edit (.removeRelation _ _)) <|
      .cons_cons (.edit (.addRelation _ _)) <|
      .cons_cons (.commit _ rekeying (by decide)) (.singleton _)
  exact ⟨hchain, history_keeps_invariant (.inl rfl) hchain⟩

-- The relation taken out had the number 0; the others have the numbers from 1 on.
example : (empty :: postHistory).map ids = [[], [], [0], [0], [], [1], [2, 3]] := by
  decide

end SchemaBridge.Schema
