/-
  Dropping a table that was just made. A table with a class leaves nothing behind: the class goes,
  and with it the relations of its keys. A table that is folded into a relation between two other
  classes leaves that relation, since dropping looks for the class of the table alone.
  Main result: `Schema.drop_undoes_create_iff`.
-/
import SchemaBridge.Proofs.Statement.Effect

namespace SchemaBridge

namespace Schema

variable {s t : Schema}

theorem Consistent.advance (h : s.Consistent) {next : Nat} (hle : s.nextRelation ≤ next) :
    Consistent { s with nextRelation := next } where
  names_nodup := h.names_nodup
  ids_ascend := h.ids_ascend
  ids_lt := fun p hp => Nat.lt_of_lt_of_le (h.ids_lt p hp) hle
  links_canonical := h.links_canonical
  get_links := h.get_links

/-- A new class goes with all that was made along with it. -/
theorem Becomes.removeClass (hs : s.Consistent) {name : String} {fields : List Field}
    {new : List Relation} (hfresh : name ∉ s.names)
    (hold : ∀ p ∈ s.relations, p.2.involves name = false) (hnew : ∀ r ∈ new, r.involves name = true)
    (h : Becomes s t (s.outline ++ [(name, fields)]) s.relations new) :
    t.removeClass name = { s with nextRelation := s.nextRelation + new.length } := by
  have hname : name ∈ t.names := by
    rw [names_eq_outline, h.outline_eq, List.map_append]
    exact List.mem_append_right _ List.mem_cons_self
  apply (h.consistent.removeClass name).ext (hs.advance (Nat.le_add_right _ _))
  · have hothers : ∀ e ∈ s.outline, ¬(e.1 == name) = true := fun e he heq =>
      ne_of_mem_outline hfresh he (beq_iff_eq.mp heq)
    rw [outline_removeClass h.consistent hname, h.outline_eq, List.eraseP_append_right _ hothers,
      List.eraseP_cons_of_pos (by simp), List.append_nil]
    rfl
  · have hkept : (s.relations.filter fun p => !p.2.involves name) = s.relations := by
      apply List.filter_eq_self.mpr
      intro p hp
      rw [hold p hp]
      rfl
    have hgone : ((new.mapIdx fun i r => (s.nextRelation + i, r)).filter fun p =>
        !p.2.involves name) = [] := by
      apply List.filter_eq_nil_iff.mpr
      intro p hp
      obtain ⟨i, hi, rfl⟩ := List.mem_mapIdx.mp hp
      rw [hnew _ (List.getElem_mem hi)]
      exact Bool.false_ne_true
    rw [relations_removeClass h.consistent hname, h.relations_eq, List.filter_append, hkept, hgone,
      List.append_nil]
  · rw [nextRelation_removeClass hname, h.next_eq]

end Schema

namespace Statement

open Schema (Becomes)

variable {m : Summary} {s t : Schema}

/-- A text that drops a table takes the class of the table away. -/
theorem Says.migrate_of_drop {text : String} (h : Says text m) (haction : m.action = .drop) :
    s.migrate text = .ok (s.removeClass m.cls) := by
  obtain ⟨statement, hread, rfl⟩ := h.read
  unfold Schema.migrate
  rw [hread]
  show Except.ok (statement.change.commit s) = _
  rw [change_eq_ofSummary]
  unfold TableChange.commit
  rw [show (TableChange.ofSummary _).action = some TableAction.drop from congrArg some haction]
  rfl

theorem involves_of_mem_relations {existing : List Field} {r : Relation}
    (h : r ∈ m.relations existing) : r.involves m.cls = true := by
  obtain ⟨i, hi, rfl⟩ := List.mem_mapIdx.mp h
  exact Bool.or_eq_true_iff.mpr (.inl (beq_self_eq_true m.cls))

/-- Made and dropped, a table with a class leaves numbers of relations that are not used again. -/
theorem Effect.removeClass_of_create (h : Effect m s t) (hs : s.Consistent)
    (haction : m.action = .create) (hjunction : m.junction = none) (hfresh : m.cls ∉ s.names)
    (hold : ∀ p ∈ s.relations, p.2.involves m.cls = false) :
    t.removeClass m.cls = { s with nextRelation := s.nextRelation + (m.relations []).length } :=
  (h.becomes_of_create haction hjunction hfresh).removeClass hs hfresh hold fun _ =>
    involves_of_mem_relations

/-- Made and dropped, a junction leaves the relation that it was folded into. -/
theorem Effect.removeClass_of_link (h : Effect m s t) (hs : s.Consistent)
    (haction : m.action = .create) {a b : String} (hjunction : m.junction = some (a, b))
    (hfresh : m.cls ∉ s.names) :
    t.removeClass m.cls = s.addRelation ⟨⟨a, .any⟩, ⟨b, .any⟩⟩ := by
  have hadded := (h.becomes_of_link haction hjunction).unique (Schema.becomes_addRelation hs _)
  rw [hadded]
  apply Schema.removeClass_of_not_mem
  rw [Schema.names_eq_outline, Schema.outline_addRelation, ← Schema.names_eq_outline]
  exact hfresh

/-- A further relation is no mere number. -/
theorem addRelation_ne (s : Schema) (r : Relation) (next : Nat) :
    s.addRelation r ≠ { s with nextRelation := next } := by
  intro hsame
  have hlength := congrArg (·.relations.length) hsame
  dsimp only at hlength
  rw [Schema.relations_addRelation, List.length_append, List.length_singleton] at hlength
  omega

end Statement

open Statement

/-- Dropping a table undoes making it, but for the numbers of relations, if and only if the table was
not folded into a relation between two classes. Such a relation stays. -/
theorem Schema.drop_undoes_create_iff {s : Schema} (hs : s.Reachable) {m : Summary}
    (haction : m.action = .create) {making dropping : String} (hmaking : Says making m)
    (hdropping : Says dropping ⟨.drop, m.table, []⟩) (hfresh : m.cls ∉ s.names)
    (hold : ∀ p ∈ s.relations, p.2.involves m.cls = false) :
    ∃ t u, s.migrate making = .ok t ∧ t.migrate dropping = .ok u ∧
      ((∃ next, u = { s with nextRelation := next }) ↔ m.junction = none) ∧
      ∀ a b, m.junction = some (a, b) → u = s.addRelation ⟨⟨a, .any⟩, ⟨b, .any⟩⟩ := by
  obtain ⟨t, hmade, ht⟩ := hmaking.migrate hs.consistent (by rw [haction]; decide)
  refine ⟨t, t.removeClass m.cls, hmade, hdropping.migrate_of_drop rfl, ?_⟩
  cases hjunction : m.junction with
  | none =>
    have hundone := ht.removeClass_of_create hs.consistent haction hjunction hfresh hold
    exact ⟨⟨fun _ => rfl, fun _ => ⟨_, hundone⟩⟩, nofun⟩
  | some classes =>
    have hleft := ht.removeClass_of_link hs.consistent haction hjunction hfresh
    refine ⟨⟨?_, nofun⟩, ?_⟩
    · rintro ⟨next, hsame⟩
      exact absurd (hleft.symm.trans hsame) (addRelation_ne s _ next)
    · rintro a b hab
      cases hab
      exact hleft

namespace Statement

def makeComments : String :=
  "Schema::create('comments', function ($table) \x7b
    $table->foreignId('post_id');
\x7d);"

def dropComments : String :=
  "Schema::dropIfExists('comments');"

theorem drop_undoes_comments : ∃ t u, Schema.empty.migrate makeComments = .ok t ∧
    t.migrate dropComments = .ok u ∧ ∃ next, u = { Schema.empty with nextRelation := next } := by
  have hmaking : Says makeComments
      ⟨.create, "comments", [.reference ⟨"Post", ["post_id"], {}⟩]⟩ := by
    decide +kernel
  have hdropping : Says dropComments ⟨.drop, "comments", []⟩ := by decide +kernel
  obtain ⟨t, u, hmade, hdropped, hundone, -⟩ :=
    Schema.drop_undoes_create_iff .empty rfl hmaking hdropping List.not_mem_nil
      (List.forall_mem_nil _)
  exact ⟨t, u, hmade, hdropped, hundone.mpr (by decide +kernel)⟩

def makePostTag : String :=
  "Schema::create('post_tag', function ($table) \x7b
    $table->id();
\x7d);"

def dropPostTag : String :=
  "Schema::dropIfExists('post_tag');"

/-- The relation of posts and tags outlives its table. -/
theorem drop_leaves_junction : ∃ t u, Schema.empty.migrate makePostTag = .ok t ∧
    t.migrate dropPostTag = .ok u ∧ u.relations = [(0, ⟨⟨"Post", .any⟩, ⟨"Tag", .any⟩⟩)] ∧
    ¬∃ next, u = { Schema.empty with nextRelation := next } := by
  have hmaking : Says makePostTag
      ⟨.create, "post_tag", [.column ⟨"id", some .int, { primary := true }⟩]⟩ := by
    decide +kernel
  have hdropping : Says dropPostTag ⟨.drop, "post_tag", []⟩ := by decide +kernel
  obtain ⟨t, hmade, ht⟩ := hmaking.migrate Schema.consistent_empty TableAction.noConfusion
  have hleft := ht.removeClass_of_link (a := "Post") (b := "Tag") Schema.consistent_empty rfl
    (by decide +kernel) List.not_mem_nil
  have hdropped : t.migrate dropPostTag = .ok (t.removeClass (Naming.className "post_tag")) :=
    hdropping.migrate_of_drop rfl
  exact ⟨t, _, hmade, hdropped.trans (congrArg Except.ok hleft), rfl,
    fun ⟨next, hsame⟩ => addRelation_ne _ _ next hsame⟩

end Statement

end SchemaBridge
