/-
  The schemas that can arise: those built from the empty one by the operations on classes, fields
  and relations. Diagrams and statements act by these operations alone, so whatever is read from
  either is reachable, and every reachable schema is consistent.
-/
import SchemaBridge.Diagram.Read
import SchemaBridge.Proofs.Schema.Consistency
import SchemaBridge.Statement.Read
import Mathlib.Logic.Relation

namespace SchemaBridge

/-- What the operations can build. -/
inductive Schema.Reachable : Schema → Prop
  | empty : Reachable .empty
  | ensureClass {s : Schema} (h : Reachable s) (name : String) : Reachable (s.ensureClass name)
  | setFields {s : Schema} (h : Reachable s) (name : String) (f : List Field → List Field) :
      Reachable (s.modify name fun c => { c with fields := f c.fields })
  | removeClass {s : Schema} (h : Reachable s) (name : String) : Reachable (s.removeClass name)
  | addRelation {s : Schema} (h : Reachable s) (r : Relation) : Reachable (s.addRelation r)
  | removeRelation {s : Schema} (h : Reachable s) (id : RelationId) :
      Reachable (s.removeRelation id)
  | setMultiplicities {s : Schema} (h : Reachable s) (id : RelationId)
      (source target : Multiplicity) : Reachable (s.setMultiplicities id source target)

namespace Schema

theorem Reachable.consistent {s : Schema} (h : s.Reachable) : s.Consistent := by
  induction h with
  | empty => exact consistent_empty
  | ensureClass _ name ih => exact ih.ensureClass name
  | setFields _ name f ih => exact ih.modify_fields name f
  | removeClass _ name ih => exact ih.removeClass name
  | addRelation _ r ih => exact ih.addRelation r
  | removeRelation _ id ih => exact ih.removeRelation id
  | setMultiplicities _ id source target ih => exact ih.setMultiplicities id source target

theorem Reachable.foldl {α : Type} {f : Schema → α → Schema}
    (hf : ∀ (t : Schema) (a : α), t.Reachable → (f t a).Reachable) (as : List α) {s : Schema}
    (h : s.Reachable) : (as.foldl f s).Reachable := by
  induction as generalizing s with
  | nil => exact h
  | cons a rest ih => exact ih (hf s a h)

/-! ## Edits -/

/-- One operation leads from a schema to another. -/
inductive Edit : Schema → Schema → Prop
  | ensureClass (s : Schema) (name : String) : Edit s (s.ensureClass name)
  | setFields (s : Schema) (name : String) (f : List Field → List Field) :
      Edit s (s.modify name fun c => { c with fields := f c.fields })
  | removeClass (s : Schema) (name : String) : Edit s (s.removeClass name)
  | addRelation (s : Schema) (r : Relation) : Edit s (s.addRelation r)
  | removeRelation (s : Schema) (id : RelationId) : Edit s (s.removeRelation id)
  | setMultiplicities (s : Schema) (id : RelationId) (source target : Multiplicity) :
      Edit s (s.setMultiplicities id source target)

/-- Operations one after the other lead from a schema to another. -/
abbrev Edits : Schema → Schema → Prop :=
  Relation.ReflTransGen Edit

theorem Reachable.edit {s t : Schema} (h : s.Reachable) (he : Edit s t) : t.Reachable := by
  cases he with
  | ensureClass name => exact h.ensureClass name
  | setFields name f => exact h.setFields name f
  | removeClass name => exact h.removeClass name
  | addRelation r => exact h.addRelation r
  | removeRelation id => exact h.removeRelation id
  | setMultiplicities id source target => exact h.setMultiplicities id source target

theorem Reachable.edits {s t : Schema} (h : s.Reachable) (he : Edits s t) : t.Reachable := by
  induction he with
  | refl => exact h
  | tail _ hedit ih => exact ih.edit hedit

theorem edits_foldl {α : Type} {f : Schema → α → Schema} (hf : ∀ t a, Edits t (f t a))
    (as : List α) (s : Schema) : Edits s (as.foldl f s) := by
  induction as generalizing s with
  | nil => exact .refl
  | cons a rest ih => exact (hf s a).trans (ih _)

end Schema

/-! ## Diagrams -/

namespace Diagram

theorem Item.reachable_apply {s : Schema} (h : s.Reachable) (item : Item) :
    (item.apply s).Reachable := by
  cases item with
  | marker => exact h
  | cls name fields => exact (h.ensureClass name).setFields name (· ++ fields)
  | relation r => exact ((h.ensureClass _).ensureClass _).addRelation r

theorem reachable_read {text : String} {s : Schema} (h : read text = .ok s) : s.Reachable := by
  unfold read at h
  cases hi : items text with
  | error e =>
    rw [hi] at h
    cases h
  | ok is =>
    rw [hi] at h
    cases h
    exact Schema.Reachable.foldl (fun t item ht => item.reachable_apply ht) is .empty

end Diagram

/-! ## Statements -/

namespace Statement.TableChange

open Schema (Edit Edits)

theorem edits_addKeys (c : TableChange) (s : Schema) : Edits s (c.addKeys s) :=
  Schema.edits_foldl (fun t _ => .single (.addRelation t _)) c.keys s

theorem edits_dropKey (c : TableChange) (s : Schema) (related : String) :
    Edits s (c.dropKey s related) := by
  unfold dropKey
  split
  · exact .single (.removeRelation s _)
  · exact .refl

/-- A change works by operations on the schema. -/
theorem edits_commit (c : TableChange) (s : Schema) : Edits s (c.commit s) := by
  unfold commit
  split
  · exact .refl
  · unfold create
    dsimp only
    split
    · exact .single (.addRelation s _)
    · refine .trans ?_ (edits_addKeys _ _)
      exact .tail (.single (.ensureClass s _)) (.setFields _ _ fun fields => fields ++ _)
  · unfold modify
    dsimp only
    refine .trans (.trans ?_ (Schema.edits_foldl (edits_dropKey _) _ _)) (edits_addKeys _ _)
    exact .tail (.single (.ensureClass s _)) (.setFields _ _ fun _ => _)
  · exact .single (.removeClass s _)

end Statement.TableChange

theorem Statement.edits_apply (statement : Statement) (s : Schema) :
    Schema.Edits s (statement.apply s) :=
  statement.change.edits_commit s

theorem Statement.reachable_apply (statement : Statement) {s : Schema} (h : s.Reachable) :
    (statement.apply s).Reachable :=
  h.edits (statement.edits_apply s)

end SchemaBridge
