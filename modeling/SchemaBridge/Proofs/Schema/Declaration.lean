/-
  Classes and relations in any order. The links of a class come about in two ways: a class that is
  made late is linked to the relations that name it already, and a relation that is made late is
  linked to the classes that are there. What comes of it is the same, for outline, relations and
  next number do not depend on how the two kinds of declarations are mixed, and these determine a
  consistent schema.
  Main result: `declarations_interleave`.
-/
import SchemaBridge.Proofs.Schema.Outline
import Mathlib.Data.List.Induction

namespace SchemaBridge

/-- A class or a relation that is declared. -/
inductive Declaration
  | cls (name : String)
  | relation (r : Relation)
  deriving DecidableEq

namespace Schema

/-- One more declaration. A class that is there already stays as it is. -/
def declare (s : Schema) : Declaration → Schema
  | .cls name => s.ensureClass name
  | .relation r => s.addRelation r

/-- The schema of some declarations, the first one first. -/
def declared (declarations : List Declaration) : Schema :=
  declarations.foldl declare .empty

end Schema

/-- The declarations are these classes and these relations, each in their order, mixed in any
way. -/
inductive Interleaves : List String → List Relation → List Declaration → Prop
  | nil : Interleaves [] [] []
  | cls (name : String) {names : List String} {relations : List Relation}
      {declarations : List Declaration} (h : Interleaves names relations declarations) :
      Interleaves (name :: names) relations (.cls name :: declarations)
  | relation (r : Relation) {names : List String} {relations : List Relation}
      {declarations : List Declaration} (h : Interleaves names relations declarations) :
      Interleaves names (r :: relations) (.relation r :: declarations)

namespace Schema

variable {s : Schema}

theorem Consistent.declare (h : s.Consistent) (d : Declaration) : (s.declare d).Consistent := by
  cases d with
  | cls name => exact h.ensureClass name
  | relation r => exact h.addRelation r

theorem Consistent.declareAll (h : s.Consistent) (declarations : List Declaration) :
    (declarations.foldl Schema.declare s).Consistent := by
  induction declarations generalizing s with
  | nil => exact h
  | cons d rest ih => exact ih (h.declare d)

/-! ## What the classes bring about -/

/-- An outline with a class of this name, at the end if it is a new one. -/
def enter (outline : List (String × List Field)) (name : String) : List (String × List Field) :=
  if name ∈ outline.map Prod.fst then outline else outline ++ [(name, [])]

theorem outline_ensureClass (s : Schema) (name : String) :
    (s.ensureClass name).outline = enter s.outline name := by
  unfold enter
  rw [← names_eq_outline]
  split
  · rename_i h
    exact outline_ensureClass_of_mem h
  · rename_i h
    exact outline_ensureClass_of_not_mem h

theorem foldl_enter (names : List String) :
    names.foldl enter [] = names.eraseDups.map fun name => (name, []) := by
  induction names using List.reverseRecOn with
  | nil => rfl
  | append_singleton names name ih =>
    have hmem : name ∈ (names.eraseDups.map fun n => (n, ([] : List Field))).map Prod.fst ↔
        name ∈ names := by
      simp
    rw [List.foldl_append, List.foldl_cons, List.foldl_nil, ih, List.eraseDups_append]
    unfold enter
    simp only [hmem]
    by_cases h : name ∈ names
    · rw [if_pos h]
      simp [List.removeAll, h]
    · rw [if_neg h]
      simp [List.removeAll, h, List.eraseDups_cons]

end Schema

namespace Interleaves

open Schema

variable {names : List String} {relations : List Relation} {declarations : List Declaration}

theorem outline_eq (h : Interleaves names relations declarations) (s : Schema) :
    (declarations.foldl declare s).outline = names.foldl enter s.outline := by
  induction h generalizing s with
  | nil => rfl
  | cls name _ ih =>
    rw [List.foldl_cons, ih, List.foldl_cons, ← outline_ensureClass]
    rfl
  | relation r _ ih =>
    rw [List.foldl_cons, ih, ← outline_addRelation s r]
    rfl

/-! ## What the relations bring about -/

theorem relations_eq (h : Interleaves names relations declarations) (s : Schema) :
    (declarations.foldl declare s).relations =
      s.relations ++ (relations.zipIdx s.nextRelation).map Prod.swap := by
  induction h generalizing s with
  | nil => exact (List.append_nil _).symm
  | cls name _ ih =>
    rw [List.foldl_cons, ih]
    unfold declare
    rw [relations_ensureClass, nextRelation_ensureClass]
  | relation r _ ih =>
    rw [List.foldl_cons, ih]
    unfold declare
    rw [relations_addRelation, nextRelation_addRelation, List.zipIdx_cons, List.map_cons,
      List.append_assoc]
    rfl

theorem nextRelation_eq (h : Interleaves names relations declarations) (s : Schema) :
    (declarations.foldl declare s).nextRelation = s.nextRelation + relations.length := by
  induction h generalizing s with
  | nil => rfl
  | cls name _ ih =>
    rw [List.foldl_cons, ih]
    unfold declare
    rw [nextRelation_ensureClass]
  | relation r _ ih =>
    rw [List.foldl_cons, ih]
    unfold declare
    rw [nextRelation_addRelation, List.length_cons]
    omega

end Interleaves

/-! ## Any order -/

/-- A schema holds just these classes and relations: the classes without fields, each where it was
first named, the relations numbered from zero on, and every class linked with the relations that
connect it. -/
structure Schema.Holds (s : Schema) (names : List String) (relations : List Relation) : Prop where
  outline_eq : s.outline = names.eraseDups.map fun name => (name, [])
  relations_eq : s.relations = relations.zipIdx.map Prod.swap
  nextRelation_eq : s.nextRelation = relations.length
  consistent : s.Consistent

namespace Schema

section AnyOrder

variable {names : List String} {relations : List Relation}
  {declarations declarations' : List Declaration}

/-- There is only one such schema. -/
theorem Holds.unique {s t : Schema} (hs : s.Holds names relations) (ht : t.Holds names relations) :
    s = t :=
  hs.consistent.ext ht.consistent (hs.outline_eq.trans ht.outline_eq.symm)
    (hs.relations_eq.trans ht.relations_eq.symm)
    (hs.nextRelation_eq.trans ht.nextRelation_eq.symm)

theorem holds_declared (h : Interleaves names relations declarations) :
    (declared declarations).Holds names relations where
  outline_eq := (h.outline_eq .empty).trans (foldl_enter names)
  relations_eq := h.relations_eq .empty
  nextRelation_eq := (h.nextRelation_eq .empty).trans (Nat.zero_add _)
  consistent := consistent_empty.declareAll declarations

/-- The order between classes and relations plays no part: classes and relations that are declared
in two orders, mixed in one way and another, make one schema, whatever classes the relations
name. -/
theorem declarations_interleave (h : Interleaves names relations declarations)
    (h' : Interleaves names relations declarations') :
    declared declarations = declared declarations' ∧
      (declared declarations).Holds names relations :=
  ⟨(holds_declared h).unique (holds_declared h'), holds_declared h⟩

end AnyOrder

namespace Late

def names : List String :=
  ["Post", "User", "Post"]

/-- Posts belong to users in two ways, users know each other, and no class is named `Group`. -/
def relations : List Relation :=
  [⟨⟨"Post", .any⟩, ⟨"User", .one⟩⟩, ⟨⟨"User", .any⟩, ⟨"User", .any⟩⟩,
    ⟨⟨"Post", .any⟩, ⟨"Group", .one⟩⟩, ⟨⟨"User", .zeroOrOne⟩, ⟨"Post", .any⟩⟩]

/-- The classes come after relations that name them. -/
def declarations : List Declaration :=
  [.relation ⟨⟨"Post", .any⟩, ⟨"User", .one⟩⟩, .cls "Post",
    .relation ⟨⟨"User", .any⟩, ⟨"User", .any⟩⟩, .relation ⟨⟨"Post", .any⟩, ⟨"Group", .one⟩⟩,
    .cls "User", .relation ⟨⟨"User", .zeroOrOne⟩, ⟨"Post", .any⟩⟩, .cls "Post"]

theorem interleaves : Interleaves names relations declarations :=
  .relation _ (.cls _ (.relation _ (.relation _ (.cls _ (.relation _ (.cls _ .nil))))))

theorem interleaves_in_turn :
    Interleaves names relations (names.map .cls ++ relations.map .relation) :=
  .cls _ (.cls _ (.cls _ (.relation _ (.relation _ (.relation _ (.relation _ .nil))))))

end Late

theorem declarations_interleave_late :
    Interleaves Late.names Late.relations Late.declarations ∧
    Interleaves Late.names Late.relations
      (Late.names.map .cls ++ Late.relations.map .relation) ∧
    declared Late.declarations =
      declared (Late.names.map .cls ++ Late.relations.map .relation) ∧
    (declared Late.declarations).Holds Late.names Late.relations ∧
    (declared Late.declarations).names = ["Post", "User"] := by
  obtain ⟨hsame, hholds⟩ :=
    declarations_interleave Late.interleaves Late.interleaves_in_turn
  exact ⟨Late.interleaves, Late.interleaves_in_turn, hsame, hholds, by decide +kernel⟩

end Schema

end SchemaBridge
