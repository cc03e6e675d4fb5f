/-
  Which of its two classes stores the foreign key of a relation.
-/
import SchemaBridge.Schema.Relation

namespace SchemaBridge

/-- Where the key of a relation is stored, as one of its classes sees it. -/
inductive Ownership
  | /-- In the table of this class. -/ own
  | /-- In the table of the other class. -/ other
  | /-- In a table between the two, which holds both keys. -/ junction
  deriving DecidableEq, Repr

namespace Relation

/-- Both ends are many, so neither table can hold the key. -/
def isJunction (r : Relation) : Bool :=
  r.source.multiplicity.isMany && r.target.multiplicity.isMany

/-- Whether, of two ends that are not both many, the first stores the key: a many end stores the
key of a single one, and an optional end that of a mandatory one. Between equal ends the class
that comes first by name stores it. -/
def storesKey (mine theirs : End) : Bool :=
  if theirs.multiplicity.isMany then false
  else if mine.multiplicity.isMany then true
  else if mine.multiplicity = theirs.multiplicity then mine.cls < theirs.cls
  else mine.multiplicity = .zeroOrOne

/-- Where the key is stored, from the class's point of view; `none` for a class that is no end of
the relation. -/
def ownership (r : Relation) (cls : String) : Option Ownership :=
  match r.ends cls with
  | none => none
  | some (mine, theirs) =>
    if mine.multiplicity.isMany && theirs.multiplicity.isMany then some .junction
    else if r.isSelf || storesKey mine theirs then some .own
    else some .other

/-- The multiplicity of the end that the key points at, if the class stores it. Between a class
and itself it is the more restrictive one. -/
def referencedMultiplicity (r : Relation) (cls : String) : Option Multiplicity :=
  (r.ends cls).map fun e =>
    if r.isSelf then e.1.multiplicity.min e.2.multiplicity else e.2.multiplicity

/-- The multiplicity of the end that holds the key, if the class stores it. Between a class and
itself it is the less restrictive one. -/
def owningMultiplicity (r : Relation) (cls : String) : Option Multiplicity :=
  (r.ends cls).map fun e =>
    if r.isSelf then e.1.multiplicity.max e.2.multiplicity else e.1.multiplicity

/-- Exactly one of two different ends that are not both many stores the key. -/
theorem storesKey_swap {a b : End} (hne : a.cls ≠ b.cls)
    (h : ¬(a.multiplicity.isMany = true ∧ b.multiplicity.isMany = true)) :
    storesKey b a = !storesKey a b := by
  have hlt : decide (b.cls < a.cls) = !decide (a.cls < b.cls) := by
    by_cases hab : a.cls < b.cls
    · rw [decide_eq_true hab, decide_eq_false (String.lt_asymm hab)]; rfl
    · have hba : b.cls < a.cls := Decidable.byContradiction fun hba =>
        hne (String.le_antisymm (String.not_lt.mp hba) (String.not_lt.mp hab))
      rw [decide_eq_false hab, decide_eq_true hba]; rfl
  unfold storesKey
  cases ha : a.multiplicity <;> cases hb : b.multiplicity <;> grind [Multiplicity.isMany]

end Relation

end SchemaBridge
