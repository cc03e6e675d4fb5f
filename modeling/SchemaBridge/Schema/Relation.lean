/-
  Relations between two classes.
-/

namespace SchemaBridge

/-- How many instances of the class at one end belong to one instance at the other end. -/
inductive Multiplicity
  | one | zeroOrOne | atLeastOne | any
  deriving DecidableEq, Repr

namespace Multiplicity

/-- The place among the multiplicities, the most restrictive first. -/
def rank : Multiplicity → Nat
  | one => 0
  | zeroOrOne => 1
  | atLeastOne => 2
  | any => 3

/-- The more restrictive of two. -/
def min (a b : Multiplicity) : Multiplicity :=
  if a.rank ≤ b.rank then a else b

/-- The less restrictive of two. -/
def max (a b : Multiplicity) : Multiplicity :=
  if a.rank ≤ b.rank then b else a

/-- More than one instance is allowed. -/
def isMany : Multiplicity → Bool
  | any | atLeastOne => true
  | _ => false

/-- At most one instance is allowed. -/
def isSingle (m : Multiplicity) : Bool :=
  !m.isMany

/-- The name of a multiplicity. -/
def name : Multiplicity → String
  | one => "One"
  | zeroOrOne => "ZeroOrOne"
  | atLeastOne => "AtLeastOne"
  | any => "Any"

end Multiplicity

/-- One end of a relation. -/
structure End where
  cls : String
  multiplicity : Multiplicity
  deriving DecidableEq, Repr

/-- An association of two classes. Which end is called the source says nothing about where its
key is stored. -/
structure Relation where
  source : End
  target : End
  deriving DecidableEq, Repr

namespace Relation

/-- Both ends are the same class. -/
def isSelf (r : Relation) : Bool :=
  r.source.cls == r.target.cls

/-- The class is one of the ends. -/
def involves (r : Relation) (cls : String) : Bool :=
  r.source.cls == cls || r.target.cls == cls

/-- The ends are these two classes, in either order. -/
def connects (r : Relation) (a b : String) : Bool :=
  (r.source.cls == a && r.target.cls == b) || (r.source.cls == b && r.target.cls == a)

/-- The own and the other end, as the class sees them. -/
def ends (r : Relation) (cls : String) : Option (End × End) :=
  if r.source.cls = cls then some (r.source, r.target)
  else if r.target.cls = cls then some (r.target, r.source)
  else none

/-- The multiplicity of the class's own end. -/
def multiplicityOf (r : Relation) (cls : String) : Option Multiplicity :=
  (r.ends cls).map fun e => e.1.multiplicity

/-- A relation in words: its ends, with the multiplicities between them. -/
def text (r : Relation) : String :=
  r.source.cls ++ " " ++ r.source.multiplicity.name ++ " -- " ++ r.target.multiplicity.name ++ " "
    ++ r.target.cls

theorem involves_iff_ends {r : Relation} {cls : String} :
    r.involves cls = true ↔ (r.ends cls).isSome := by
  unfold involves ends
  by_cases h1 : r.source.cls = cls <;> by_cases h2 : r.target.cls = cls <;> simp [h1, h2]

theorem connects_comm (r : Relation) (a b : String) : r.connects a b = r.connects b a := by
  simp [connects, Bool.or_comm]

end Relation

end SchemaBridge
