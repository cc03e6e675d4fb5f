/-
  Sets of characters given by the code points where membership changes.
-/

namespace SchemaBridge.Text

/-- A set of characters. `bounds` ascends; a character is inside when the number of bounds up to
its code point is odd. -/
structure CharSet where
  bounds : List Nat

/-- Whether an odd number of the ascending `bounds` lies at or below `n`. -/
def oddBelow (bounds : List Nat) (n : Nat) : Bool :=
  match bounds with
  | [] => false
  | b :: rest => b ≤ n && !oddBelow rest n

def CharSet.contains (s : CharSet) (c : Char) : Bool :=
  oddBelow s.bounds c.toNat

end SchemaBridge.Text
