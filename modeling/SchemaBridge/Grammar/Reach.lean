/-
  What can be reached in a finite graph.
-/

namespace SchemaBridge

variable {α : Type} [DecidableEq α]

/-- Visits the nodes of `todo` and whatever follows from them, first come, first served, and
lists them after those already `seen`. One unit of fuel is spent on each entry of `todo`. -/
def reachFrom (next : α → List α) (fuel : Nat) (seen todo : List α) : List α :=
  match fuel, todo with
  | 0, _ => seen
  | _ + 1, [] => seen
  | fuel + 1, x :: rest =>
    if x ∈ seen then reachFrom next fuel seen rest
    else reachFrom next fuel (seen ++ [x]) (rest ++ next x)

/-- The nodes that can be reached from `seeds`, each once. -/
def reach (next : α → List α) (fuel : Nat) (seeds : List α) : List α :=
  reachFrom next fuel [] seeds

end SchemaBridge
