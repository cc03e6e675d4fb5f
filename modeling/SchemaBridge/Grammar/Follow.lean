/-
  What nonterminals can derive and what can stand after them: which derive nothing, the terminals
  that can begin them, and the lookaheads that can follow them.
-/
import SchemaBridge.Grammar.Basic
import SchemaBridge.Grammar.Reach

namespace SchemaBridge

namespace Grammar

variable {T N P : Type} [DecidableEq T] [DecidableEq N]

/-- The symbol is one of the nonterminals known to derive the empty text. -/
def vanishes (empty : List N) : Symbol T N → Bool
  | .terminal _ => false
  | .nonterminal n => n ∈ empty

/-- The nonterminals with a derivation of the empty text that is at most `height` rules high. -/
def nullableUpTo (g : Grammar T N P) : Nat → List N
  | 0 => []
  | height + 1 =>
    let empty := g.nullableUpTo height
    (g.rules.filter fun r => r.rhs.all (vanishes empty)).map Rule.lhs

/-- The nonterminals that derive the empty text. A derivation that repeats no nonterminal on a
path is no higher than there are rules. -/
def nullable (g : Grammar T N P) : List N :=
  g.nullableUpTo g.rules.length

/-- The symbols of a list that have only vanishing ones before them. -/
def leading (empty : List N) : List (Symbol T N) → List (Symbol T N)
  | [] => []
  | x :: rest => x :: if vanishes empty x then leading empty rest else []

/-- The symbols that can lead what a symbol derives in one step. -/
def corners (g : Grammar T N P) (empty : List N) : Symbol T N → List (Symbol T N)
  | .terminal _ => []
  | .nonterminal n => (g.rules.filter (·.lhs == n)).flatMap fun r => leading empty r.rhs

/-- The terminals that can begin what a list of symbols derives. -/
def firstOf (g : Grammar T N P) (empty : List N) (symbols : List (Symbol T N)) : List T :=
  (reach (g.corners empty) (symbols.length + g.size) (leading empty symbols)).filterMap
    Symbol.terminal?

/-- The terminals that can begin what a nonterminal derives. -/
def first (g : Grammar T N P) (n : N) : List T :=
  g.firstOf g.nullable [.nonterminal n]

/-- What stands after each occurrence of a nonterminal in a list of symbols. -/
def rests (n : N) : List (Symbol T N) → List (List (Symbol T N))
  | [] => []
  | x :: rest => if x = .nonterminal n then rest :: rests n rest else rests n rest

/-- The nonterminals whose derivations can end in `n` in one step. -/
def endedBy (g : Grammar T N P) (empty : List N) (n : N) : List N :=
  g.rules.flatMap fun r =>
    ((rests n r.rhs).filter fun rest => rest.all (vanishes empty)).map fun _ => r.lhs

/-- The nonterminals whose derivations can end in `n`. -/
def enders (g : Grammar T N P) (empty : List N) (n : N) : List N :=
  reach (g.endedBy empty) (1 + g.size) [n]

/-- The terminals that can stand after `n` in a derivation from a rule that holds `n`. -/
def followers (g : Grammar T N P) (empty : List N) (n : N) : List T :=
  g.rules.flatMap fun r => (rests n r.rhs).flatMap (g.firstOf empty)

/-- What can follow a nonterminal: a terminal, or the end of the input (`none`). -/
def followWith (g : Grammar T N P) (empty : List N) (n : N) : List (Option T) :=
  let above := g.enders empty n
  (if g.start ∈ above then [none] else []) ++ (above.flatMap (g.followers empty)).map some

def follow (g : Grammar T N P) (n : N) : List (Option T) :=
  g.followWith g.nullable n

end Grammar

end SchemaBridge
