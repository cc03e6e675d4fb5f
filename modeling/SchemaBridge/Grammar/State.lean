/-
  The states of the automaton of a grammar: sets of rules with a mark in them, closed under the
  rules of the nonterminals behind the marks.
-/
import SchemaBridge.Grammar.Basic
import SchemaBridge.Grammar.Reach

namespace SchemaBridge

/-- A rule with a mark after `dot` of its symbols. Rule zero leads from a symbol above the
grammar to its start symbol; the rules of the grammar follow from one on. -/
structure Item where
  rule : Nat
  dot : Nat
  deriving DecidableEq, Repr

/-- The items of a state, ascending by rule and then by mark. -/
abbrev State := List Item

namespace Grammar

variable {T N P : Type} [DecidableEq T] [DecidableEq N]

/-- The right-hand side of a rule, by its number. -/
def rhsOf (g : Grammar T N P) : Nat → List (Symbol T N)
  | 0 => [.nonterminal g.start]
  | i + 1 => ((g.rules[i]?).map Rule.rhs).getD []

/-- The symbol behind the mark. -/
def nextSymbol (g : Grammar T N P) (item : Item) : Option (Symbol T N) :=
  (g.rhsOf item.rule)[item.dot]?

/-- The nonterminals that begin a rule of `n`. -/
def openers (g : Grammar T N P) (n : N) : List N :=
  (g.rules.filter (·.lhs == n)).filterMap fun r => r.rhs.head?.bind Symbol.nonterminal?

/-- The nonterminals that the marks of a kernel expect, in one or more steps. -/
def expected (g : Grammar T N P) (kernel : State) : List N :=
  reach g.openers (kernel.length + g.size)
    (kernel.filterMap fun item => (g.nextSymbol item).bind Symbol.nonterminal?)

/-- The state of a kernel: its items, and unmarked rules for the nonterminals they expect. -/
def closure (g : Grammar T N P) (kernel : State) : State :=
  let heads := g.expected kernel
  kernel.filter (·.rule == 0) ++
    (g.rules.zipIdx 1).flatMap fun (r, i) =>
      (if r.lhs ∈ heads then [⟨i, 0⟩] else []) ++ kernel.filter (·.rule == i)

/-- The items of a state with the mark moved over a symbol. -/
def advance (g : Grammar T N P) (s : State) (x : Symbol T N) : State :=
  (s.filter fun item => g.nextSymbol item == some x).map fun item => ⟨item.rule, item.dot + 1⟩

/-- The state after a symbol. -/
def goto (g : Grammar T N P) (s : State) (x : Symbol T N) : State :=
  g.closure (g.advance s x)

/-- The symbols behind the marks of a state, each once. -/
def nextSymbols (g : Grammar T N P) (s : State) : List (Symbol T N) :=
  (s.filterMap g.nextSymbol).eraseDups

def successors (g : Grammar T N P) (s : State) : List State :=
  (g.nextSymbols s).map (g.goto s)

/-- The state before the first token. -/
def initialState (g : Grammar T N P) : State :=
  g.closure [⟨0, 0⟩]

/-- The number of items there are. -/
def itemCount (g : Grammar T N P) : Nat :=
  2 + g.size + g.rules.length

/-- All states, in the order they are found. -/
def states (g : Grammar T N P) : List State :=
  reach g.successors (1 + Nat.pow 2 g.itemCount * g.itemCount) [g.initialState]

end Grammar

end SchemaBridge
