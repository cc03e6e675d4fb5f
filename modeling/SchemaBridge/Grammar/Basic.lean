/-
  Context-free grammars with precedence declarations. `T` names the terminals, `N` the
  nonterminals, and every rule bears a tag of type `P`.
-/

namespace SchemaBridge

/-- What happens between two operators of one level. -/
inductive Assoc
  | left | right | nonassoc
  deriving DecidableEq, Repr

/-- A symbol on the right-hand side of a rule. -/
inductive Symbol (T N : Type)
  | terminal (t : T)
  | nonterminal (n : N)
  deriving DecidableEq, Repr

namespace Symbol

variable {T N : Type}

def terminal? : Symbol T N → Option T
  | terminal t => some t
  | nonterminal _ => none

def nonterminal? : Symbol T N → Option N
  | terminal _ => none
  | nonterminal n => some n

end Symbol

/-- A rule `lhs → rhs`. -/
structure Rule (T N P : Type) where
  lhs : N
  rhs : List (Symbol T N)
  tag : P
  deriving DecidableEq, Repr

/-- A grammar. Of two precedence levels the later one binds tighter. -/
structure Grammar (T N P : Type) where
  start : N
  rules : List (Rule T N P)
  levels : List (Assoc × List T) := []

/-- Why a list of rules is no grammar. -/
inductive GrammarError (N : Type)
  | undefinedStart (name : N)
  | undefinedSymbol (name : N)
  deriving DecidableEq, Repr

def GrammarError.message : GrammarError String → String
  | undefinedStart name => "Start symbol '" ++ name ++ "' has no productions"
  | undefinedSymbol name => "Nonterminal '" ++ name ++ "' is used but has no productions"

namespace Grammar

variable {T N P : Type} [DecidableEq T] [DecidableEq N]

/-- The nonterminal has a rule. -/
def defines (g : Grammar T N P) (n : N) : Bool :=
  g.rules.any (·.lhs == n)

/-- The nonterminals on the right-hand sides, in order. -/
def used (g : Grammar T N P) : List N :=
  g.rules.flatMap fun r => r.rhs.filterMap Symbol.nonterminal?

/-- The terminals on the right-hand sides, in order. -/
def terminals (g : Grammar T N P) : List T :=
  g.rules.flatMap fun r => r.rhs.filterMap Symbol.terminal?

/-- The left-hand sides, in order. -/
def heads (g : Grammar T N P) : List N :=
  g.rules.map Rule.lhs

/-- The number of symbols on all right-hand sides. -/
def size (g : Grammar T N P) : Nat :=
  (g.rules.flatMap fun r => r.rhs).length

/-- The first fault of a grammar: a start symbol or another nonterminal without a rule. -/
def fault (g : Grammar T N P) : Option (GrammarError N) :=
  if g.defines g.start then (g.used.find? fun n => !g.defines n).map .undefinedSymbol
  else some (.undefinedStart g.start)

/-- The level of a terminal, counted from one, and its associativity. The last declaration of a
terminal counts. -/
def strengthIn (levels : List (Assoc × List T)) (t : T) : Option (Nat × Assoc) :=
  (levels.zipIdx 1).foldl
    (fun found l => if t ∈ l.1.2 then some (l.2, l.1.1) else found) none

def strength (g : Grammar T N P) (t : T) : Option (Nat × Assoc) :=
  strengthIn g.levels t

/-- A rule is as strong as the last of its terminals that has a level. -/
def ruleStrength (g : Grammar T N P) (r : Rule T N P) : Option (Nat × Assoc) :=
  (r.rhs.filterMap fun x => x.terminal?.bind g.strength).getLast?

end Grammar

end SchemaBridge
