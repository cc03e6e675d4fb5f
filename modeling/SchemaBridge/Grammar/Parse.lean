/-
  Parsing: a stack of states and trees, one action at a time, driven by the tables of a grammar.
-/
import SchemaBridge.Grammar.Table
import SchemaBridge.Grammar.Tree

namespace SchemaBridge

/-- Why a parse stops short. -/
inductive ParseFailure (E : Type)
  | /-- The source of tokens failed. -/ source (cause : E)
  | /-- Nothing can be done with this token, or with the end of the input, here. -/
    unexpected (text : String) (offset : Nat)
  | /-- The token is an operator that does not associate with the one before. -/
    nonassoc (text : String) (offset : Nat)
  | /-- No rule holds such a token. -/ unknown (text : String) (offset : Nat)
  deriving DecidableEq, Repr

/-- A state on the stack with the tree that led to it. -/
structure Frame (T N P : Type) where
  state : Nat
  tree : Tree T N P

/-- The stack, its top first, and the tokens not yet taken. -/
structure Config (T N P : Type) where
  stack : List (Frame T N P)
  input : List (Token T)

/-- How a parse ends, with the trees it has built if it fails. -/
inductive ParseOutcome (T N P E : Type)
  | accepted (tree : Tree T N P)
  | failed (cause : ParseFailure E) (forest : List (Tree T N P))
  | /-- Steps go on for ever. -/ endless (forest : List (Tree T N P))

namespace Config

variable {T N P : Type}

/-- The state on top of a stack. -/
def stateOf (stack : List (Frame T N P)) : Nat :=
  (stack.head?.map Frame.state).getD 0

/-- The trees on the stack, the oldest first. -/
def forest (c : Config T N P) : List (Tree T N P) :=
  c.stack.reverse.map Frame.tree

/-- The text and the place of the next token; at the end the empty text and the end's place. -/
def position (c : Config T N P) (finish : Nat) : String × Nat :=
  match c.input with
  | token :: _ => (token.text, token.offset)
  | [] => ("", finish)

/-- Nothing is built, and nothing is taken. -/
def initial (tokens : List (Token T)) : Config T N P :=
  ⟨[], tokens⟩

end Config

/-- The result of one step. -/
inductive ParseStep (T N P E : Type)
  | next (c : Config T N P)
  | done (outcome : ParseOutcome T N P E)

namespace Automaton

variable {T N P E : Type} [DecidableEq T] [DecidableEq N]

/-- A parse that fails at the next token. -/
def failAt (c : Config T N P) (cause : ParseFailure E) : ParseStep T N P E :=
  .done (.failed cause c.forest)

/-- Takes the next token onto the stack. -/
def shift (c : Config T N P) (state : Nat) (finish : Nat) : ParseStep T N P E :=
  match c.input with
  | token :: rest => .next ⟨⟨state, .leaf token⟩ :: c.stack, rest⟩
  | [] => failAt c (.unexpected "" finish)

/-- Puts the topmost trees together by a rule. -/
def reduce (a : Automaton T N P) (c : Config T N P) (rule : Rule T N P) (finish : Nat) :
    ParseStep T N P E :=
  let arity := rule.rhs.length
  let children := (c.stack.take arity).reverse.map Frame.tree
  let below := c.stack.drop arity
  match a.goto (Config.stateOf below) rule.lhs with
  | some state => .next ⟨⟨state, .node rule children⟩ :: below, c.input⟩
  | none =>
    let (text, offset) := c.position finish
    failAt c (.unexpected text offset)

/-- Ends with the tree on top of the stack. -/
def accept (c : Config T N P) (finish : Nat) : ParseStep T N P E :=
  match c.stack with
  | frame :: _ => .done (.accepted frame.tree)
  | [] => failAt c (.unexpected "" finish)

/-- One step. `finish` is the place of the end of the input, where `failure` ends it. -/
def step (a : Automaton T N P) (failure : Option E) (finish : Nat) (c : Config T N P) :
    ParseStep T N P E :=
  let (text, offset) := c.position finish
  match c.input, failure with
  | [], some e => failAt c (.source e)
  | input, _ =>
    let lookahead := input.head?.map Token.kind
    if lookahead.all (· ∈ a.terminals) then
      match a.action (Config.stateOf c.stack) lookahead with
      | some (.shift state) => shift c state finish
      | some (.reduce rule) => a.reduce c rule finish
      | some .accept => accept c finish
      | some .nonassoc => failAt c (.nonassoc text offset)
      | none => failAt c (.unexpected text offset)
    else failAt c (.unknown text offset)

/-- At most `fuel` steps. -/
def run (a : Automaton T N P) (failure : Option E) (finish : Nat) :
    Nat → Config T N P → ParseOutcome T N P E
  | 0, c => .endless c.forest
  | fuel + 1, c =>
    match a.step failure finish c with
    | .next c' => a.run failure finish fuel c'
    | .done outcome => outcome

/-- More steps than any parse that ends takes. Between two tokens the stack grows by no more than
the number of states, or else a state comes back above itself and the parse does not end; and no
stack comes back. -/
def stepBound (a : Automaton T N P) (tokens : Nat) : Nat :=
  (tokens + 2) * (tokens + 2) * Nat.pow (a.rows.length + 2) (a.rows.length + 3)

/-- Parses the tokens of a source. -/
def parse (a : Automaton T N P) (source : Source T E) (finish : Nat) : ParseOutcome T N P E :=
  a.run source.failure finish (a.stepBound source.tokens.length) (.initial source.tokens)

end Automaton

end SchemaBridge
