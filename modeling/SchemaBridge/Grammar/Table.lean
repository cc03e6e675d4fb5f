/-
  Parse tables: what to do in each state on each lookahead, with conflicts settled by precedence.
-/
import SchemaBridge.Grammar.Follow
import SchemaBridge.Grammar.State

namespace SchemaBridge

/-- What to do on a lookahead. -/
inductive Action (T N P : Type)
  | /-- Take the token and go to a state. -/ shift (state : Nat)
  | /-- Put a rule together. -/ reduce (rule : Rule T N P)
  | /-- The input is a sentence. -/ accept
  | /-- Two operators that do not associate meet. -/ nonassoc

namespace Grammar

variable {T N P : Type} [DecidableEq T] [DecidableEq N]

/-- Whether a rule or a token that could be shifted goes first. The stronger one does; between
equals the associativity of the token decides, and a token goes first when either has no level. -/
def preferred (g : Grammar T N P) (r : Rule T N P) (t : Option T) (next : Nat) : Action T N P :=
  match g.ruleStrength r, t.bind g.strength with
  | some (rule, _), some (token, assoc) =>
    if token < rule then .reduce r
    else if rule < token then .shift next
    else match assoc with
      | .left => .reduce r
      | .right => .shift next
      | .nonassoc => .nonassoc
  | _, _ => .shift next

/-- Enters a rule to be put together on lookahead `t` into a cell. Of two rules the earlier
stays. -/
def place (g : Grammar T N P) (t : Option T) (cell : Option (Action T N P)) (r : Rule T N P) :
    Option (Action T N P) :=
  match cell with
  | none => some (.reduce r)
  | some (.shift next) => some (g.preferred r t next)
  | some other => some other

/-- The rules whose mark stands at the end in a state. -/
def complete (g : Grammar T N P) (s : State) : List (Rule T N P) :=
  s.filterMap fun item =>
    match item.rule with
    | 0 => none
    | i + 1 => (g.rules[i]?).filter fun r => r.rhs.length ≤ item.dot

/-- The cell before rules are entered: a shift to the state numbered by `number`, or acceptance
at the end of the input. -/
def opening (g : Grammar T N P) (number : State → Nat) (s : State) :
    Option T → Option (Action T N P)
  | none => if ⟨0, 1⟩ ∈ s then some .accept else none
  | some t =>
    if .terminal t ∈ g.nextSymbols s then some (.shift (number (g.goto s (.terminal t)))) else none

/-- The cell of a state and a lookahead. -/
def cell (g : Grammar T N P) (follow : N → List (Option T)) (number : State → Nat) (s : State)
    (t : Option T) : Option (Action T N P) :=
  ((g.complete s).filter fun r => t ∈ follow r.lhs).foldl (g.place t) (g.opening number s t)

/-- No lookahead leaves a choice in a state: either nothing is to be put together, or there is no
other action and only one rule. -/
def clearCell (g : Grammar T N P) (s : State) (t : Option T) : Bool :=
  match (g.complete s).filter fun r => t ∈ g.follow r.lhs with
  | [] => true
  | [_] => (g.opening (fun _ => 0) s t).isNone
  | _ => false

/-- What can come next: each terminal, and the end of the input. -/
def lookaheads (g : Grammar T N P) : List (Option T) :=
  none :: g.terminals.eraseDups.map some

/-- No cell of the tables has more than one candidate. -/
def conflictFree (g : Grammar T N P) : Bool :=
  g.states.all fun s => g.lookaheads.all (g.clearCell s)

end Grammar

/-- A row of the tables: the actions on lookaheads, and the states after nonterminals. -/
structure Row (T N P : Type) where
  actions : List (Option T × Action T N P)
  gotos : List (N × Nat)

/-- The tables of a grammar: a row for each state, and the terminals that occur. -/
structure Automaton (T N P : Type) where
  rows : List (Row T N P)
  terminals : List T

namespace Grammar

variable {T N P : Type} [DecidableEq T] [DecidableEq N]

/-- The row of a state. -/
def row (g : Grammar T N P) (follow : N → List (Option T)) (number : State → Nat) (s : State) :
    Row T N P where
  actions := g.lookaheads.filterMap fun t => (g.cell follow number s t).map (t, ·)
  gotos := ((g.nextSymbols s).filterMap Symbol.nonterminal?).map fun n =>
    (n, number (g.goto s (.nonterminal n)))

/-- The tables of a grammar without faults. -/
def tables (g : Grammar T N P) : Automaton T N P :=
  let states := g.states
  let empty := g.nullable
  let follow := g.heads.eraseDups.map fun n => (n, g.followWith empty n)
  { rows := states.map (g.row (fun n => (follow.lookup n).getD []) (states.idxOf ·))
    terminals := g.terminals.eraseDups }

/-- The tables of a grammar, or what is wrong with it. -/
def compile (g : Grammar T N P) : Except (GrammarError N) (Automaton T N P) :=
  match g.fault with
  | some e => .error e
  | none => .ok g.tables

end Grammar

namespace Automaton

variable {T N P : Type} [DecidableEq T] [DecidableEq N]

/-- The action of a state on a lookahead. -/
def action (a : Automaton T N P) (state : Nat) (t : Option T) : Option (Action T N P) :=
  (a.rows[state]?).bind fun row => row.actions.lookup t

/-- The state after a nonterminal. -/
def goto (a : Automaton T N P) (state : Nat) (n : N) : Option Nat :=
  (a.rows[state]?).bind fun row => row.gotos.lookup n

end Automaton

end SchemaBridge
