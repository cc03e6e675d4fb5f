/-
  The grammar of migration statements.
-/
import SchemaBridge.Grammar.Parse
import SchemaBridge.Statement.Token

namespace SchemaBridge.Statement

/-- The parts a statement is made of. -/
inductive Part
  | definition
  | /-- All up to the body of the closure. -/ head
  | lines
  | line
  | call
  | /-- The two calls that say where a key points. -/ located
  | target
  | modifiers
  | modifier
  | /-- One column name, or several in brackets. -/ columns
  | texts
  | arguments
  | argument
  | values
  | value
  deriving DecidableEq, Repr

/-- What a rule of the grammar stands for. -/
inductive Role
  | /-- A whole statement with a closure. -/ block
  | dropTable
  | createHead
  | modifyHead
  | lines
  | line
  | /-- A line whose calls were all ignored ones. -/ emptyLine
  | column
  | nameless
  | modifierCall
  | foreign
  | foreignId
  | dropColumn
  | dropForeign
  | located
  | target
  | modifiers
  | modifier
  | names
  | /-- Arguments without a meaning. -/ argument
  deriving DecidableEq, Repr

/-- A terminal of the grammar. -/
abbrev tok (k : Kind) : Symbol Kind Part := .terminal k

/-- A nonterminal of the grammar. -/
abbrev part (p : Part) : Symbol Kind Part := .nonterminal p

/-- `Schema::create('t', function (Blueprint $table)`; the type of the variable may be left out. -/
def headRule (action : Kind) (named : List (Symbol Kind Part)) (role : Role) :
    Rule Kind Part Role where
  lhs := .head
  rhs :=
    [tok .facade, tok .doubleColon, tok action, tok .openParen, tok .text, tok .comma,
      tok .function, tok .openParen] ++ named ++ [tok .tableVar, tok .closeParen]
  tag := role

/-- Statements, their heads and their lines. -/
def frameRules : List (Rule Kind Part Role) :=
  [⟨.definition, [part .head, tok .openBrace, part .lines, tok .closeBrace, tok .closeParen,
      tok .semicolon], .block⟩,
    ⟨.definition, [part .head, tok .openBrace, tok .closeBrace, tok .closeParen, tok .semicolon],
      .block⟩,
    ⟨.definition, [tok .facade, tok .doubleColon, tok .drop, tok .openParen, tok .text,
      tok .closeParen, tok .semicolon], .dropTable⟩,
    headRule .create [tok .word] .createHead,
    headRule .create [] .createHead,
    headRule .modify [tok .word] .modifyHead,
    headRule .modify [] .modifyHead,
    ⟨.lines, [part .line], .lines⟩,
    ⟨.lines, [part .lines, part .line], .lines⟩,
    ⟨.line, [tok .tableVar, tok .arrow, part .call, tok .semicolon], .line⟩,
    ⟨.line, [tok .tableVar, tok .semicolon], .emptyLine⟩]

/-- Calls that declare columns or modify them. -/
def columnRules : List (Rule Kind Part Role) :=
  [⟨.call, [tok .type, tok .openParen, tok .text, tok .closeParen], .column⟩,
    ⟨.call, [tok .type, tok .openParen, tok .text, tok .closeParen, part .modifiers], .column⟩,
    ⟨.call, [tok .type, tok .openParen, tok .text, tok .comma, part .arguments,
      tok .closeParen], .column⟩,
    ⟨.call, [tok .type, tok .openParen, tok .text, tok .comma, part .arguments, tok .closeParen,
      part .modifiers], .column⟩,
    ⟨.call, [tok .nameless, tok .openParen, tok .closeParen], .nameless⟩,
    ⟨.call, [tok .nameless, tok .openParen, tok .closeParen, part .modifiers], .nameless⟩,
    ⟨.call, [tok .modifier, tok .openParen, part .columns, tok .closeParen], .modifierCall⟩]

/-- Calls on foreign keys, and those that drop something. -/
def keyRules : List (Rule Kind Part Role) :=
  [⟨.call, [tok .foreign, tok .openParen, part .columns, tok .closeParen], .foreign⟩,
    ⟨.call, [tok .foreign, tok .openParen, part .columns, tok .closeParen, part .modifiers],
      .foreign⟩,
    ⟨.call, [tok .foreign, tok .openParen, part .columns, tok .closeParen, part .located],
      .foreign⟩,
    ⟨.call, [tok .foreignId, tok .openParen, tok .text, tok .closeParen], .foreignId⟩,
    ⟨.call, [tok .foreignId, tok .openParen, tok .text, tok .closeParen, part .modifiers],
      .foreignId⟩,
    ⟨.call, [tok .foreignId, tok .openParen, tok .text, tok .closeParen, part .located],
      .foreignId⟩,
    ⟨.call, [tok .foreignId, tok .openParen, tok .text, tok .closeParen, part .modifiers,
      part .located], .foreignId⟩,
    ⟨.call, [tok .dropColumn, tok .openParen, part .columns, tok .closeParen], .dropColumn⟩,
    ⟨.call, [tok .dropForeign, tok .openParen, part .columns, tok .closeParen], .dropForeign⟩,
    ⟨.located, [part .target, part .target], .located⟩,
    ⟨.target, [tok .arrow, tok .location, tok .openParen, part .columns, tok .closeParen],
      .target⟩]

/-- Chained modifiers, lists of names, and arguments. -/
def listRules : List (Rule Kind Part Role) :=
  [⟨.modifiers, [part .modifier], .modifiers⟩,
    ⟨.modifiers, [part .modifiers, part .modifier], .modifiers⟩,
    ⟨.modifier, [tok .arrow, tok .modifier, tok .openParen, tok .closeParen], .modifier⟩,
    ⟨.columns, [tok .text], .names⟩,
    ⟨.columns, [tok .openBracket, part .texts, tok .closeBracket], .names⟩,
    ⟨.texts, [tok .text], .names⟩,
    ⟨.texts, [part .texts, tok .comma, tok .text], .names⟩,
    ⟨.texts, [part .texts, tok .comma], .names⟩,
    ⟨.arguments, [part .argument], .argument⟩,
    ⟨.arguments, [part .arguments, tok .comma, part .argument], .argument⟩,
    ⟨.argument, [part .value], .argument⟩,
    ⟨.argument, [tok .openBracket, part .values, tok .closeBracket], .argument⟩,
    ⟨.argument, [tok .openBracket, tok .closeBracket], .argument⟩,
    ⟨.values, [part .value], .argument⟩,
    ⟨.values, [part .values, tok .comma, part .value], .argument⟩,
    ⟨.values, [part .values, tok .comma], .argument⟩,
    ⟨.value, [tok .text], .argument⟩,
    ⟨.value, [tok .number], .argument⟩,
    ⟨.value, [tok .word], .argument⟩]

/-- The grammar of statements. The tokens that begin or end something do not associate; there are no
conflicts that this would settle. -/
def grammar : Grammar Kind Part Role where
  start := .definition
  rules := frameRules ++ columnRules ++ keyRules ++ listRules
  levels := [(.nonassoc, [.type]), (.nonassoc, [.nameless]), (.nonassoc, [.semicolon]),
    (.nonassoc, [.tableVar]), (.nonassoc, [.foreign, .foreignId])]

/-- No state of the tables leaves a choice. -/
theorem conflictFree_grammar : grammar.conflictFree = true := by
  decide +kernel

/-- The tables of the grammar. -/
def automaton : Automaton Kind Part Role :=
  grammar.tables

end SchemaBridge.Statement
