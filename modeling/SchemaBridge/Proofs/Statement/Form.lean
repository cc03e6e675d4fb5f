/-
  The form of migration statements, described apart from the grammar that reads them: which kinds of
  tokens stand in them, one after the other. A comma may stand behind the last name or value of a
  list in brackets. No part of a statement holds another of its own kind, so that regular
  expressions describe them all. The grammar of statements derives just these forms.
  Main result: `language_grammar`.
-/
import SchemaBridge.Proofs.Grammar.Equations
import SchemaBridge.Proofs.Statement.Derivation
import Mathlib.Computability.RegularExpressions
import Mathlib.Tactic.Abel

namespace SchemaBridge.Statement

open RegularExpression
open Grammar
open scoped Computability

/-! ## Forms -/

/-- Sequences of kinds. -/
abbrev Form := RegularExpression Kind

namespace Form

/-- One token of this kind. -/
abbrev token (k : Kind) : Form :=
  char k

/-- Tokens of these kinds one after the other. -/
def spelled (kinds : List Kind) : Form :=
  (kinds.map char).prod

def optional (f : Form) : Form :=
  1 + f

/-- `f`, and any number of commas behind it, each alone or with another `f`. -/
def listed (f : Form) : Form :=
  f * (token .comma * f + token .comma).star

/-- One name, or several in brackets. -/
def columns : Form :=
  token .text + token .openBracket * listed (token .text) * token .closeBracket

def value : Form :=
  token .text + token .number + token .word

/-- A value, or any number of them in brackets. -/
def argument : Form :=
  value + spelled [.openBracket, .closeBracket] +
    token .openBracket * listed value * token .closeBracket

def arguments : Form :=
  argument * (token .comma * argument).star

def modifier : Form :=
  spelled [.arrow, .modifier, .openParen, .closeParen]

def target : Form :=
  spelled [.arrow, .location, .openParen] * columns * token .closeParen

def call : Form :=
  spelled [.type, .openParen, .text] * optional (token .comma * arguments) *
      token .closeParen * modifier.star +
    spelled [.nameless, .openParen, .closeParen] * modifier.star +
    spelled [.modifier, .openParen] * columns * token .closeParen +
    spelled [.foreign, .openParen] * columns * token .closeParen *
      (modifier.star + target * target) +
    spelled [.foreignId, .openParen, .text, .closeParen] * modifier.star *
      optional (target * target) +
    (token .dropColumn + token .dropForeign) * token .openParen * columns *
      token .closeParen

def line : Form :=
  spelled [.tableVar, .semicolon] + spelled [.tableVar, .arrow] * call * token .semicolon

/-- All up to the body of the closure. -/
def head : Form :=
  spelled [.facade, .doubleColon] * (token .create + token .modify) *
    spelled [.openParen, .text, .comma, .function, .openParen] * optional (token .word) *
    spelled [.tableVar, .closeParen]

def statement : Form :=
  head * token .openBrace * line.star * spelled [.closeBrace, .closeParen, .semicolon] +
    spelled [.facade, .doubleColon, .drop, .openParen, .text, .closeParen, .semicolon]

end Form

/-- The form of each part of a statement. -/
def Part.form : Part → Form
  | .definition => Form.statement
  | .head => Form.head
  | .lines => Form.line * Form.line.star
  | .line => Form.line
  | .call => Form.call
  | .located => Form.target * Form.target
  | .target => Form.target
  | .modifiers => Form.modifier * Form.modifier.star
  | .modifier => Form.modifier
  | .columns => Form.columns
  | .texts => Form.listed (Form.token .text)
  | .arguments => Form.arguments
  | .argument => Form.argument
  | .values => Form.listed Form.value
  | .value => Form.value

/-- The sequences of kinds that have the form of a statement. -/
def language : Language Kind :=
  Form.statement.matches'

instance : DecidablePred (· ∈ language) :=
  fun kinds => decidable_of_iff (Form.statement.rmatch kinds) (rmatch_iff_matches' _ kinds)

-- A call that drops one column, with a comma behind its name.
example : [.facade, .doubleColon, .modify, .openParen, .text, .comma, .function, .openParen,
    .tableVar, .closeParen, .openBrace, .tableVar, .arrow, .dropColumn, .openParen, .openBracket,
    .text, .comma, .closeBracket, .closeParen, .semicolon, .closeBrace, .closeParen,
    .semicolon] ∈ language := by
  decide

/-! ## The equations of the grammar -/

@[simp] theorem matches_spelled_nil : (Form.spelled []).matches' = 1 := rfl

@[simp] theorem matches_spelled_cons (k : Kind) (kinds : List Kind) :
    (Form.spelled (k :: kinds)).matches' = {[k]} * (Form.spelled kinds).matches' := rfl

/-- The words of a part. -/
def Part.words (p : Part) : Language Kind :=
  p.form.matches'

/-- The rules of a part, which stand together in the grammar. -/
def Part.rules : Part → List (Rule Kind Part Role)
  | .definition => frameRules.take 3
  | .head => (frameRules.drop 3).take 4
  | .lines => (frameRules.drop 7).take 2
  | .line => frameRules.drop 9
  | .call => columnRules ++ keyRules.take 9
  | .located => (keyRules.drop 9).take 1
  | .target => keyRules.drop 10
  | .modifiers => listRules.take 2
  | .modifier => (listRules.drop 2).take 1
  | .columns => (listRules.drop 3).take 2
  | .texts => (listRules.drop 5).take 3
  | .arguments => (listRules.drop 8).take 2
  | .argument => (listRules.drop 10).take 3
  | .values => (listRules.drop 13).take 3
  | .value => listRules.drop 16

theorem rules_of_part (p : Part) : grammar.rules.filter (·.lhs == p) = p.rules := by
  cases p <;> rfl

/-- Any number of `b` is none, or some and one more. -/
theorem mul_kstar_eq (a b : Language Kind) : a * b∗ = a + a * b∗ * b := by
  calc a * b∗ = a * (1 + b∗ * b) := by rw [one_add_kstar_mul]
    _ = a + a * b∗ * b := by rw [mul_add, mul_one, mul_assoc]

/-- The words of a part by those of its own parts. -/
def Part.composed : Part → Language Kind
  | .definition =>
    Part.head.words * {[.openBrace]} * (1 + Part.lines.words) *
        (Form.spelled [.closeBrace, .closeParen, .semicolon]).matches' +
      (Form.spelled [.facade, .doubleColon, .drop, .openParen, .text, .closeParen,
        .semicolon]).matches'
  | .head =>
    (Form.spelled [.facade, .doubleColon]).matches' * ({[.create]} + {[.modify]}) *
      (Form.spelled [.openParen, .text, .comma, .function, .openParen]).matches' *
      (1 + {[.word]}) * (Form.spelled [.tableVar, .closeParen]).matches'
  | .lines => Part.line.words + Part.lines.words * Part.line.words
  | .line =>
    (Form.spelled [.tableVar, .semicolon]).matches' +
      (Form.spelled [.tableVar, .arrow]).matches' * Part.call.words * {[.semicolon]}
  | .call =>
    (Form.spelled [.type, .openParen, .text]).matches' * (1 + {[.comma]} * Part.arguments.words) *
        {[.closeParen]} * (1 + Part.modifiers.words) +
      (Form.spelled [.nameless, .openParen, .closeParen]).matches' * (1 + Part.modifiers.words) +
      (Form.spelled [.modifier, .openParen]).matches' * Part.columns.words * {[.closeParen]} +
      (Form.spelled [.foreign, .openParen]).matches' * Part.columns.words * {[.closeParen]} *
        (1 + Part.modifiers.words + Part.located.words) +
      (Form.spelled [.foreignId, .openParen, .text, .closeParen]).matches' *
        (1 + Part.modifiers.words) * (1 + Part.located.words) +
      ({[.dropColumn]} + {[.dropForeign]}) * {[.openParen]} * Part.columns.words * {[.closeParen]}
  | .located => Part.target.words * Part.target.words
  | .target =>
    (Form.spelled [.arrow, .location, .openParen]).matches' * Part.columns.words * {[.closeParen]}
  | .modifiers => Part.modifier.words + Part.modifiers.words * Part.modifier.words
  | .modifier => (Form.spelled [.arrow, .modifier, .openParen, .closeParen]).matches'
  | .columns => {[.text]} + {[.openBracket]} * Part.texts.words * {[.closeBracket]}
  | .texts => {[.text]} + Part.texts.words * ({[.comma]} * {[.text]} + {[.comma]})
  | .arguments =>
    Part.argument.words + Part.arguments.words * ({[.comma]} * Part.argument.words)
  | .argument =>
    Part.value.words + (Form.spelled [.openBracket, .closeBracket]).matches' +
      {[.openBracket]} * Part.values.words * {[.closeBracket]}
  | .values =>
    Part.value.words + Part.values.words * ({[.comma]} * Part.value.words + {[.comma]})
  | .value => {[.text]} + {[.number]} + {[.word]}

theorem words_eq_composed (p : Part) : p.words = p.composed := by
  have hline : Form.line.star.matches' = 1 + Part.lines.words := one_add_mul_kstar.symm
  have hmodifier : Form.modifier.star.matches' = 1 + Part.modifiers.words := one_add_mul_kstar.symm
  cases p with
  | lines | modifiers | texts | arguments | values => exact mul_kstar_eq _ _
  | definition =>
    unfold Part.composed
    rw [← hline]
    rfl
  | call =>
    unfold Part.composed
    rw [← hmodifier]
    rfl
  | _ => rfl

theorem composed_eq_unionOf (p : Part) :
    p.composed = unionOf Part.words (grammar.rules.filter (·.lhs == p)) := by
  rw [rules_of_part]
  cases p <;>
    simp only [Part.composed, Part.rules, frameRules, headRule, columnRules, keyRules, listRules,
      List.drop, List.take, List.cons_append, List.nil_append, unionOf_cons, unionOf_nil,
      wordsOf_terminal, wordsOf_nonterminal, wordsOf_nil, matches_spelled_cons,
      matches_spelled_nil, mul_add, add_mul, mul_assoc, mul_one, add_zero] <;>
    abel

/-- No part of a statement is empty. -/
theorem nil_not_mem_words (p : Part) : [] ∉ p.words := by
  unfold Part.words
  rw [← rmatch_iff_matches']
  cases p <;> decide

theorem solves_words : grammar.Solves Part.words :=
  ⟨fun p => (words_eq_composed p).trans (composed_eq_unionOf p), nil_not_mem_words⟩

/-- The grammar of statements derives the forms of statements. -/
theorem language_grammar : grammar.language = language :=
  solves_words.language_eq descends_grammar

theorem exists_mem_words (p : Part) : ∃ word, word ∈ p.words := by
  have hmatch : ∃ word, p.form.rmatch word = true := by
    cases p with
    | definition =>
      exact ⟨[.facade, .doubleColon, .drop, .openParen, .text, .closeParen, .semicolon], by decide⟩
    | head =>
      exact ⟨[.facade, .doubleColon, .create, .openParen, .text, .comma, .function, .openParen,
        .tableVar, .closeParen], by decide⟩
    | lines | line => exact ⟨[.tableVar, .semicolon], by decide⟩
    | call => exact ⟨[.nameless, .openParen, .closeParen], by decide⟩
    | located =>
      exact ⟨[.arrow, .location, .openParen, .text, .closeParen, .arrow, .location, .openParen,
        .text, .closeParen], by decide⟩
    | target => exact ⟨[.arrow, .location, .openParen, .text, .closeParen], by decide⟩
    | modifiers | modifier => exact ⟨[.arrow, .modifier, .openParen, .closeParen], by decide⟩
    | columns | texts | arguments | argument | values | value => exact ⟨[.text], by decide⟩
  obtain ⟨word, hword⟩ := hmatch
  exact ⟨word, (rmatch_iff_matches' _ word).mp hword⟩

theorem productive_grammar : grammar.Productive := by
  intro p _
  obtain ⟨word, hword⟩ := exists_mem_words p
  exact ⟨word, solves_words.derives (x := .nonterminal p) descends_grammar hword⟩

end SchemaBridge.Statement
