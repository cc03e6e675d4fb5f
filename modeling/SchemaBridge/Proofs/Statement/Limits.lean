/-
  Parses end. Whatever the levels and the conflicts of a grammar, its tables take no more tokens
  than there are, and put together no more rules than its nonterminals allow; and so does the parser
  of statements on every text.
  Main result: `parse_stops`.
-/
import SchemaBridge.Proofs.Grammar.Limits
import SchemaBridge.Proofs.Statement.Acceptance

namespace SchemaBridge

namespace Statement

/-- No part of a statement is empty, or made of nothing but a part of its own kind. -/
theorem proper_grammar : grammar.Proper :=
  descends_grammar.proper

end Statement

open Statement

/-- The tables of every grammar without empty rules and without circles of rules of one nonterminal
parse all sources to an end. They take each token at most once, and put together at most
`n + (2 * n + 1) * k` rules over `n` tokens, where `k` nonterminals have rules. The grammar of
statements is such a grammar. -/
theorem parse_stops :
    (∀ {T N P E : Type} [DecidableEq T] [DecidableEq N] {g : Grammar T N P} {a : Automaton T N P},
      g.compile = .ok a → g.Proper → ∀ (source : Source T E) (finish : Nat),
        a.StopsWithin source finish source.tokens.length
          (source.tokens.length + (2 * source.tokens.length + 1) * g.heads.toFinset.card)) ∧
    Statement.grammar.Proper ∧
    ∀ text : String, Statement.automaton.StopsWithin (tokenize text)
      (Text.byteLength text.toList) (tokenize text).tokens.length
      ((tokenize text).tokens.length +
        (2 * (tokenize text).tokens.length + 1) * Statement.grammar.heads.toFinset.card) :=
  ⟨fun hcompile hproper source finish => Grammar.stopsWithin_parse hcompile hproper source finish,
    proper_grammar, fun text => Grammar.stopsWithin_parse compile_grammar proper_grammar
      (tokenize text) (Text.byteLength text.toList)⟩

namespace Juxtaposed

def single : Rule Char Unit Nat := ⟨(), [.terminal 'x'], 0⟩

def pair : Rule Char Unit Nat := ⟨(), [.nonterminal (), .nonterminal ()], 1⟩

/-- Words of one letter, cut in two in every way. Where to cut is settled by the tables alone. -/
def grammar : Grammar Char Unit Nat where
  start := ()
  rules := [single, pair]

/-- The tokens of `xxx`. -/
def input : List (Token Char) :=
  [⟨'x', "x", 0⟩, ⟨'x', "x", 1⟩, ⟨'x', "x", 2⟩]

theorem proper_grammar : grammar.Proper := by
  have hdown : grammar.Descends (fun _ => 1) 1 := by
    constructor
    all_goals simp [grammar, single, pair, Symbol.rank]
  exact hdown.proper

end Juxtaposed

theorem parse_stops_juxtaposed :
    Juxtaposed.grammar.compile = .ok Juxtaposed.grammar.tables ∧ Juxtaposed.grammar.Proper ∧
    Juxtaposed.grammar.conflictFree = false ∧
    Juxtaposed.grammar.tables.StopsWithin (⟨Juxtaposed.input, none⟩ : Source Char Unit) 3 3 10 := by
  have hcompile : Juxtaposed.grammar.compile = .ok Juxtaposed.grammar.tables := rfl
  have hconflict : Juxtaposed.grammar.conflictFree = false := by decide +kernel
  exact ⟨hcompile, Juxtaposed.proper_grammar, hconflict,
    parse_stops.1 hcompile Juxtaposed.proper_grammar ⟨Juxtaposed.input, none⟩ 3⟩

end SchemaBridge
