/-
  Which texts are read as statements, and what is said of the others. The tables of the grammar of
  statements have no conflicts, and each of its parts can be written, so that a parse says of a text
  what the grammar says: it has the form of a statement, or there is a first token that no statement
  goes on with, or the lexer stops where a statement could go on, or the text ends too early.
  Main result: `migrate_accepts_language`.
-/
import SchemaBridge.Proofs.Grammar.Recognition
import SchemaBridge.Proofs.Statement.Pieces

namespace SchemaBridge

namespace Statement

open Grammar

/-! ## The statement of a derivation -/

/-- Every derivation over tokens stands for a statement. -/
theorem exists_statement {tokens : List (Token Kind)} {t : Derivation}
    (h : grammar.IsDerivation tokens t) : ∃ s, ofTree? t = some s := by
  obtain ⟨s, hs⟩ := statement_of_derives ⟨t, h.valid, h.root_eq, h.leaves_eq, rfl⟩
  refine ⟨s, ?_⟩
  unfold Derivation.meaning at hs
  unfold ofTree?
  rw [hs]

/-! ## Where a text fails -/

/-- A text fails to be a statement at a place, for a reason. -/
inductive FailsAt (text : String) : ReadError → Prop
  | /-- A statement can go on behind the tokens, but what stands there is no token. -/
    lexer {f : LexFailure} (hfailure : (tokenize text).failure = some f)
      (hbegins : Begins language ((tokenize text).tokens.map Token.kind)) :
      FailsAt text ⟨.unknownToken, text, f.text, f.offset⟩
  | /-- It is the first token that no statement goes on with. -/
    token {before after : List (Token Kind)} {token : Token Kind}
      (htokens : (tokenize text).tokens = before ++ token :: after)
      (hbefore : Begins language (before.map Token.kind))
      (htoken : ¬Begins language ((before ++ [token]).map Token.kind)) :
      FailsAt text ⟨.misplaced, text, token.text, token.offset⟩
  | /-- The text ends where a statement has to go on. -/
    finish (hfailure : (tokenize text).failure = none)
      (hbegins : Begins language ((tokenize text).tokens.map Token.kind))
      (hmissing : (tokenize text).tokens.map Token.kind ∉ language) :
      FailsAt text ⟨.misplaced, text, "", Text.byteLength text.toList⟩

variable {text : String} {e e' : ReadError}

/-- A text fails at one place only. -/
theorem FailsAt.unique (h : FailsAt text e) (h' : FailsAt text e') : e = e' := by
  cases h with
  | lexer hfailure hbegins =>
    cases h' with
    | lexer hfailure' =>
      rw [hfailure, Option.some.injEq] at hfailure'
      rw [hfailure']
    | token htokens' _ htoken' => exact absurd hbegins (not_begins_of_token htokens' htoken')
    | finish hfailure' =>
      rw [hfailure] at hfailure'
      cases hfailure'
  | @token before after token htokens hbefore htoken =>
    cases h' with
    | lexer _ hbegins' => exact absurd hbegins' (not_begins_of_token htokens htoken)
    | @token before' after' token' htokens' hbefore' htoken' =>
      have hsame : before ++ token :: after = before' ++ token' :: after' :=
        htokens.symm.trans htokens'
      have hle : before.length ≤ before'.length :=
        hbefore.length_le ⟨_, hsame⟩ htoken'
      have hge : before'.length ≤ before.length :=
        hbefore'.length_le ⟨_, hsame.symm⟩ htoken
      obtain ⟨-, hrest⟩ := List.append_inj hsame (Nat.le_antisymm hle hge)
      rw [(List.cons.inj hrest).1]
    | finish _ hbegins' => exact absurd hbegins' (not_begins_of_token htokens htoken)
  | finish hfailure hbegins =>
    cases h' with
    | lexer hfailure' =>
      rw [hfailure] at hfailure'
      cases hfailure'
    | token htokens' _ htoken' => exact absurd hbegins (not_begins_of_token htokens' htoken')
    | finish => rfl

/-- A text that fails has not the form of a statement. -/
theorem FailsAt.not_mem_language (h : FailsAt text e) (hfailure : (tokenize text).failure = none) :
    (tokenize text).tokens.map Token.kind ∉ language := by
  cases h with
  | lexer hfailure' =>
    rw [hfailure] at hfailure'
    cases hfailure'
  | token htokens _ htoken =>
    exact fun hmem => not_begins_of_token htokens htoken (.of_mem hmem)
  | finish _ _ hmissing => exact hmissing

/-! ## Reading -/

theorem compile_grammar : grammar.compile = .ok grammar.tables := by
  have hfault : grammar.fault = none := by decide
  unfold compile
  rw [hfault]

/-- The rules hold tokens of every kind. -/
theorem mem_terminals_grammar (k : Kind) : k ∈ grammar.terminals := by
  cases k <;> decide

/-- A text of the form of a statement is read, and any other fails. -/
theorem read_cases (text : String) :
    ((tokenize text).failure = none ∧ (tokenize text).tokens.map Token.kind ∈ language ∧
      ∃ statement, read text = .ok statement) ∨
    ∃ e, FailsAt text e ∧ read text = .error e := by
  have hverdict := parse_verdict compile_grammar productive_grammar conflictFree_grammar
    (tokenize text) (Text.byteLength text.toList)
  unfold read derive automaton
  generalize grammar.tables.parse (tokenize text) (Text.byteLength text.toList) = outcome
    at hverdict ⊢
  cases hverdict with
  | accepted hfailure ht =>
    obtain ⟨statement, hstatement⟩ := exists_statement ht
    refine .inl ⟨hfailure, language_grammar ▸ mem_language_iff.mpr ⟨_, ht⟩, statement, ?_⟩
    unfold ofOutcome
    dsimp only
    rw [hstatement]
  | source hfailure hbegins =>
    rw [language_grammar] at hbegins
    exact .inr ⟨_, .lexer hfailure hbegins, rfl⟩
  | early hfailure hbegins hmissing =>
    rw [language_grammar] at hbegins hmissing
    exact .inr ⟨_, .finish hfailure hbegins hmissing, rfl⟩
  | misplaced htokens hbefore htoken _ =>
    rw [language_grammar] at hbefore htoken
    exact .inr ⟨_, .token htokens hbefore htoken, rfl⟩
  | unknown _ _ _ hunknown => exact absurd (mem_terminals_grammar _) hunknown

/-- A text that has the form of a statement is read. -/
theorem exists_read {text : String} (hfailure : (tokenize text).failure = none)
    (hmem : (tokenize text).tokens.map Token.kind ∈ language) :
    ∃ statement, read text = .ok statement := by
  rcases read_cases text with ⟨-, -, hread⟩ | ⟨e, he, -⟩
  · exact hread
  · exact absurd hmem (he.not_mem_language hfailure)

end Statement

open Statement

/-- A text is taken as a migration just if the lexer reads all of it and its tokens have the form of
a statement. Any other fails at one place: where the lexer fails if a statement could go on there,
at the first token that no statement goes on with, or at the end. -/
theorem Schema.migrate_accepts_language (s : Schema) (text : String) :
    ((∃ s', s.migrate text = .ok s') ↔
      (tokenize text).failure = none ∧ (tokenize text).tokens.map Token.kind ∈ language) ∧
    ∀ e, s.migrate text = .error e ↔ FailsAt text e := by
  unfold migrate
  obtain ⟨hfailure, hmem, statement, hread⟩ | ⟨e, he, hread⟩ := read_cases text
  · rw [hread]
    refine ⟨⟨fun _ => ⟨hfailure, hmem⟩, fun _ => ⟨_, rfl⟩⟩, fun e => ⟨fun h => ?_, fun h => ?_⟩⟩
    · cases h
    · exact absurd hmem (h.not_mem_language hfailure)
  · rw [hread]
    refine ⟨⟨?_, ?_⟩, fun e' => ⟨fun h => ?_, fun h => ?_⟩⟩
    · rintro ⟨_, h⟩
      cases h
    · rintro ⟨hfailure, hmem⟩
      exact absurd hmem (he.not_mem_language hfailure)
    · cases h
      exact he
    · rw [he.unique h]
      rfl

end SchemaBridge
