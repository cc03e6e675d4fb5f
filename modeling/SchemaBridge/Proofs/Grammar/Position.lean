/-
  Where a conflict-free parse fails. The tokens before the place of the failure are those handed
  over, and they begin a sentence; with the token at that place, or with the end, they do not.
  Lookaheads tell less than the language does, so that rules may be put together before the failure
  is noticed; but no further token is taken. Among the tokens there is at most one such place.
  Main results: `accepts_or_stopsAt`, `firstFault_of_stopsAt` and `parse_fails_at_first_fault`.
-/
import SchemaBridge.Proofs.Grammar.Recognition

namespace SchemaBridge

variable {T N P E : Type}

/-! ## Tokens handed over -/

/-- The token that a call hands over. -/
def BuildStep.token? : BuildStep T P → Option (Token T)
  | .leaf token => some token
  | .node _ _ => none

/-- The tokens that calls hand over, in order. -/
def BuildStep.taken (calls : List (BuildStep T P)) : List (Token T) :=
  calls.filterMap BuildStep.token?

theorem taken_buildAll {ts : List (Tree T N P)} (h : ∀ t ∈ ts, BuildStep.taken t.build = t.leaves) :
    BuildStep.taken (Tree.buildAll ts) = Tree.leavesOf ts := by
  induction ts with
  | nil => rfl
  | cons t rest ih =>
    have hrest := ih fun u hu => h u (List.mem_cons_of_mem _ hu)
    unfold BuildStep.taken at h hrest ⊢
    rw [Tree.buildAll, Tree.leavesOf, List.filterMap_append, h t List.mem_cons_self, hrest]

/-- The calls that build a tree hand over its leaves. -/
theorem taken_build (t : Tree T N P) : BuildStep.taken t.build = t.leaves := by
  induction t using Tree.induct with
  | leaf token => rfl
  | node rule children ih =>
    have hchildren := taken_buildAll ih
    unfold BuildStep.taken at hchildren ⊢
    rw [Tree.build, List.filterMap_append, hchildren]
    exact List.append_nil _

/-! ## Places -/

/-- The text and the offset of a token; behind the last token the empty text and the end's. -/
def placeAt (tokens : List (Token T)) (finish k : Nat) : String × Nat :=
  match tokens[k]? with
  | some token => (token.text, token.offset)
  | none => ("", finish)

theorem position_eq_placeAt {tokens : List (Token T)} {c : Config T N P} {k : Nat}
    (h : c.input = tokens.drop k) (finish : Nat) : c.position finish = placeAt tokens finish k := by
  unfold Config.position placeAt
  rw [h, ← List.head?_drop]
  cases tokens.drop k <;> rfl

namespace Grammar

/-- The first place at which tokens leave the sentences of a grammar: those before it begin a
sentence, but do not with the token there; at the end, they are no sentence. -/
structure FirstFault (g : Grammar T N P) (tokens : List (Token T)) (k : Nat) : Prop where
  le_length : k ≤ tokens.length
  begins : Begins g.language ((tokens.take k).map Token.kind)
  at_token : k < tokens.length → ¬Begins g.language ((tokens.take (k + 1)).map Token.kind)
  at_end : k = tokens.length → tokens.map Token.kind ∉ g.language

variable {g : Grammar T N P} {tokens : List (Token T)} {j k : Nat}

theorem FirstFault.le (h : g.FirstFault tokens k) (h' : g.FirstFault tokens j) : j ≤ k := by
  by_contra hlt
  have hlong : k + 1 ≤ j := Nat.lt_of_not_le hlt
  have hbegins : Begins g.language ((tokens.take (k + 1)).map Token.kind) :=
    Begins.of_prefix h'.begins ((List.take_prefix_take_left hlong).map Token.kind)
  exact h.at_token (Nat.lt_of_lt_of_le hlong h'.le_length) hbegins

theorem FirstFault.unique (h : g.FirstFault tokens k) (h' : g.FirstFault tokens j) : k = j :=
  Nat.le_antisymm (h'.le h) (h.le h')

/-- A sentence has no fault. -/
theorem FirstFault.not_mem_language (h : g.FirstFault tokens k) :
    tokens.map Token.kind ∉ g.language := by
  rcases Nat.lt_or_eq_of_le h.le_length with hlt | heq
  · intro hmem
    have hbegins : Begins g.language ((tokens.take (k + 1)).map Token.kind) :=
      Begins.of_prefix (.of_mem hmem) ((List.take_prefix _ _).map Token.kind)
    exact h.at_token hlt hbegins
  · exact h.at_end heq

end Grammar

variable [DecidableEq T] [DecidableEq N]

/-- A parse fails at a place: just the tokens before it were handed over, in order, and the outcome
tells the text and the offset there. -/
structure Automaton.StopsAt (a : Automaton T N P) (tokens : List (Token T)) (finish k : Nat)
    (outcome : ParseOutcome T N P E) : Prop where
  outcome_eq : ∃ forest, outcome =
    .failed (.unexpected (placeAt tokens finish k).1 (placeAt tokens finish k).2) forest
  taken_eq : ∃ calls c, a.Runs (none : Option E) finish (.initial tokens) calls c ∧
    a.step none finish c = .done outcome ∧ BuildStep.taken calls = tokens.take k ∧
      c.input = tokens.drop k

namespace Grammar

variable {g : Grammar T N P} {a : Automaton T N P} {tokens : List (Token T)} {finish k : Nat}
  {calls : List (BuildStep T P)} {c : Config T N P} {outcome : ParseOutcome T N P E}

/-- The tokens handed over are the leaves on the stack. -/
theorem taken_of_runs (h : g.tables.Runs (none : Option E) finish (.initial tokens) calls c) :
    g.Standing tokens c ∧ BuildStep.taken calls = Tree.leavesOf c.forest := by
  obtain ⟨hstanding, hcalls⟩ := (standing_initial g tokens).runs h
  refine ⟨hstanding, ?_⟩
  rw [← taken_buildAll fun t _ => taken_build t, hcalls]
  rfl

/-- A parse of known tokens that has come to its end accepts or stops at a place. -/
theorem accepts_or_stopsAt (hfree : g.conflictFree = true) (hknown : g.Known tokens)
    (hruns : g.tables.Runs (none : Option E) finish (.initial tokens) calls c)
    (hdone : g.tables.step none finish c = .done outcome) :
    (∃ t, outcome = .accepted t) ∨
      ∃ k ≤ tokens.length, g.tables.StopsAt tokens finish k outcome := by
  obtain ⟨hstanding, htaken⟩ := taken_of_runs hruns
  have hleaves := hstanding.leaves
  rw [← htaken] at hleaves
  have hplace : ∀ cause forest, outcome = .failed cause forest →
      cause = .unexpected (c.position finish).1 (c.position finish).2 →
        ∃ k ≤ tokens.length, g.tables.StopsAt tokens finish k outcome := by
    intro cause forest houtcome hcause
    have hinput : c.input = tokens.drop (BuildStep.taken calls).length := by
      rw [← hleaves, List.drop_left]
    refine ⟨(BuildStep.taken calls).length, ?_, ⟨forest, ?_⟩, calls, c, hruns, hdone, ?_, hinput⟩
    · rw [← hleaves, List.length_append]
      exact Nat.le_add_right _ _
    · rw [houtcome, hcause, position_eq_placeAt hinput]
    · rw [← hleaves, List.take_left]
  have heffect := hstanding.effect (none : Option E) finish
  rw [hdone] at heffect
  cases heffect with
  | source hfailure => cases hfailure
  | @unknown stack token rest hunknown =>
    refine absurd (hknown token ?_) hunknown
    rw [← hleaves]
    exact List.mem_append_right _ List.mem_cons_self
  | stuck => exact .inr (hplace _ _ rfl rfl)
  | nonassoc haction =>
    rw [hstanding.spells.stateOf_eq] at haction
    exact absurd haction (action_ne_nonassoc hfree hstanding.spells.mem_states _)
  | accept => exact .inl ⟨_, rfl⟩

section Productive

variable (hcompile : g.compile = .ok a) (hprod : g.Productive) (hfree : g.conflictFree = true)

include hcompile hprod hfree

theorem firstFault_of_stopsAt (h : g.tables.StopsAt tokens finish k outcome)
    (hk : k ≤ tokens.length) : g.FirstFault tokens k := by
  obtain ⟨⟨forest, rfl⟩, calls, ⟨stack, input⟩, hruns, hstep, htaken, hinput⟩ := h
  obtain ⟨hstanding, hleaves⟩ := taken_of_runs hruns
  have hbegins := hstanding.begins hcompile hprod
  rw [← hleaves, htaken] at hbegins
  dsimp only at hinput
  refine ⟨hk, hbegins, fun hlt => ?_, fun hend hmem => ?_⟩
  · have hcut : tokens = tokens.take k ++ tokens[k] :: tokens.drop (k + 1) := by
      rw [← List.drop_eq_getElem_cons hlt, List.take_append_drop]
    rw [List.drop_eq_getElem_cons hlt] at hinput
    subst hinput
    rw [List.take_succ_eq_append_getElem hlt]
    have hruns' : g.tables.Runs (none : Option E) finish
        (.initial (tokens.take k ++ tokens[k] :: tokens.drop (k + 1))) calls
          ⟨stack, tokens[k] :: tokens.drop (k + 1)⟩ := by
      rwa [← hcut]
    exact not_begins_of_failed hfree hruns' hstep
  · obtain ⟨t, ht⟩ := mem_language_iff.mp hmem
    exact ht.not_failed hfree hruns hstep

/-- A parse of known tokens accepts, or it stops at the first fault. -/
theorem parse_accepts_or_stopsAt (hknown : g.Known tokens) (finish : Nat) :
    (∃ t, g.tables.parse (⟨tokens, none⟩ : Source T E) finish = .accepted t) ∨
      ∃ k ≤ tokens.length, g.tables.StopsAt tokens finish k
        (g.tables.parse (⟨tokens, none⟩ : Source T E) finish) := by
  have hends := parse_ne_endless hcompile hprod hfree (⟨tokens, none⟩ : Source T E) finish
  have hrun : g.tables.run (none : Option E) finish (g.tables.stepBound tokens.length)
      (.initial tokens) = g.tables.parse ⟨tokens, none⟩ finish := rfl
  rcases Automaton.exists_runs_of_run hrun with ⟨forest, hforest⟩ | ⟨calls, c, hruns, hdone⟩
  · exact absurd hforest (hends forest)
  · exact accepts_or_stopsAt hfree hknown hruns hdone

end Productive

/-- A conflict-free grammar whose nonterminals all derive something reports errors at the exact
token. The parse of known tokens fails at a place just if this is where the tokens first leave the
sentences; it has then handed over the tokens before the place, in order, and no other. So a text
and an offset are reported just if they stand at the first fault, and there is no other failure. -/
theorem parse_fails_at_first_fault (hcompile : g.compile = .ok a) (hfree : g.conflictFree = true)
    (hprod : g.Productive) (hknown : g.Known tokens) (finish : Nat) :
    (∀ k ≤ tokens.length,
      a.StopsAt tokens finish k (a.parse (⟨tokens, none⟩ : Source T E) finish) ↔
        g.FirstFault tokens k) ∧
    (∀ text offset, (∃ forest, a.parse (⟨tokens, none⟩ : Source T E) finish =
        .failed (.unexpected text offset) forest) ↔
      ∃ k, g.FirstFault tokens k ∧ placeAt tokens finish k = (text, offset)) ∧
    ∀ cause forest, a.parse (⟨tokens, none⟩ : Source T E) finish = .failed cause forest →
      ∃ text offset, cause = .unexpected text offset := by
  have haccepts := (parse_recognizes (E := E) hcompile hfree hprod tokens finish).2.1
  obtain rfl := tables_of_compile hcompile
  have hends := parse_accepts_or_stopsAt (E := E) hcompile hprod hfree hknown finish
  have hstops : ∀ k, g.FirstFault tokens k →
      g.tables.StopsAt tokens finish k (g.tables.parse (⟨tokens, none⟩ : Source T E) finish) := by
    intro k hk
    rcases hends with haccepted | ⟨j, hj, hstop⟩
    · exact absurd (haccepts.mp haccepted) hk.not_mem_language
    · rwa [hk.unique (firstFault_of_stopsAt hcompile hprod hfree hstop hj)]
  refine ⟨fun k hk => ⟨fun hstop => firstFault_of_stopsAt hcompile hprod hfree hstop hk, hstops k⟩,
    fun text offset => ⟨?_, ?_⟩, fun cause forest hfailed => ?_⟩
  · rintro ⟨forest, hfailed⟩
    rcases hends with ⟨t, ht⟩ | ⟨k, hk, hstop⟩
    · rw [ht] at hfailed
      cases hfailed
    · refine ⟨k, firstFault_of_stopsAt hcompile hprod hfree hstop hk, ?_⟩
      obtain ⟨forest', hplace⟩ := hstop.outcome_eq
      rw [hplace] at hfailed
      cases hfailed
      rfl
  · rintro ⟨k, hk, hplace⟩
    obtain ⟨forest, hfailed⟩ := (hstops k hk).outcome_eq
    rw [hplace] at hfailed
    exact ⟨forest, hfailed⟩
  · rcases hends with ⟨t, ht⟩ | ⟨k, -, hstop⟩
    · rw [ht] at hfailed
      cases hfailed
    · obtain ⟨forest', hplace⟩ := hstop.outcome_eq
      rw [hplace] at hfailed
      cases hfailed
      exact ⟨_, _, rfl⟩

/-! ## A rule put together too early -/

namespace Bracketed

inductive Part
  | whole
  | inner
  deriving DecidableEq

def square : Rule Char Part Nat := ⟨.whole, [.terminal '[', .nonterminal .inner, .terminal ']'], 0⟩

def round : Rule Char Part Nat := ⟨.whole, [.terminal '(', .nonterminal .inner, .terminal ')'], 1⟩

def inner : Rule Char Part Nat := ⟨.inner, [.terminal 'x'], 2⟩

/-- One letter in brackets of two kinds. -/
def grammar : Grammar Char Part Nat where
  start := .whole
  rules := [square, round, inner]

/-- The tokens of `[x)`. Since a round bracket may follow the letter elsewhere, the letter becomes
an inner part before the fault is noticed. -/
def input : List (Token Char) :=
  [⟨'[', "[", 0⟩, ⟨'x', "x", 1⟩, ⟨')', ")", 2⟩]

theorem productive_grammar : grammar.Productive := by
  have hinner : grammar.Derives [.nonterminal .inner] (['x'].map .terminal) :=
    .single (.rule (r := inner) (by simp [grammar]) [] [])
  have hwhole : grammar.Derives [.nonterminal .whole] ("[x]".toList.map .terminal) := by
    have htree := derives_leaves (g := grammar) (.node square [.leaf ⟨'[', "[", 0⟩,
      .node inner [.leaf ⟨'x', "x", 1⟩], .leaf ⟨']', "]", 2⟩])
    refine htree ?_
    simp [grammar, Tree.Valid, Tree.ValidAll, square, inner, Tree.root]
  intro n _
  cases n with
  | whole => exact ⟨_, hwhole⟩
  | inner => exact ⟨_, hinner⟩

end Bracketed

open Bracketed in
theorem parse_fails_at_first_fault_bracketed :
    Bracketed.grammar.compile = .ok Bracketed.grammar.tables ∧
    Bracketed.grammar.conflictFree = true ∧ Bracketed.grammar.Productive ∧
    Bracketed.grammar.Known input ∧ Bracketed.grammar.FirstFault input 2 ∧
    Bracketed.grammar.tables.StopsAt input 3 2
      (Bracketed.grammar.tables.parse (⟨input, none⟩ : Source Char Unit) 3) := by
  have hcompile : Bracketed.grammar.compile = .ok Bracketed.grammar.tables := rfl
  have hfree : Bracketed.grammar.conflictFree = true := by decide +kernel
  have hknown : Bracketed.grammar.Known input := by
    unfold Known
    decide +kernel
  obtain ⟨hstops, hreports, -⟩ :=
    parse_fails_at_first_fault (E := Unit) hcompile hfree productive_grammar hknown 3
  obtain ⟨k, hk, hplace⟩ := (hreports ")" 2).mp ⟨[.leaf ⟨'[', "[", 0⟩,
    .node inner [.leaf ⟨'x', "x", 1⟩]], rfl⟩
  have hplaces : ∀ k ≤ input.length, placeAt input 3 k = (")", 2) → k = 2 := by decide +kernel
  obtain rfl := hplaces k hk.le_length hplace
  exact ⟨hcompile, hfree, productive_grammar, hknown, hk, (hstops 2 hk.le_length).mpr hk⟩

end Grammar

end SchemaBridge
