/-
  What a conflict-free parse says of a source. The tokens taken always begin a sentence. Where the
  parse fails at a token, no sentence goes on with it: a step looks at no more than the next token,
  so that the parse of such a sentence would come to the same stack and fail as well. So the
  outcome tells whether the tokens are a sentence, and if not, which token is the first that no
  sentence goes on with.
  Main results: `parse_verdict` and `parse_recognizes`.
-/
import SchemaBridge.Proofs.Grammar.Termination
import SchemaBridge.Proofs.Grammar.Value

namespace SchemaBridge

variable {T N P E : Type} [DecidableEq T] [DecidableEq N]

namespace Automaton

variable {a : Automaton T N P} {failure failure' : Option E} {finish : Nat} {c d : Config T N P}
  {calls : List (BuildStep T P)}

/-! ## One token of lookahead -/

/-- Before a token, a step does the same whatever stands behind the token. -/
theorem step_cons_cases (a : Automaton T N P) (failure failure' : Option E) (finish : Nat)
    (stack : List (Frame T N P)) (token : Token T) (rest rest' : List (Token T)) :
    (∃ stack', a.step failure finish ⟨stack, token :: rest⟩ = .next ⟨stack', token :: rest⟩ ∧
      a.step failure' finish ⟨stack, token :: rest'⟩ = .next ⟨stack', token :: rest'⟩) ∨
    (∃ stack', a.step failure finish ⟨stack, token :: rest⟩ = .next ⟨stack', rest⟩ ∧
      a.step failure' finish ⟨stack, token :: rest'⟩ = .next ⟨stack', rest'⟩) ∨
    ∃ outcome, a.step failure finish ⟨stack, token :: rest⟩ = .done outcome ∧
      a.step failure' finish ⟨stack, token :: rest'⟩ = .done outcome := by
  unfold step
  dsimp only
  by_cases hall : ((token :: rest).head?.map Token.kind).all (· ∈ a.terminals) = true
  · have hall' : ((token :: rest').head?.map Token.kind).all (· ∈ a.terminals) = true := hall
    rw [if_pos hall, if_pos hall']
    simp only [List.head?_cons, Option.map_some]
    cases a.action (Config.stateOf stack) (some token.kind) with
    | none => exact .inr (.inr ⟨_, rfl, rfl⟩)
    | some act =>
      cases act with
      | shift state => exact .inr (.inl ⟨_, rfl, rfl⟩)
      | reduce rule =>
        unfold reduce
        dsimp only
        cases a.goto (Config.stateOf (stack.drop rule.rhs.length)) rule.lhs with
        | none => exact .inr (.inr ⟨_, rfl, rfl⟩)
        | some state => exact .inl ⟨_, rfl, rfl⟩
      | accept => cases stack <;> exact .inr (.inr ⟨_, rfl, rfl⟩)
      | nonassoc => exact .inr (.inr ⟨_, rfl, rfl⟩)
  · have hall' : ¬((token :: rest').head?.map Token.kind).all (· ∈ a.terminals) = true := hall
    rw [if_neg hall, if_neg hall']
    exact .inr (.inr ⟨_, rfl, rfl⟩)

/-- A parse gives no tokens back. -/
theorem suffix_of_step (h : a.step failure finish c = .next d) : d.input <:+ c.input := by
  obtain ⟨stack, input⟩ := c
  cases input with
  | cons token rest =>
    rcases a.step_cons_cases failure failure finish stack token rest rest with
      ⟨_, hstep, -⟩ | ⟨_, hstep, -⟩ | ⟨_, hstep, -⟩
    all_goals
      rw [hstep] at h
      cases h
    · exact List.suffix_refl _
    · exact List.suffix_cons token rest
  | nil =>
    unfold step at h
    cases failure with
    | some e => cases h
    | none =>
      dsimp only at h
      split at h
      · split at h
        · cases h
        · unfold reduce at h
          dsimp only at h
          split at h <;> cases h
          exact List.suffix_refl _
        · cases stack <;> cases h
        · cases h
        · cases h
      · cases h

theorem Runs.suffix (h : a.Runs failure finish c calls d) : d.input <:+ c.input := by
  induction h with
  | refl => exact List.suffix_refl _
  | head hstep _ ih => exact ih.trans (suffix_of_step hstep)

/-- A parse that has not come past some tokens does the same whatever stands behind them. -/
theorem Runs.change_rest {stack stack' : List (Frame T N P)} {front front' rest : List (Token T)}
    (hne : front' ≠ [])
    (h : a.Runs failure finish ⟨stack, front ++ rest⟩ calls ⟨stack', front' ++ rest⟩)
    (failure' : Option E) (rest' : List (Token T)) :
    ∃ calls', a.Runs failure' finish ⟨stack, front ++ rest'⟩ calls' ⟨stack', front' ++ rest'⟩ := by
  generalize hc : (⟨stack, front ++ rest⟩ : Config T N P) = c at h
  generalize hd : (⟨stack', front' ++ rest⟩ : Config T N P) = d at h
  induction h generalizing stack front with
  | refl c =>
    subst hd
    rw [Config.mk.injEq] at hc
    obtain ⟨rfl, hfront⟩ := hc
    exact ⟨[], List.append_cancel_right hfront ▸ .refl _⟩
  | @head c e d calls hstep hruns ih =>
    subst hc hd
    cases front with
    | nil =>
      have hlength : (front' ++ rest).length ≤ rest.length :=
        (Runs.head hstep hruns).suffix.length_le
      have hpos := List.length_pos_iff.mpr hne
      rw [List.length_append] at hlength
      omega
    | cons u more =>
      rcases a.step_cons_cases failure failure' finish stack u (more ++ rest) (more ++ rest') with
        ⟨next, hone, htwo⟩ | ⟨next, hone, htwo⟩ | ⟨_, hone, -⟩
      all_goals
        rw [List.cons_append, hone] at hstep
        cases hstep
      · obtain ⟨calls', hcalls⟩ := @ih next (u :: more) rfl rfl
        exact ⟨_, .head htwo hcalls⟩
      · obtain ⟨calls', hcalls⟩ := ih rfl rfl
        exact ⟨_, .head htwo hcalls⟩

/-- The steps of a run can be taken off the fuel. -/
theorem Runs.exists_run_eq (h : a.Runs failure finish c calls d) :
    ∃ n, ∀ fuel, a.run failure finish (n + fuel) c = a.run failure finish fuel d := by
  induction h with
  | refl => exact ⟨0, fun fuel => by rw [Nat.zero_add]⟩
  | head hstep _ ih =>
    obtain ⟨n, hn⟩ := ih
    refine ⟨n + 1, fun fuel => ?_⟩
    rw [Nat.add_right_comm, run, hstep]
    exact hn fuel

end Automaton

namespace Grammar

variable {g : Grammar T N P} {a : Automaton T N P} {source : Source T E} {failure : Option E}
  {finish : Nat}

/-! ## Verdicts -/

/-- What a grammar says of a source, as the outcome of a parse. -/
inductive Verdict (g : Grammar T N P) (source : Source T E) (finish : Nat) :
    ParseOutcome T N P E → Prop
  | /-- The tokens are a sentence. -/
    accepted {t : Tree T N P} (hfailure : source.failure = none)
      (h : g.IsDerivation source.tokens t) : Verdict g source finish (.accepted t)
  | /-- The tokens begin a sentence, but the source fails behind them. -/
    source {e : E} {forest : List (Tree T N P)} (hfailure : source.failure = some e)
      (hbegins : Begins g.language (source.tokens.map Token.kind)) :
      Verdict g source finish (.failed (.source e) forest)
  | /-- The tokens begin a sentence, but they are none. -/
    early {forest : List (Tree T N P)} (hfailure : source.failure = none)
      (hbegins : Begins g.language (source.tokens.map Token.kind))
      (h : source.tokens.map Token.kind ∉ g.language) :
      Verdict g source finish (.failed (.unexpected "" finish) forest)
  | /-- No sentence goes on with the token. -/
    misplaced {before after : List (Token T)} {token : Token T} {forest : List (Tree T N P)}
      (htokens : source.tokens = before ++ token :: after)
      (hbefore : Begins g.language (before.map Token.kind))
      (htoken : ¬Begins g.language ((before ++ [token]).map Token.kind))
      (hknown : token.kind ∈ g.terminals) :
      Verdict g source finish (.failed (.unexpected token.text token.offset) forest)
  | /-- No sentence goes on with the token, nor does any rule hold it. -/
    unknown {before after : List (Token T)} {token : Token T} {forest : List (Tree T N P)}
      (htokens : source.tokens = before ++ token :: after)
      (hbefore : Begins g.language (before.map Token.kind))
      (htoken : ¬Begins g.language ((before ++ [token]).map Token.kind))
      (hknown : token.kind ∉ g.terminals) :
      Verdict g source finish (.failed (.unknown token.text token.offset) forest)

section ConflictFree

variable (hfree : g.conflictFree = true)

include hfree

/-- Without conflicts no cell holds an error of associativity. -/
theorem action_ne_nonassoc {s : State} (hs : s ∈ g.states) (t : Option T) :
    g.tables.action (g.states.idxOf s) t ≠ some .nonassoc := by
  intro h
  have ht := mem_lookaheads_of_action hs h
  rw [action_tables hs ht] at h
  cases hrules : (g.complete s).filter fun r => t ∈ g.follow r.lhs with
  | nil =>
    unfold cell at h
    rw [hrules, List.foldl_nil] at h
    cases t <;>
    · unfold opening at h
      dsimp only at h
      split at h <;> cases h
  | cons r rest =>
    have hmem : r ∈ (g.complete s).filter fun r => t ∈ g.follow r.lhs :=
      hrules ▸ List.mem_cons_self
    obtain ⟨hr, hfollow⟩ := List.mem_filter.mp hmem
    rw [cell_of_complete hfree hs ht hr (of_decide_eq_true hfollow)] at h
    cases h

/-- The parse of a sentence comes to no configuration in which it fails. -/
theorem IsDerivation.not_failed {tokens : List (Token T)} {t : Tree T N P}
    (ht : g.IsDerivation tokens t) {calls : List (BuildStep T P)} {c : Config T N P}
    (hruns : g.tables.Runs (none : Option E) finish (.initial tokens) calls c)
    {cause : ParseFailure E} {forest : List (Tree T N P)} :
    g.tables.step none finish c ≠ .done (.failed cause forest) := by
  intro hstep
  obtain ⟨n, hn⟩ := hruns.exists_run_eq
  have haccepts := run_accepts (E := E) hfree ht.valid ht.root_eq finish (n + (t.steps + 1))
    (by omega)
  rw [ht.leaves_eq, hn, Automaton.run, hstep] at haccepts
  cases haccepts

/-- No sentence goes on with a token at which a parse fails. -/
theorem not_begins_of_failed {before after : List (Token T)} {token : Token T}
    {calls : List (BuildStep T P)} {stack : List (Frame T N P)}
    (hruns : g.tables.Runs failure finish (.initial (before ++ token :: after)) calls
      ⟨stack, token :: after⟩) {cause : ParseFailure E} {forest : List (Tree T N P)}
    (hstep : g.tables.step failure finish ⟨stack, token :: after⟩ = .done (.failed cause forest)) :
    ¬Begins g.language ((before ++ [token]).map Token.kind) := by
  intro hbegins
  obtain ⟨more, t, ht⟩ := begins_iff.mp hbegins
  rw [← List.singleton_append, ← List.append_assoc] at hruns
  obtain ⟨calls', hcalls⟩ := hruns.change_rest (List.cons_ne_nil token []) none more
  rcases g.tables.step_cons_cases failure none finish stack token after more with
    ⟨_, hone, -⟩ | ⟨_, hone, -⟩ | ⟨_, hone, htwo⟩
  · rw [hstep] at hone
    cases hone
  · rw [hstep] at hone
    cases hone
  · rw [hstep] at hone
    cases hone
    exact ht.not_failed hfree hcalls htwo

end ConflictFree

section Productive

variable (hcompile : g.compile = .ok a) (hprod : g.Productive) (hfree : g.conflictFree = true)

include hcompile hprod hfree

/-- A parse says of a source what its grammar says. -/
theorem parse_verdict (source : Source T E) (finish : Nat) :
    g.Verdict source finish (g.tables.parse source finish) := by
  have hends := parse_ne_endless hcompile hprod hfree source finish
  unfold Automaton.parse at hends ⊢
  generalize hrun : g.tables.run source.failure finish (g.tables.stepBound source.tokens.length)
    (.initial source.tokens) = outcome at hends ⊢
  obtain ⟨forest, hforest⟩ | ⟨calls, c, hruns, hdone⟩ := Automaton.exists_runs_of_run hrun
  · exact absurd hforest (hends forest)
  have hstanding := ((standing_initial g source.tokens).runs hruns).1
  have hbegins := hstanding.begins hcompile hprod
  have hleaves := hstanding.leaves
  have heffect := hstanding.effect source.failure finish
  rw [hdone] at heffect
  cases heffect with
  | source hfailure =>
    rw [List.append_nil] at hleaves
    exact .source hfailure (hleaves ▸ hbegins)
  | @unknown stack token rest hknown =>
    rw [← hleaves] at hruns
    exact .unknown hleaves.symm hbegins (not_begins_of_failed hfree hruns hdone) hknown
  | stuck hsource hknown haction =>
    obtain ⟨stack, input⟩ := c
    cases input with
    | nil =>
      rw [List.append_nil] at hleaves
      have hnone := hsource rfl
      refine .early hnone (hleaves ▸ hbegins) fun hmem => ?_
      obtain ⟨t, ht⟩ := mem_language_iff.mp hmem
      rw [hnone] at hruns hdone
      exact ht.not_failed hfree hruns hdone
    | cons token rest =>
      rw [← hleaves] at hruns
      exact .misplaced hleaves.symm hbegins (not_begins_of_failed hfree hruns hdone)
        (hknown token.kind rfl)
  | nonassoc haction =>
    rw [hstanding.spells.stateOf_eq] at haction
    exact absurd haction (action_ne_nonassoc hfree hstanding.spells.mem_states _)
  | accept hsource hroot =>
    obtain ⟨hfailure, hvalid, hroot, hleaves, -⟩ := hstanding.accepted hdone
    exact .accepted hfailure ⟨hvalid, hroot, hleaves⟩

end Productive

/-- Parsing is complete for every grammar without conflicts whose nonterminals all derive something:
it ends, it accepts the sentences and nothing else, and the tree of a sentence is the only
derivation there is. -/
theorem parse_recognizes (hcompile : g.compile = .ok a) (hfree : g.conflictFree = true)
    (hprod : g.Productive) (tokens : List (Token T)) (finish : Nat) :
    (∀ forest, a.parse (⟨tokens, none⟩ : Source T E) finish ≠ .endless forest) ∧
    ((∃ t, a.parse (⟨tokens, none⟩ : Source T E) finish = .accepted t) ↔
      tokens.map Token.kind ∈ g.language) ∧
    ∀ t, a.parse (⟨tokens, none⟩ : Source T E) finish = .accepted t →
      g.IsDerivation tokens t ∧ ∀ u, g.IsDerivation tokens u → u = t := by
  have hverdict := parse_verdict hcompile hprod hfree (⟨tokens, none⟩ : Source T E) finish
  rw [tables_of_compile hcompile]
  have hsound : ∀ t, g.tables.parse (⟨tokens, none⟩ : Source T E) finish = .accepted t →
      g.IsDerivation tokens t := by
    intro t ht
    rw [ht] at hverdict
    cases hverdict with
    | accepted _ h => exact h
  refine ⟨parse_ne_endless hcompile hprod hfree _ finish, ⟨?_, fun hmem => ?_⟩,
    fun t ht => ⟨hsound t ht, fun u hu => hu.eq hfree (hsound t ht)⟩⟩
  · rintro ⟨t, ht⟩
    exact mem_language_iff.mpr ⟨t, hsound t ht⟩
  · generalize g.tables.parse (⟨tokens, none⟩ : Source T E) finish = outcome at hverdict
    cases hverdict with
    | accepted _ _ => exact ⟨_, rfl⟩
    | source hfailure => cases hfailure
    | early _ _ hnone => exact absurd hmem hnone
    | misplaced htokens _ htoken _ | unknown htokens _ htoken _ =>
      exact absurd (Begins.of_mem hmem) (not_begins_of_token htokens htoken)

/-! ## A grammar with empty rules -/

namespace Marked

inductive Part
  | items
  | item
  | marks
  deriving DecidableEq

def noItems : Rule Char Part Nat := ⟨.items, [], 0⟩

def moreItems : Rule Char Part Nat := ⟨.items, [.nonterminal .items, .nonterminal .item], 1⟩

def item : Rule Char Part Nat := ⟨.item, [.nonterminal .marks, .terminal 'x'], 2⟩

def noMarks : Rule Char Part Nat := ⟨.marks, [], 3⟩

def moreMarks : Rule Char Part Nat := ⟨.marks, [.nonterminal .marks, .terminal '!'], 4⟩

/-- Lists of items, each with any number of marks before it. -/
def grammar : Grammar Char Part Nat where
  start := .items
  rules := [noItems, moreItems, item, noMarks, moreMarks]

/-- The tokens of `!xx`. -/
def input : List (Token Char) :=
  [⟨'!', "!", 0⟩, ⟨'x', "x", 1⟩, ⟨'x', "x", 2⟩]

/-- One mark before the first item, none before the second. -/
def tree : Tree Char Part Nat :=
  .node moreItems [
    .node moreItems [
      .node noItems [],
      .node item [.node moreMarks [.node noMarks [], .leaf ⟨'!', "!", 0⟩], .leaf ⟨'x', "x", 1⟩]],
    .node item [.node noMarks [], .leaf ⟨'x', "x", 2⟩]]

theorem isDerivation_tree : grammar.IsDerivation input tree := by
  refine ⟨?_, rfl, rfl⟩
  simp [tree, grammar, Tree.Valid, Tree.ValidAll, moreItems, noItems, item, moreMarks, noMarks,
    Tree.root]

theorem productive_grammar : grammar.Productive := by
  have hone : grammar.Derives [.nonterminal .item] (['x'].map .terminal) := by
    have htree := derives_leaves (g := grammar)
      (.node item [.node noMarks [], .leaf ⟨'x', "x", 0⟩])
    refine htree ?_
    simp [grammar, Tree.Valid, Tree.ValidAll, item, noMarks, Tree.root]
  intro n _
  cases n with
  | items => exact ⟨[], .single (.rule (r := noItems) (by simp [grammar]) [] [])⟩
  | item => exact ⟨['x'], hone⟩
  | marks => exact ⟨[], .single (.rule (r := noMarks) (by simp [grammar]) [] [])⟩

end Marked

theorem parse_recognizes_marked : Marked.grammar.compile = .ok Marked.grammar.tables ∧
    Marked.grammar.conflictFree = true ∧ Marked.grammar.Productive ∧
    Marked.grammar.tables.parse (⟨Marked.input, none⟩ : Source Char Unit) 3 =
      .accepted Marked.tree := by
  have hcompile : Marked.grammar.compile = .ok Marked.grammar.tables := rfl
  have hfree : Marked.grammar.conflictFree = true := by decide +kernel
  obtain ⟨-, haccepts, hunique⟩ := parse_recognizes (E := Unit) hcompile hfree
    Marked.productive_grammar Marked.input 3
  obtain ⟨t, ht⟩ := haccepts.mpr (mem_language_iff.mpr ⟨_, Marked.isDerivation_tree⟩)
  rw [← (hunique t ht).2 _ Marked.isDerivation_tree] at ht
  exact ⟨hcompile, hfree, Marked.productive_grammar, ht⟩

end Grammar

end SchemaBridge
