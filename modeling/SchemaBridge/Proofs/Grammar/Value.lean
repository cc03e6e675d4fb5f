/-
  Whole parses and the values they build. Whoever builds the value of a parse is called at each
  step: with the token that is taken, or with the tag of a rule and the values of its symbols. The
  calls of a parse that accepts are those of its tree, one for each leaf and node, the children
  before their parent and from left to right, so that the value is the value of the tree.
  Main results: `performAll_build`, `value_of_fold`, `Standing.runs` and `parse_builds_derivation`.
-/
import SchemaBridge.Proofs.Grammar.Soundness

namespace SchemaBridge

variable {T N P E σ α : Type}

/-! ## Values -/

/-- Builds values from tokens and from the values of the symbols of a rule, keeping a memory from
call to call. -/
structure Reducer (T P σ α : Type) where
  shift : Token T → σ → α × σ
  reduce : P → List α → σ → α × σ

namespace Reducer

/-- One call, on the memory and the values built so far, the newest first. A rule takes as many of
them as it has symbols; there must be so many. -/
def perform (R : Reducer T P σ α) : BuildStep T P → σ × List α → Option (σ × List α)
  | .leaf token, (memory, values) =>
    some ((R.shift token memory).2, (R.shift token memory).1 :: values)
  | .node tag arity, (memory, values) =>
    if arity ≤ values.length then
      let result := R.reduce tag (values.take arity).reverse memory
      some (result.2, result.1 :: values.drop arity)
    else none

/-- Calls one after the other. -/
def performAll (R : Reducer T P σ α) : List (BuildStep T P) → σ × List α → Option (σ × List α)
  | [], state => some state
  | call :: rest, state => (R.perform call state).bind (R.performAll rest)

mutual

/-- The value of a tree, and the memory it leaves: the values of the children are found first, from
left to right. -/
def value (R : Reducer T P σ α) : Tree T N P → σ → α × σ
  | .leaf token, memory => R.shift token memory
  | .node rule children, memory =>
    R.reduce rule.tag (R.values children memory).1 (R.values children memory).2

def values (R : Reducer T P σ α) : List (Tree T N P) → σ → List α × σ
  | [], memory => ([], memory)
  | tree :: rest, memory =>
    ((R.value tree memory).1 :: (R.values rest (R.value tree memory).2).1,
      (R.values rest (R.value tree memory).2).2)

end

variable (R : Reducer T P σ α)

theorem performAll_append (calls more : List (BuildStep T P)) (state : σ × List α) :
    R.performAll (calls ++ more) state = (R.performAll calls state).bind (R.performAll more) := by
  induction calls generalizing state with
  | nil => rfl
  | cons call rest ih =>
    rw [List.cons_append, performAll, performAll, Option.bind_assoc]
    congr 1
    funext next
    exact ih next

theorem length_values (ts : List (Tree T N P)) (memory : σ) :
    (R.values ts memory).1.length = ts.length := by
  induction ts generalizing memory with
  | nil => rfl
  | cons t rest ih => rw [values, List.length_cons, List.length_cons, ih]

/-- The calls that build a tree find its value and leave all other values as they were. -/
def Builds (R : Reducer T P σ α) (t : Tree T N P) : Prop :=
  ∀ memory values, R.performAll t.build (memory, values) =
    some ((R.value t memory).2, (R.value t memory).1 :: values)

theorem performAll_buildAll {ts : List (Tree T N P)} (h : ∀ t ∈ ts, R.Builds t) (memory : σ)
    (values : List α) : R.performAll (Tree.buildAll ts) (memory, values) =
      some ((R.values ts memory).2, (R.values ts memory).1.reverse ++ values) := by
  induction ts generalizing memory values with
  | nil => rfl
  | cons t rest ih =>
    rw [Tree.buildAll, performAll_append, h t List.mem_cons_self, Option.bind_some,
      ih fun u hu => h u (List.mem_cons_of_mem _ hu)]
    rw [Reducer.values, List.reverse_cons, List.append_assoc, List.singleton_append]

theorem performAll_build (t : Tree T N P) : R.Builds t := by
  induction t using Tree.induct with
  | leaf token => exact fun _ _ => rfl
  | node rule children ih =>
    intro memory values
    have hlength : children.length = (R.values children memory).1.reverse.length := by
      rw [List.length_reverse, length_values]
    rw [Tree.build, performAll_append, performAll_buildAll R ih, Option.bind_some, performAll,
      perform, if_pos (by rw [List.length_append, ← hlength]; exact Nat.le_add_right _ _), hlength,
      List.take_left, List.drop_left, List.reverse_reverse]
    rfl

/-- A builder without a memory finds the fold of a tree. -/
theorem value_of_fold (token : Token T → α) (rule : P → List α → α) (t : Tree T N P) :
    (value ⟨fun u m => (token u, m), fun p vs m => (rule p vs, m)⟩ t ()).1 = t.fold token rule := by
  induction t using Tree.induct with
  | leaf u => rfl
  | node r children ih =>
    have hall : ∀ ts : List (Tree T N P), (∀ t ∈ ts, t ∈ children) →
        (values ⟨fun u m => (token u, m), fun p vs m => (rule p vs, m)⟩ ts ()).1 =
          Tree.foldAll token rule ts := by
      intro ts
      induction ts with
      | nil => exact fun _ => rfl
      | cons t rest ihts =>
        intro hts
        rw [values, Tree.foldAll, ih t (hts t List.mem_cons_self),
          ihts fun u hu => hts u (List.mem_cons_of_mem _ hu)]
    rw [value, Tree.fold, ← hall children fun _ h => h]

end Reducer

/-! ## Runs -/

variable [DecidableEq T] [DecidableEq N]

/-- A parse runs from one configuration to another and makes these calls on the way. -/
inductive Automaton.Runs (a : Automaton T N P) (failure : Option E) (finish : Nat) :
    Config T N P → List (BuildStep T P) → Config T N P → Prop
  | refl (c : Config T N P) : Runs a failure finish c [] c
  | head {c d e : Config T N P} {calls : List (BuildStep T P)}
      (h : a.step failure finish c = .next d) (rest : Runs a failure finish d calls e) :
      Runs a failure finish c ((a.call c).toList ++ calls) e

variable {a : Automaton T N P} {g : Grammar T N P} {failure : Option E} {finish : Nat}
  {c d : Config T N P} {tokens : List (Token T)} {calls : List (BuildStep T P)}

/-- A run that ends has come to a configuration in which a step ends it. -/
theorem Automaton.exists_runs_of_run {fuel : Nat} {outcome : ParseOutcome T N P E}
    (h : a.run failure finish fuel c = outcome) : (∃ forest, outcome = .endless forest) ∨
      ∃ calls d, a.Runs failure finish c calls d ∧ a.step failure finish d = .done outcome := by
  induction fuel generalizing c with
  | zero => exact .inl ⟨_, h.symm⟩
  | succ fuel ih =>
    unfold run at h
    cases hstep : a.step failure finish c with
    | next d =>
      rw [hstep] at h
      rcases ih h with hendless | ⟨calls, e, hruns, hdone⟩
      · exact .inl hendless
      · exact .inr ⟨_, e, .head hstep hruns, hdone⟩
    | done o =>
      rw [hstep] at h
      cases h
      exact .inr ⟨[], c, .refl c, hstep⟩

namespace Grammar

/-- A parse keeps its standing, and the trees on its stack are built by the calls it made. -/
theorem Standing.runs (h : g.Standing tokens c) (hruns : g.tables.Runs failure finish c calls d) :
    g.Standing tokens d ∧ Tree.buildAll d.forest = Tree.buildAll c.forest ++ calls := by
  induction hruns with
  | refl c => exact ⟨h, (List.append_nil _).symm⟩
  | head hstep _ ih =>
    obtain ⟨hnext, hcall⟩ := h.step hstep
    obtain ⟨hend, hcalls⟩ := ih hnext
    exact ⟨hend, by rw [hcalls, hcall, List.append_assoc]⟩

/-- What a parse that accepts has found. -/
structure Accepts (g : Grammar T N P) (source : Source T E) (finish : Nat) (t : Tree T N P) :
    Prop where
  /-- The source gave all its tokens, and they are the leaves. -/
  no_failure : source.failure = none
  leaves_eq : t.leaves = source.tokens
  root_eq : t.root = .nonterminal g.start
  /-- Each inner node is an instance of a rule and bears its tag. -/
  valid : t.Valid g.rules
  /-- The parse has called for each leaf and each node once, the children first. -/
  calls_eq : ∃ c, g.tables.Runs source.failure finish (.initial source.tokens) t.build c ∧
    g.tables.step source.failure finish c = .done (.accepted t)
  /-- By these calls anyone builds the value of the tree and nothing else. -/
  value_eq : ∀ {σ α : Type} (R : Reducer T P σ α) (memory : σ),
    R.performAll t.build (memory, []) = some ((R.value t memory).2, [(R.value t memory).1])

/-- Parsing is sound for every grammar, whatever its conflicts. As long as a parse runs, a rule to
be put together finds the values and states it takes on the stack, and below them an entry for its
head, so that this step never fails. A tree that is accepted after any number of steps is a
derivation of all tokens from the start symbol, and the calls made are those that build it. -/
theorem parse_builds_derivation (h : g.compile = .ok a) (source : Source T E) (finish : Nat) :
    (∀ calls c, a.Runs source.failure finish (.initial source.tokens) calls c →
      ∀ rule, a.action (Config.stateOf c.stack) c.lookahead = some (.reduce rule) →
        rule.rhs.length ≤ c.stack.length ∧
        (a.goto (Config.stateOf (c.stack.drop rule.rhs.length)) rule.lhs).isSome = true ∧
        ∃ d, a.reduce (E := E) c rule finish = .next d) ∧
    ∀ fuel t, a.run source.failure finish fuel (.initial source.tokens) = .accepted t →
      g.Accepts source finish t := by
  rw [tables_of_compile h]
  have hstart := standing_initial g source.tokens
  refine ⟨fun calls c hruns rule haction => ?_, fun fuel t hrun => ?_⟩
  · have hspells := (hstart.runs hruns).1.spells
    rw [hspells.stateOf_eq] at haction
    have hallowed := allowed_of_action hspells.mem_states haction
    generalize c.lookahead = look at hallowed
    cases hallowed with
    | reduce hr _ =>
      obtain ⟨state, hgoto, hnext, -⟩ := reduce_eq_next (E := E) hspells hr c.input finish
      exact ⟨(roots_of_complete hr).1, by rw [hgoto]; rfl, _, hnext⟩
  · rcases Automaton.exists_runs_of_run hrun with ⟨_, hendless⟩ | ⟨calls, c, hruns, hdone⟩
    · cases hendless
    · obtain ⟨hstanding, hcalls⟩ := hstart.runs hruns
      obtain ⟨hsource, hvalid, hroot, hleaves, hforest⟩ := hstanding.accepted hdone
      rw [hforest, Tree.buildAll, Tree.buildAll, List.append_nil] at hcalls
      have hbuild : t.build = calls := hcalls
      exact ⟨hsource, hleaves, hroot, hvalid, ⟨c, hbuild ▸ hruns, hdone⟩,
        fun R memory => R.performAll_build t memory []⟩

/-! ## A grammar with conflicts -/

namespace Operations

def sum : Rule Char Unit Nat :=
  ⟨(), [.nonterminal (), .terminal '+', .nonterminal ()], 0⟩

def comparison : Rule Char Unit Nat :=
  ⟨(), [.nonterminal (), .terminal '<', .nonterminal ()], 1⟩

def operand : Rule Char Unit Nat :=
  ⟨(), [.terminal 'n'], 2⟩

def missing : Rule Char Unit Nat :=
  ⟨(), [], 3⟩

/-- Sums and comparisons of operands that may be missing. The levels settle some of the conflicts,
and the order of the rules the others. -/
def grammar : Grammar Char Unit Nat where
  start := ()
  rules := [sum, comparison, operand, missing]
  levels := [(.nonassoc, ['<']), (.left, ['+'])]

/-- The tokens of `n++`. -/
def input : List (Token Char) :=
  [⟨'n', "n", 0⟩, ⟨'+', "+", 1⟩, ⟨'+', "+", 2⟩]

/-- `n++` is the sum of `n+` and nothing. -/
def tree : Tree Char Unit Nat :=
  .node sum [.node sum [.node operand [.leaf ⟨'n', "n", 0⟩], .leaf ⟨'+', "+", 1⟩,
    .node missing []], .leaf ⟨'+', "+", 2⟩, .node missing []]

end Operations

open Operations in
theorem parse_builds_operations : Operations.grammar.compile = .ok Operations.grammar.tables ∧
    Operations.grammar.tables.run (none : Option Unit) 3 20 (.initial input) = .accepted tree ∧
    Operations.grammar.Accepts (⟨input, none⟩ : Source Char Unit) 3 tree := by
  have hcompile : Operations.grammar.compile = .ok Operations.grammar.tables := rfl
  have hrun : Operations.grammar.tables.run (none : Option Unit) 3 20 (.initial input) =
    .accepted tree := rfl
  exact ⟨hcompile, hrun, (parse_builds_derivation hcompile ⟨input, none⟩ 3).2 20 tree hrun⟩

end Grammar

end SchemaBridge
