/-
  Without conflicts, the tables of a grammar accept every derivation tree. The run is directed by
  the tree: with the tokens of a subtree before it and a lookahead that follows its root, the
  parser takes one step for each leaf and each node and has the subtree on top of its stack.
  Main results: `tree_runs` and `run_accepts`.
-/
import SchemaBridge.Grammar.Parse
import SchemaBridge.Proofs.Grammar.State

namespace SchemaBridge

variable {T N P E : Type}

/-! ## Sizes -/

mutual

/-- The number of inner nodes. -/
def Tree.nodes : Tree T N P → Nat
  | .leaf _ => 0
  | .node _ children => Tree.nodesOf children + 1

def Tree.nodesOf : List (Tree T N P) → Nat
  | [] => 0
  | tree :: rest => tree.nodes + Tree.nodesOf rest

end

/-- One step for each leaf and one for each node. -/
def Tree.steps (t : Tree T N P) : Nat :=
  t.leaves.length + t.nodes

/-! ## Cells -/

theorem lookup_map_pair {α β : Type} [BEq α] [LawfulBEq α] {l : List α} {f : α → β} {a : α}
    (h : a ∈ l) : (l.map fun x => (x, f x)).lookup a = some (f a) := by
  induction l with
  | nil => exact absurd h List.not_mem_nil
  | cons b rest ih =>
    rw [List.map_cons]
    by_cases hab : a = b
    · subst hab
      exact List.lookup_cons_self
    · rw [List.lookup_cons, beq_false_of_ne hab]
      exact ih ((List.mem_cons.mp h).resolve_left hab)

theorem lookup_filterMap_pair {α β : Type} [BEq α] [LawfulBEq α] {l : List α} {f : α → Option β}
    {a : α} (h : a ∈ l) : (l.filterMap fun x => (f x).map (x, ·)).lookup a = f a := by
  induction l with
  | nil => exact absurd h List.not_mem_nil
  | cons b rest ih =>
    by_cases hab : a = b
    · subst hab
      cases hfa : f a with
      | some y => rw [List.filterMap_cons_some (by rw [hfa]; rfl), List.lookup_cons_self]
      | none =>
        rw [List.filterMap_cons_none (by rw [hfa]; rfl)]
        by_cases hmem : a ∈ rest
        · rw [ih hmem, hfa]
        · rw [List.lookup_eq_none_iff]
          rintro ⟨x, y⟩ hxy
          obtain ⟨x', hx', hy⟩ := List.mem_filterMap.mp hxy
          obtain ⟨z, -, hz⟩ := Option.map_eq_some_iff.mp hy
          cases hz
          exact bne_iff_ne.mpr fun hax => hmem (hax ▸ hx')
    · have hrest := ih ((List.mem_cons.mp h).resolve_left hab)
      cases hfb : f b with
      | some y =>
        rw [List.filterMap_cons_some (by rw [hfb]; rfl), List.lookup_cons, beq_false_of_ne hab]
        exact hrest
      | none =>
        rw [List.filterMap_cons_none (by rw [hfb]; rfl)]
        exact hrest

namespace Grammar

variable {g : Grammar T N P}

theorem mem_complete {s : State} {r : Rule T N P} : r ∈ g.complete s ↔
    ∃ i dot, (⟨i + 1, dot⟩ : Item) ∈ s ∧ g.rules[i]? = some r ∧ r.rhs.length ≤ dot := by
  unfold complete
  rw [List.mem_filterMap]
  constructor
  · rintro ⟨⟨k, dot⟩, hitem, h⟩
    cases k with
    | zero => cases h
    | succ i =>
      obtain ⟨hr, hle⟩ := Option.filter_eq_some_iff.mp h
      exact ⟨i, dot, hitem, hr, of_decide_eq_true hle⟩
  · rintro ⟨i, dot, hitem, hr, hle⟩
    exact ⟨⟨i + 1, dot⟩, hitem, Option.filter_eq_some_iff.mpr ⟨hr, decide_eq_true hle⟩⟩

theorem mem_rules_of_mem_complete {s : State} {r : Rule T N P} (h : r ∈ g.complete s) :
    r ∈ g.rules := by
  obtain ⟨i, dot, -, hr, -⟩ := mem_complete.mp h
  exact List.mem_of_getElem? hr

end Grammar

/-! ## Tokens of a sentence -/

namespace Grammar

variable {g : Grammar T N P}

/-- Every token is one that some rule holds. -/
def Known (g : Grammar T N P) (input : List (Token T)) : Prop :=
  ∀ token ∈ input, token.kind ∈ g.terminals

theorem known_leavesOf {ts : List (Tree T N P)} (h : ∀ t ∈ ts, g.Known t.leaves) :
    g.Known (Tree.leavesOf ts) := by
  induction ts with
  | nil => exact fun u hu => absurd hu List.not_mem_nil
  | cons t rest ih =>
    intro u hu
    rw [Tree.leavesOf, List.mem_append] at hu
    rcases hu with hu | hu
    · exact h t List.mem_cons_self u hu
    · exact ih (fun d hd => h d (List.mem_cons_of_mem _ hd)) u hu

theorem kind_mem_terminals (t : Tree T N P) : t.Valid g.rules →
    (∀ k, t.root = .terminal k → k ∈ g.terminals) → g.Known t.leaves := by
  induction t using Tree.induct with
  | leaf token =>
    intro _ hroot u hu
    rw [Tree.leaves, List.mem_singleton] at hu
    rw [hu]
    exact hroot token.kind rfl
  | node rule children ih =>
    intro hvalid _
    obtain ⟨hrule, hroots, hall⟩ := hvalid
    rw [Tree.validAll_iff] at hall
    rw [Tree.leaves]
    apply known_leavesOf
    intro c hc
    refine ih c hc (hall c hc) fun k hk => ?_
    have hmem : c.root ∈ rule.rhs := hroots ▸ List.mem_map_of_mem hc
    exact List.mem_flatMap.mpr ⟨rule, hrule, List.mem_filterMap.mpr ⟨_, hmem, by rw [hk]; rfl⟩⟩

variable [DecidableEq T]

theorem mem_lookaheads {input : List (Token T)} (h : g.Known input) :
    input.head?.map Token.kind ∈ g.lookaheads := by
  unfold lookaheads
  cases input with
  | nil => exact List.mem_cons_self
  | cons token rest =>
    refine List.mem_cons_of_mem _ (List.mem_map.mpr ⟨token.kind, ?_, rfl⟩)
    exact List.mem_eraseDups.mpr (h token List.mem_cons_self)

end Grammar

/-! ## Runs -/

variable [DecidableEq T] [DecidableEq N]

/-- A number of steps from one configuration to another. -/
inductive Automaton.Steps (a : Automaton T N P) (finish : Nat) :
    Nat → Config T N P → Config T N P → Prop
  | refl (c : Config T N P) : Steps a finish 0 c c
  | head {n : Nat} {c d e : Config T N P} (h : a.step (none : Option E) finish c = .next d)
      (rest : Steps a finish n d e) : Steps a finish (n + 1) c e

namespace Automaton

variable {a : Automaton T N P} {finish : Nat} {c d e : Config T N P}

theorem Steps.trans {m n : Nat} (h : Steps (E := E) a finish m c d)
    (h' : Steps (E := E) a finish n d e) : Steps (E := E) a finish (m + n) c e := by
  induction h with
  | refl => rwa [Nat.zero_add]
  | head hstep _ ih =>
    rw [Nat.add_right_comm]
    exact .head hstep (ih h')

/-- Steps can be taken off the fuel of a run. -/
theorem run_of_steps {n : Nat} (h : Steps (E := E) a finish n c d) (fuel : Nat) :
    a.run (none : Option E) finish (n + fuel) c = a.run none finish fuel d := by
  induction h with
  | refl => rw [Nat.zero_add]
  | head hstep _ ih =>
    rw [Nat.add_right_comm, run, hstep]
    exact ih

end Automaton

namespace Grammar

variable {g : Grammar T N P}

/-! ## Tables -/

theorem tables_of_compile {a : Automaton T N P} (h : g.compile = .ok a) : a = g.tables := by
  unfold compile at h
  split at h <;> cases h
  rfl

/-- The lookaheads in the tables are those of the grammar. -/
theorem lookup_follow {r : Rule T N P} (hr : r ∈ g.rules) :
    ((g.heads.eraseDups.map fun n => (n, g.followWith g.nullable n)).lookup r.lhs).getD [] =
      g.follow r.lhs := by
  have hmem : r.lhs ∈ g.heads.eraseDups :=
    List.mem_eraseDups.mpr (List.mem_map.mpr ⟨r, hr, rfl⟩)
  rw [lookup_map_pair hmem]
  rfl

theorem rows_tables {s : State} (hs : s ∈ g.states) :
    ∃ follow : N → List (Option T), (∀ r ∈ g.rules, follow r.lhs = g.follow r.lhs) ∧
      g.tables.rows[g.states.idxOf s]? = some (g.row follow (g.states.idxOf ·) s) := by
  refine ⟨fun m =>
      ((g.heads.eraseDups.map fun n => (n, g.followWith g.nullable n)).lookup m).getD [],
    fun r hr => lookup_follow hr, ?_⟩
  unfold tables
  dsimp only
  rw [List.getElem?_map, List.getElem?_idxOf hs]
  rfl

theorem action_tables {s : State} (hs : s ∈ g.states) {t : Option T} (ht : t ∈ g.lookaheads) :
    g.tables.action (g.states.idxOf s) t = g.cell g.follow (g.states.idxOf ·) s t := by
  obtain ⟨follow, hfollow, hrow⟩ := rows_tables hs
  have hcell : g.cell follow (g.states.idxOf ·) s t = g.cell g.follow (g.states.idxOf ·) s t := by
    unfold cell
    congr 1
    apply List.filter_congr
    intro r hr
    rw [hfollow r (mem_rules_of_mem_complete hr)]
  unfold Automaton.action
  rw [hrow, ← hcell, Option.bind_some]
  exact lookup_filterMap_pair (f := g.cell follow (g.states.idxOf ·) s) ht

theorem goto_tables {s : State} (hs : s ∈ g.states) {n : N}
    (hn : .nonterminal n ∈ g.nextSymbols s) :
    g.tables.goto (g.states.idxOf s) n = some (g.states.idxOf (g.goto s (.nonterminal n))) := by
  obtain ⟨follow, -, hrow⟩ := rows_tables hs
  have hmem : n ∈ (g.nextSymbols s).filterMap Symbol.nonterminal? :=
    List.mem_filterMap.mpr ⟨_, hn, rfl⟩
  unfold Automaton.goto
  rw [hrow, Option.bind_some]
  exact lookup_map_pair hmem

section ConflictFree

variable (hfree : g.conflictFree = true) {s : State} (hs : s ∈ g.states)

include hfree hs

theorem clearCell_of_conflictFree {t : Option T} (ht : t ∈ g.lookaheads) :
    g.clearCell s t = true :=
  List.all_eq_true.mp (List.all_eq_true.mp hfree s hs) t ht

/-- Where something else can be done, nothing is put together. -/
theorem cell_of_opening {number : State → Nat} {t : Option T} (ht : t ∈ g.lookaheads)
    (hopen : (g.opening number s t).isSome = true) :
    g.cell g.follow number s t = g.opening number s t := by
  have hclear := clearCell_of_conflictFree hfree hs ht
  have hsame : (g.opening (fun _ => 0) s t).isSome = (g.opening number s t).isSome := by
    cases t with
    | none => rfl
    | some t =>
      unfold opening
      dsimp only
      split <;> rfl
  unfold clearCell at hclear
  unfold cell
  split at hclear
  · rename_i hnil
    rw [hnil]
    rfl
  · rw [Option.isNone_iff_eq_none] at hclear
    rw [← hsame, hclear] at hopen
    cases hopen
  · cases hclear

/-- A rule that is complete in a state is put together before each token that follows it. -/
theorem cell_of_complete {number : State → Nat} {t : Option T} (ht : t ∈ g.lookaheads)
    {r : Rule T N P} (hr : r ∈ g.complete s) (hfollow : t ∈ g.follow r.lhs) :
    g.cell g.follow number s t = some (.reduce r) := by
  have hclear := clearCell_of_conflictFree hfree hs ht
  have hmem : r ∈ (g.complete s).filter fun r => t ∈ g.follow r.lhs :=
    List.mem_filter.mpr ⟨hr, decide_eq_true hfollow⟩
  have hopen : g.opening number s t = none ↔ g.opening (fun _ => 0) s t = none := by
    cases t with
    | none => exact Iff.rfl
    | some t =>
      unfold opening
      dsimp only
      split <;> simp
  unfold clearCell at hclear
  unfold cell
  split at hclear
  · rename_i hnil
    rw [hnil] at hmem
    exact absurd hmem List.not_mem_nil
  · rename_i q hone
    rw [hone] at hmem ⊢
    rw [← List.mem_singleton.mp hmem, List.foldl_cons, List.foldl_nil,
      hopen.mpr (Option.isNone_iff_eq_none.mp hclear)]
    rfl
  · cases hclear

end ConflictFree

/-! ## The run of a tree -/

/-- What an action does. -/
def perform (g : Grammar T N P) (c : Config T N P) (finish : Nat) :
    Action T N P → ParseStep T N P E
  | .shift state => Automaton.shift c state finish
  | .reduce rule => g.tables.reduce c rule finish
  | .accept => Automaton.accept c finish
  | .nonassoc => Automaton.failAt c (.nonassoc (c.position finish).1 (c.position finish).2)

theorem step_tables {stack : List (Frame T N P)} {input : List (Token T)} (h : g.Known input)
    {finish : Nat} {action : Action T N P}
    (haction : g.tables.action (Config.stateOf stack) (input.head?.map Token.kind) = some action) :
    g.tables.step (none : Option E) finish ⟨stack, input⟩ =
      g.perform ⟨stack, input⟩ finish action := by
  have hknown : (input.head?.map Token.kind).all (· ∈ g.tables.terminals) = true := by
    cases input with
    | nil => rfl
    | cons token rest => exact decide_eq_true (List.mem_eraseDups.mpr (h token List.mem_cons_self))
  unfold Automaton.step
  cases input with
  | nil =>
    dsimp only
    rw [if_pos hknown, haction]
    cases action <;> rfl
  | cons token rest =>
    dsimp only
    rw [if_pos hknown, haction]
    cases action <;> rfl

/-- With the tokens of the tree before it, and behind them what can follow its root, the parser
comes to have the tree on its stack. -/
def TreeRuns (E : Type) (g : Grammar T N P) (t : Tree T N P) : Prop :=
  t.Valid g.rules → ∀ (stack : List (Frame T N P)) (input : List (Token T)) (finish : Nat),
    ∀ s ∈ g.states, Config.stateOf stack = g.states.idxOf s → t.root ∈ g.nextSymbols s →
      g.Known (t.leaves ++ input) →
      (∀ n, t.root = .nonterminal n → input.head?.map Token.kind ∈ g.follow n) →
      Automaton.Steps (E := E) g.tables finish t.steps ⟨stack, t.leaves ++ input⟩
        ⟨⟨g.states.idxOf (g.goto s t.root), t⟩ :: stack, input⟩

theorem leaf_runs (hfree : g.conflictFree = true) (token : Token T) :
    TreeRuns E g (.leaf token) := by
  intro _ stack input finish s hs hstate hnext hknown _
  rw [Tree.leaves, List.singleton_append] at hknown ⊢
  have hopen : g.opening (g.states.idxOf ·) s (some token.kind) =
      some (.shift (g.states.idxOf (g.goto s (.terminal token.kind)))) := by
    unfold opening
    dsimp only
    exact if_pos hnext
  have haction : g.tables.action (Config.stateOf stack)
      ((token :: input).head?.map Token.kind) =
        some (.shift (g.states.idxOf (g.goto s (.terminal token.kind)))) := by
    rw [hstate, action_tables hs (mem_lookaheads hknown),
      cell_of_opening hfree hs (mem_lookaheads hknown)]
    · exact hopen
    · show (g.opening (g.states.idxOf ·) s (some token.kind)).isSome = true
      rw [hopen]
      rfl
  refine .head (d := ⟨⟨g.states.idxOf (g.goto s (.terminal token.kind)), .leaf token⟩ :: stack,
    input⟩) ?_ (.refl _)
  rw [step_tables hknown haction]
  rfl

/-- The trees below a node are read one after the other, the mark of its rule moving over their
roots. -/
theorem forest_runs {ts : List (Tree T N P)} (hts : ∀ t ∈ ts, TreeRuns E g t)
    (hvalid : ∀ t ∈ ts, t.Valid g.rules) {i : Nat} {r : Rule T N P} (hr : g.rules[i]? = some r)
    (before : List (Symbol T N)) (hrhs : r.rhs = before ++ ts.map Tree.root)
    (stack : List (Frame T N P)) {s : State} (hs : s ∈ g.states)
    (hstate : Config.stateOf stack = g.states.idxOf s)
    (hitem : (⟨i + 1, before.length⟩ : Item) ∈ s) {input : List (Token T)} (finish : Nat)
    (hknown : g.Known (Tree.leavesOf ts ++ input))
    (hinput : input.head?.map Token.kind ∈ g.follow r.lhs) :
    ∃ frames : List (Frame T N P), frames.reverse.map Frame.tree = ts ∧
      (∃ s' ∈ g.states, Config.stateOf (frames ++ stack) = g.states.idxOf s' ∧
        (⟨i + 1, r.rhs.length⟩ : Item) ∈ s') ∧
      Automaton.Steps (E := E) g.tables finish ((Tree.leavesOf ts).length + Tree.nodesOf ts)
        ⟨stack, Tree.leavesOf ts ++ input⟩ ⟨frames ++ stack, input⟩ := by
  induction ts generalizing before stack s with
  | nil =>
    rw [List.map_nil, List.append_nil] at hrhs
    exact ⟨[], rfl, ⟨s, hs, hstate, hrhs ▸ hitem⟩, .refl _⟩
  | cons t rest ih =>
    have hroots : before ++ (t :: rest).map Tree.root =
        (before ++ [t.root]) ++ rest.map Tree.root := by
      rw [List.map_cons, List.append_assoc, List.singleton_append]
    have hnext : g.nextSymbol ⟨i + 1, before.length⟩ = some t.root := by
      unfold nextSymbol
      rw [rhsOf_succ hr, hrhs, List.map_cons, List.getElem?_append_right (Nat.le_refl _),
        Nat.sub_self]
      rfl
    have hleaves : Tree.leavesOf (t :: rest) ++ input =
        t.leaves ++ (Tree.leavesOf rest ++ input) := by
      rw [Tree.leavesOf, List.append_assoc]
    rw [hleaves] at hknown ⊢
    have hrest : ∀ u ∈ rest, u.Valid g.rules := fun u hu => hvalid u (List.mem_cons_of_mem _ hu)
    have hone := hts t List.mem_cons_self (hvalid t List.mem_cons_self) stack
      (Tree.leavesOf rest ++ input) finish s hs hstate (mem_nextSymbols.mpr ⟨_, hitem, hnext⟩)
      hknown fun n hn => by
        have hplace : r.rhs = before ++ .nonterminal n :: rest.map Tree.root := by
          rw [hrhs, List.map_cons, hn]
        exact mem_follow_of_forest (List.mem_of_getElem? hr) hrest hplace hinput
    obtain ⟨frames, htrees, hend, hsteps⟩ := ih
      (fun u hu => hts u (List.mem_cons_of_mem _ hu)) hrest (before ++ [t.root])
      (hrhs.trans hroots) (⟨g.states.idxOf (g.goto s t.root), t⟩ :: stack)
      (goto_mem_states hs hitem hnext) rfl
      (by rw [List.length_append]; exact mem_goto hitem hnext)
      (fun token htoken => hknown token (List.mem_append_right _ htoken))
    refine ⟨frames ++ [⟨g.states.idxOf (g.goto s t.root), t⟩], ?_, ?_, ?_⟩
    · rw [List.reverse_append, List.map_append, htrees]
      rfl
    · rw [List.append_assoc]
      exact hend
    · have hsize : (Tree.leavesOf (t :: rest)).length + Tree.nodesOf (t :: rest) =
          t.steps + ((Tree.leavesOf rest).length + Tree.nodesOf rest) := by
        rw [Tree.leavesOf, Tree.nodesOf, List.length_append, Tree.steps]
        omega
      rw [hsize, List.append_assoc]
      exact hone.trans hsteps

theorem tree_runs (hfree : g.conflictFree = true) (t : Tree T N P) : TreeRuns E g t := by
  induction t using Tree.induct with
  | leaf token => exact leaf_runs hfree token
  | node rule children ih =>
    intro hvalid stack input finish s hs hstate hnext hknown hfollow
    obtain ⟨hrule, hroots, hall⟩ := hvalid
    rw [Tree.validAll_iff] at hall
    rw [Tree.root] at hnext hfollow ⊢
    rw [Tree.leaves] at hknown ⊢
    obtain ⟨i, hr⟩ := List.mem_iff_getElem?.mp hrule
    obtain ⟨item, hitem, hmark⟩ := mem_nextSymbols.mp hnext
    have hopen : (⟨i + 1, 0⟩ : Item) ∈ s :=
      Closed.of_mem_states hs item hitem rule.lhs hmark i rule hr rfl
    obtain ⟨frames, htrees, ⟨s', hs', hstate', hdone⟩, hsteps⟩ := forest_runs ih hall hr []
      hroots.symm stack hs hstate hopen finish hknown (hfollow rule.lhs rfl)
    have hlength : frames.length = rule.rhs.length := by
      rw [← hroots, List.length_map, ← htrees, List.length_map, List.length_reverse]
    have hinput : g.Known input := fun token htoken => hknown token (List.mem_append_right _ htoken)
    have haction : g.tables.action (Config.stateOf (frames ++ stack))
        (input.head?.map Token.kind) = some (.reduce rule) := by
      rw [hstate', action_tables hs' (mem_lookaheads hinput)]
      exact cell_of_complete hfree hs' (mem_lookaheads hinput)
        (mem_complete.mpr ⟨i, _, hdone, hr, Nat.le_refl _⟩) (hfollow rule.lhs rfl)
    have hreduce : g.tables.step (none : Option E) finish ⟨frames ++ stack, input⟩ =
        .next ⟨⟨g.states.idxOf (g.goto s (.nonterminal rule.lhs)), .node rule children⟩ :: stack,
          input⟩ := by
      rw [step_tables hinput haction]
      unfold perform Automaton.reduce
      dsimp only
      rw [← hlength, List.take_left, List.drop_left, hstate, goto_tables hs hnext, htrees]
    have hsize : (Tree.node rule children).steps =
        (Tree.leavesOf children).length + Tree.nodesOf children + 1 := by
      rw [Tree.steps, Tree.leaves, Tree.nodes]
      omega
    rw [hsize]
    exact hsteps.trans (.head hreduce (.refl _))

/-! ## The run of a sentence -/

/-- A grammar without conflicts accepts every derivation of its start symbol, in one step for each
leaf and each node and one more. -/
theorem run_accepts (hfree : g.conflictFree = true) {t : Tree T N P} (hvalid : t.Valid g.rules)
    (hroot : t.root = .nonterminal g.start) (finish fuel : Nat) (hfuel : t.steps < fuel) :
    g.tables.run (none : Option E) finish fuel (.initial t.leaves) = .accepted t := by
  have hinit := initialState_mem_states g
  have hmark : g.nextSymbol ⟨0, 0⟩ = some t.root := by
    rw [hroot]
    rfl
  have hknown : g.Known t.leaves := kind_mem_terminals t hvalid fun k hk => by
    rw [hroot] at hk
    cases hk
  have hsteps := tree_runs (E := E) hfree t hvalid [] [] finish g.initialState hinit
    (idxOf_initialState g).symm
    (mem_nextSymbols.mpr ⟨_, start_mem_initialState g, hmark⟩)
    (by rwa [List.append_nil])
    (fun n hn => by
      rw [hroot] at hn
      cases hn
      exact none_mem_follow_start)
  rw [List.append_nil] at hsteps
  obtain ⟨k, rfl⟩ : ∃ k, fuel = t.steps + (k + 1) := ⟨fuel - t.steps - 1, by omega⟩
  have hlast : (⟨0, 1⟩ : Item) ∈ g.goto g.initialState t.root :=
    mem_goto (start_mem_initialState g) hmark
  have hs := goto_mem_states hinit (start_mem_initialState g) hmark
  have hnil : g.Known [] := fun token htoken => absurd htoken List.not_mem_nil
  have hopen : g.opening (g.states.idxOf ·) (g.goto g.initialState t.root) none = some .accept :=
    if_pos hlast
  have hend : none ∈ g.lookaheads := mem_lookaheads hnil
  have haction : g.tables.action (g.states.idxOf (g.goto g.initialState t.root)) none =
      some .accept := by
    rw [action_tables hs hend, cell_of_opening hfree hs hend]
    · exact hopen
    · rw [hopen]
      rfl
  have haccept : g.tables.step (none : Option E) finish
      ⟨[⟨g.states.idxOf (g.goto g.initialState t.root), t⟩], []⟩ =
        g.perform ⟨[⟨g.states.idxOf (g.goto g.initialState t.root), t⟩], []⟩ finish .accept :=
    step_tables hnil haction
  unfold Config.initial
  rw [Automaton.run_of_steps hsteps, Automaton.run, haccept]
  rfl

end Grammar

end SchemaBridge
