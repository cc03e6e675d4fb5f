/-
  How long a parse can take, whatever its conflicts. If no rule is empty and no nonterminal derives
  itself by rules of one nonterminal, the nonterminals can be ranked by how many others such rules
  lead down to, and the trees on a stack have no more nodes than their leaves and these ranks allow.
  Every step builds one leaf or one node, so that a parse comes to its end. The bound of `parse` is
  counted in states; but a nonterminal is put together only if a state expects it, and no two
  nonterminals lead on to the same state.
  Main results: `Proper.descends`, `card_heads_live_le` and `stopsWithin_parse`.
-/
import SchemaBridge.Proofs.Grammar.Position
import SchemaBridge.Proofs.Grammar.Size
import Mathlib.Tactic.Linarith

namespace SchemaBridge

variable {T N P E : Type}

/-! ## Counting calls -/

/-- The call puts a rule together. -/
def BuildStep.isNode : BuildStep T P → Bool
  | leaf _ => false
  | node _ _ => true

theorem countP_isNode_buildAll {ts : List (Tree T N P)}
    (h : ∀ t ∈ ts, t.build.countP BuildStep.isNode = t.nodes) :
    (Tree.buildAll ts).countP BuildStep.isNode = Tree.nodesOf ts := by
  induction ts with
  | nil => rfl
  | cons t rest ih =>
    rw [Tree.buildAll, Tree.nodesOf, List.countP_append, h t List.mem_cons_self,
      ih fun u hu => h u (List.mem_cons_of_mem _ hu)]

/-- A tree is built by one call for each of its nodes, besides those for its leaves. -/
theorem countP_isNode_build (t : Tree T N P) : t.build.countP BuildStep.isNode = t.nodes := by
  induction t using Tree.induct with
  | leaf token => rfl
  | node rule children ih =>
    rw [Tree.build, Tree.nodes, List.countP_append, countP_isNode_buildAll ih]
    rfl

/-- The parse comes to an end. On its way there it takes no more than so many tokens, and puts
together no more than so many rules. -/
structure Automaton.StopsWithin [DecidableEq T] [DecidableEq N] (a : Automaton T N P)
    (source : Source T E) (finish shifts reductions : Nat) : Prop where
  ends : ∃ calls c, a.Runs source.failure finish (.initial source.tokens) calls c ∧
    a.step source.failure finish c = .done (a.parse source finish)
  not_endless : ∀ forest, a.parse source finish ≠ .endless forest
  shifts_le : ∀ calls c, a.Runs source.failure finish (.initial source.tokens) calls c →
    (BuildStep.taken calls).length ≤ shifts
  reductions_le : ∀ calls c, a.Runs source.failure finish (.initial source.tokens) calls c →
    calls.countP BuildStep.isNode ≤ reductions

namespace Grammar

/-! ## Grammars without circles -/

/-- A rule of one nonterminal leads from `n` to `m`. -/
def UnitStep (g : Grammar T N P) (n m : N) : Prop :=
  ∃ r ∈ g.rules, r.lhs = n ∧ r.rhs = [.nonterminal m]

/-- No rule is empty, and no nonterminal derives itself by rules of one nonterminal. -/
structure Proper (g : Grammar T N P) : Prop where
  nonempty : ∀ r ∈ g.rules, r.rhs ≠ []
  acyclic : ∀ n, ¬Relation.TransGen g.UnitStep n n

variable {g : Grammar T N P}

/-- Where rules of one symbol lead down, they do not lead back. -/
theorem Descends.proper {rank : N → Nat} {height : Nat} (h : g.Descends rank height) :
    g.Proper := by
  have hdown : ∀ n m, Relation.TransGen g.UnitStep n m → rank m < rank n := by
    intro n m hpath
    induction hpath with
    | single hstep =>
      obtain ⟨r, hr, rfl, hrhs⟩ := hstep
      exact h.unit r hr _ hrhs
    | tail _ hstep ih =>
      obtain ⟨r, hr, rfl, hrhs⟩ := hstep
      exact (h.unit r hr _ hrhs).trans ih
  exact ⟨h.nonempty, fun n hpath => Nat.lt_irrefl _ (hdown n n hpath)⟩

variable [DecidableEq N]

open scoped Classical in
/-- The nonterminals that rules of one nonterminal lead down to. -/
noncomputable def below (g : Grammar T N P) (n : N) : Finset N :=
  g.heads.toFinset.filter fun m => Relation.TransGen g.UnitStep n m

open scoped Classical in
theorem mem_below {n m : N} :
    m ∈ g.below n ↔ m ∈ g.heads ∧ Relation.TransGen g.UnitStep n m := by
  unfold below
  rw [Finset.mem_filter, List.mem_toFinset]

omit [DecidableEq N] in
theorem UnitStep.mem_heads {n m : N} (h : g.UnitStep n m) : n ∈ g.heads := by
  obtain ⟨r, hr, rfl, -⟩ := h
  exact List.mem_map.mpr ⟨r, hr, rfl⟩

/-- Fewer nonterminals lie below what a rule of one nonterminal leads to. -/
theorem Proper.card_below_lt (h : g.Proper) {n m : N} (hstep : g.UnitStep n m)
    (hm : m ∈ g.heads) : (g.below m).card < (g.below n).card := by
  apply Finset.card_lt_card
  refine (Finset.ssubset_iff_of_subset fun k hk => ?_).mpr ⟨m, ?_, fun hself => ?_⟩
  · obtain ⟨hk, hpath⟩ := mem_below.mp hk
    exact mem_below.mpr ⟨hk, .head hstep hpath⟩
  · exact mem_below.mpr ⟨hm, .single hstep⟩
  · exact h.acyclic m (mem_below.mp hself).2

/-- A nonterminal is not below itself, and below one without rules there is nothing. -/
theorem Proper.card_below_lt_card_heads (h : g.Proper) (hstart : g.start ∈ g.heads) (n : N) :
    (g.below n).card < g.heads.toFinset.card := by
  apply Finset.card_lt_card
  have hsub : g.below n ⊆ g.heads.toFinset :=
    fun m hm => List.mem_toFinset.mpr (mem_below.mp hm).1
  by_cases hn : n ∈ g.heads
  · exact (Finset.ssubset_iff_of_subset hsub).mpr
      ⟨n, List.mem_toFinset.mpr hn, fun hself => h.acyclic n (mem_below.mp hself).2⟩
  · refine (Finset.ssubset_iff_of_subset hsub).mpr
      ⟨g.start, List.mem_toFinset.mpr hstart, fun hself => hn ?_⟩
    obtain ⟨m, hstep, -⟩ := Relation.TransGen.head'_iff.mp (mem_below.mp hself).2
    exact hstep.mem_heads

/-- The number of nonterminals below ranks them. -/
theorem Proper.descends (h : g.Proper) (hstart : g.start ∈ g.heads)
    (hheads : ∀ r ∈ g.rules, ∀ n, .nonterminal n ∈ r.rhs → n ∈ g.heads) :
    g.Descends (fun n => (g.below n).card + 1) g.heads.toFinset.card := by
  refine ⟨fun n => Nat.succ_pos _, fun n => h.card_below_lt_card_heads hstart n, h.nonempty, ?_⟩
  intro r hr x hrhs
  cases x with
  | terminal t => exact Nat.succ_pos _
  | nonterminal m =>
    have hm : m ∈ g.heads := hheads r hr m (by rw [hrhs]; exact List.mem_singleton.mpr rfl)
    exact Nat.succ_lt_succ (h.card_below_lt ⟨r, hr, rfl, hrhs⟩ hm)

/-! ## What the states expect -/

variable [DecidableEq T]

/-- The nonterminals that some state expects. -/
def expectedNames (g : Grammar T N P) : List N :=
  g.states.flatMap fun s => (g.nextSymbols s).filterMap Symbol.nonterminal?

theorem mem_expectedNames {n : N} :
    n ∈ g.expectedNames ↔ ∃ s ∈ g.states, .nonterminal n ∈ g.nextSymbols s := by
  unfold expectedNames
  simp only [List.mem_flatMap, List.mem_filterMap]
  constructor
  · rintro ⟨s, hs, x, hx, hn⟩
    cases x <;> cases hn
    exact ⟨s, hs, hx⟩
  · rintro ⟨s, hs, hn⟩
    exact ⟨s, hs, _, hn, rfl⟩

/-- The grammar without the rules of nonterminals that no state expects. -/
def live (g : Grammar T N P) : Grammar T N P :=
  { g with rules := g.rules.filter fun r => r.lhs ∈ g.expectedNames }

theorem mem_rules_live {r : Rule T N P} :
    r ∈ g.live.rules ↔ r ∈ g.rules ∧ r.lhs ∈ g.expectedNames := by
  unfold live
  rw [List.mem_filter, decide_eq_true_eq]

theorem Proper.live (h : g.Proper) : g.live.Proper := by
  refine ⟨fun r hr => h.nonempty r (mem_rules_live.mp hr).1, fun n hpath => h.acyclic n ?_⟩
  have hsteps : g.live.UnitStep ≤ g.UnitStep := by
    rintro m k ⟨r, hr, hlhs, hrhs⟩
    exact ⟨r, (mem_rules_live.mp hr).1, hlhs, hrhs⟩
  exact Relation.TransGen.mono hsteps n n hpath

theorem start_mem_expectedNames (g : Grammar T N P) : g.start ∈ g.expectedNames :=
  mem_expectedNames.mpr ⟨_, initialState_mem_states g,
    mem_nextSymbols.mpr ⟨⟨0, 0⟩, start_mem_initialState g, rfl⟩⟩

/-- If a rule is expected, its mark moves over all of it. -/
theorem exists_marked_state {i : Nat} {r : Rule T N P} (hr : g.rules[i]? = some r)
    (hlhs : r.lhs ∈ g.expectedNames) {dot : Nat} (hdot : dot ≤ r.rhs.length) :
    ∃ s ∈ g.states, (⟨i + 1, dot⟩ : Item) ∈ s := by
  induction dot with
  | zero =>
    obtain ⟨s, hs, hnext⟩ := mem_expectedNames.mp hlhs
    obtain ⟨item, hitem, hx⟩ := mem_nextSymbols.mp hnext
    exact ⟨s, hs, Closed.of_mem_states hs item hitem r.lhs hx i r hr rfl⟩
  | succ dot ih =>
    obtain ⟨s, hs, hitem⟩ := ih (Nat.le_of_succ_le hdot)
    have hx : g.nextSymbol ⟨i + 1, dot⟩ = some r.rhs[dot] := by
      unfold nextSymbol
      rw [rhsOf_succ hr]
      exact List.getElem?_eq_getElem hdot
    exact ⟨_, goto_mem_states hs hitem hx, mem_goto hitem hx⟩

/-- What is expected is made of what is expected. -/
theorem mem_expectedNames_of_mem_rhs {r : Rule T N P} (hr : r ∈ g.rules)
    (hlhs : r.lhs ∈ g.expectedNames) {n : N} (hn : .nonterminal n ∈ r.rhs) :
    n ∈ g.expectedNames := by
  obtain ⟨i, hi⟩ := List.mem_iff_getElem?.mp hr
  obtain ⟨dot, hdot, hx⟩ := List.mem_iff_getElem.mp hn
  obtain ⟨s, hs, hitem⟩ := exists_marked_state hi hlhs (Nat.le_of_lt hdot)
  refine mem_expectedNames.mpr ⟨s, hs, mem_nextSymbols.mpr ⟨_, hitem, ?_⟩⟩
  unfold nextSymbol
  rw [rhsOf_succ hi, List.getElem?_eq_getElem hdot, hx]

theorem valid_live (t : Tree T N P) : t.Valid g.rules →
    (∀ n, t.root = .nonterminal n → n ∈ g.expectedNames) → t.Valid g.live.rules := by
  induction t using Tree.induct with
  | leaf token => exact fun _ _ => trivial
  | node rule children ih =>
    rintro ⟨hrule, hroots, hall⟩ hroot
    have hlhs : rule.lhs ∈ g.expectedNames := hroot rule.lhs rfl
    rw [Tree.validAll_iff] at hall
    refine ⟨mem_rules_live.mpr ⟨hrule, hlhs⟩, hroots, Tree.validAll_iff.mpr fun c hc => ?_⟩
    refine ih c hc (hall c hc) fun n hn => mem_expectedNames_of_mem_rhs hrule hlhs ?_
    rw [← hroots, ← hn]
    exact List.mem_map_of_mem hc

/-- States are entered by one symbol only. -/
theorem symbol_eq_of_goto_eq {s s' : State} {x y : Symbol T N} (hx : x ∈ g.nextSymbols s)
    (h : g.goto s x = g.goto s' y) : x = y := by
  obtain ⟨item, hitem, hnext⟩ := mem_nextSymbols.mp hx
  have hmoved := mem_goto hitem hnext
  rw [h] at hmoved
  rcases mem_closure hmoved with hkernel | ⟨i, r, -, -, heq⟩
  · obtain ⟨other, hother, heq⟩ := List.mem_map.mp hkernel
    have hsame : other = item := by
      cases other
      cases item
      simp_all
    have hy := (List.mem_filter.mp hother).2
    rw [hsame, hnext] at hy
    simpa using hy
  · exact absurd (congrArg Item.dot heq) (Nat.succ_ne_zero _)

/-- There are no more nonterminals with a use than there are states. -/
theorem card_heads_live_le (g : Grammar T N P) :
    g.live.heads.toFinset.card ≤ g.states.length := by
  have hexpected : ∀ n ∈ g.live.heads.toFinset, ∃ s ∈ g.states,
      .nonterminal n ∈ g.nextSymbols s := by
    intro n hn
    obtain ⟨r, hr, rfl⟩ := List.mem_map.mp (List.mem_toFinset.mp hn)
    exact mem_expectedNames.mp (mem_rules_live.mp hr).2
  choose! state hstate hnext using hexpected
  have hcard : g.live.heads.toFinset.card ≤ g.states.toFinset.card := by
    refine Finset.card_le_card_of_injOn (fun n => g.goto (state n) (.nonterminal n)) ?_ ?_
    · intro n hn
      obtain ⟨item, hitem, hx⟩ := mem_nextSymbols.mp (hnext n hn)
      exact List.mem_toFinset.mpr (goto_mem_states (hstate n hn) hitem hx)
    · intro n hn m _ heq
      exact Symbol.nonterminal.inj (symbol_eq_of_goto_eq (hnext n hn) heq)
  exact hcard.trans (List.toFinset_card_le _)

theorem card_heads_live_le_heads (g : Grammar T N P) :
    g.live.heads.toFinset.card ≤ g.heads.toFinset.card := by
  refine Finset.card_le_card fun n hn => ?_
  obtain ⟨r, hr, rfl⟩ := List.mem_map.mp (List.mem_toFinset.mp hn)
  exact List.mem_toFinset.mpr (List.mem_map.mpr ⟨r, (mem_rules_live.mp hr).1, rfl⟩)

/-! ## Steps -/

theorem start_mem_heads {a : Automaton T N P} (hcompile : g.compile = .ok a) :
    g.start ∈ g.heads :=
  mem_heads_of_compile (i := 0) hcompile (List.mem_singleton.mpr rfl)

theorem Proper.descends_live {a : Automaton T N P} (h : g.Proper) (hcompile : g.compile = .ok a) :
    g.live.Descends (fun n => (g.live.below n).card + 1) g.live.heads.toFinset.card := by
  have hheads : ∀ n ∈ g.heads, n ∈ g.expectedNames → n ∈ g.live.heads := by
    intro n hn hexpected
    obtain ⟨r, hr, rfl⟩ := List.mem_map.mp hn
    exact List.mem_map.mpr ⟨r, mem_rules_live.mpr ⟨hr, hexpected⟩, rfl⟩
  refine h.live.descends ?_ fun r hr n hn => ?_
  · exact hheads _ (start_mem_heads hcompile) (start_mem_expectedNames g)
  · obtain ⟨hr, hlhs⟩ := mem_rules_live.mp hr
    obtain ⟨i, hi⟩ := List.mem_iff_getElem?.mp hr
    rw [← rhsOf_succ hi] at hn
    refine hheads n (mem_heads_of_compile hcompile hn) ?_
    rw [rhsOf_succ hi] at hn
    exact mem_expectedNames_of_mem_rhs hr hlhs hn

variable {a : Automaton T N P} {tokens : List (Token T)} {c : Config T N P}

/-- The trees on a stack are made of rules that some state expects. -/
theorem Spells.valid_live {stack : List (Frame T N P)} (h : g.Spells stack) :
    ∀ f ∈ stack, f.tree.Valid g.live.rules := by
  induction h with
  | nil => exact List.forall_mem_nil _
  | @push stack t hstack hvalid hnext ih =>
    refine List.forall_mem_cons.mpr ⟨Grammar.valid_live t hvalid fun n hn => ?_, ih⟩
    exact mem_expectedNames.mpr ⟨_, hstack.mem_states, hn ▸ hnext⟩

/-- No more nodes are built than the leaves can have above them. -/
theorem Standing.nodesOf_le (h : g.Standing tokens c) (hcompile : g.compile = .ok a)
    (hproper : g.Proper) :
    Tree.nodesOf c.forest ≤ 2 * g.live.heads.toFinset.card * tokens.length := by
  have hdown := hproper.descends_live hcompile
  have hslender : ∀ t ∈ c.forest, Slender (fun n => (g.live.below n).card + 1)
      g.live.heads.toFinset.card t := by
    intro t ht
    obtain ⟨f, hf, rfl⟩ := mem_trees_iff.mp ht
    exact slender_of_valid hdown f.tree (h.spells.valid_live f hf)
  have hnodes := Grammar.nodesOf_le hdown hslender
  have hleaves := congrArg List.length h.leaves
  rw [List.length_append] at hleaves
  have hmul := Nat.mul_le_mul_left (2 * g.live.heads.toFinset.card)
    (show (Tree.leavesOf c.forest).length ≤ tokens.length by omega)
  omega

/-- The steps that such a parse can take are fewer than it may take. -/
theorem steps_lt_stepBound (g : Grammar T N P) (n : Nat) :
    n + 2 * g.live.heads.toFinset.card * n < g.tables.stepBound n := by
  have hrows : g.tables.rows.length = g.states.length := List.length_map _
  have hlive := card_heads_live_le g
  unfold Automaton.stepBound
  rw [hrows]
  generalize g.live.heads.toFinset.card = k at hlive ⊢
  generalize g.states.length = r at hlive ⊢
  have hpow : 2 * (r + 2) ≤ Nat.pow (r + 2) (r + 3) := by
    have htwo : (r + 2) ^ 2 ≤ (r + 2) ^ (r + 3) := Nat.pow_le_pow_right (by omega) (by omega)
    have hmul : 2 * (r + 2) ≤ (r + 2) * (r + 2) := Nat.mul_le_mul_right _ (by omega)
    rw [← Nat.pow_two] at hmul
    exact hmul.trans htwo
  calc n + 2 * k * n ≤ n + 2 * r * n :=
        Nat.add_le_add_left (Nat.mul_le_mul_right n (Nat.mul_le_mul_left 2 hlive)) n
    _ < (n + 2) * (2 * (r + 2)) := by nlinarith
    _ ≤ (n + 2) * (n + 2) * (2 * (r + 2)) :=
        Nat.mul_le_mul_right _ (Nat.le_mul_of_pos_right _ (Nat.succ_pos _))
    _ ≤ (n + 2) * (n + 2) * Nat.pow (r + 2) (r + 3) := Nat.mul_le_mul_left _ hpow

variable (hcompile : g.compile = .ok a) (hproper : g.Proper)

include hcompile hproper

theorem parse_ne_endless_of_proper (source : Source T E) (finish : Nat)
    (forest : List (Tree T N P)) : g.tables.parse source finish ≠ .endless forest := by
  intro hendless
  obtain ⟨config, hzero, hsteps⟩ := Automaton.exists_steps_of_endless hendless
  obtain ⟨hstanding, hsize⟩ := standing_of_steps hzero hsteps _ (Nat.le_refl _)
  have hnodes := hstanding.nodesOf_le hcompile hproper
  have hleaves := congrArg List.length hstanding.leaves
  have hbound := steps_lt_stepBound g source.tokens.length
  rw [List.length_append] at hleaves
  omega

/-- A proper grammar parses every source to an end, whatever its conflicts, and in a number of steps
that its nonterminals and the tokens bound. -/
theorem stopsWithin_parse (source : Source T E) (finish : Nat) :
    a.StopsWithin source finish source.tokens.length
      (source.tokens.length + (2 * source.tokens.length + 1) * g.heads.toFinset.card) := by
  have hends := parse_ne_endless_of_proper hcompile hproper source finish
  obtain rfl := tables_of_compile hcompile
  have hrun : g.tables.run source.failure finish (g.tables.stepBound source.tokens.length)
      (.initial source.tokens) = g.tables.parse source finish := rfl
  refine ⟨?_, hends, fun calls c hruns => ?_, fun calls c hruns => ?_⟩
  · rcases Automaton.exists_runs_of_run hrun with ⟨forest, hforest⟩ | hdone
    · exact absurd hforest (hends forest)
    · exact hdone
  all_goals
    obtain ⟨hstanding, hcalls⟩ := (standing_initial g source.tokens).runs hruns
    rw [show Tree.buildAll (Config.initial source.tokens).forest = [] from rfl,
      List.nil_append] at hcalls
    subst hcalls
  · have hleaves := congrArg List.length hstanding.leaves
    rw [List.length_append] at hleaves
    rw [taken_buildAll fun t _ => taken_build t]
    omega
  · have hnodes := hstanding.nodesOf_le hcompile hproper
    have hlive := card_heads_live_le_heads g
    rw [countP_isNode_buildAll fun t _ => countP_isNode_build t]
    generalize source.tokens.length = n at hnodes ⊢
    calc Tree.nodesOf c.forest ≤ 2 * g.live.heads.toFinset.card * n := hnodes
      _ ≤ 2 * g.heads.toFinset.card * n :=
        Nat.mul_le_mul_right n (Nat.mul_le_mul_left 2 hlive)
      _ ≤ n + (2 * n + 1) * g.heads.toFinset.card := by nlinarith

end Grammar

end SchemaBridge
