/-
  Which items stand in the state that a list of symbols leads to. An item is viable behind a list of
  symbols if the symbols before its mark end the list, and what it is a part of can begin with the
  rest. The states hold exactly the viable items, so that what a state allows can be argued by
  induction on how an item came to be viable, without a look at closures.
  Main result: `mem_stateAfter_iff`.
-/
import SchemaBridge.Proofs.Grammar.State

namespace SchemaBridge.Grammar

variable {T N P : Type}

/-- The item can stand in the state behind the symbols: it is the start, or its mark was moved over
the last of them, or it is a rule for what another item expects there. -/
inductive Viable (g : Grammar T N P) : List (Symbol T N) → Item → Prop
  | start : Viable g [] ⟨0, 0⟩
  | advance {before : List (Symbol T N)} {item : Item} {x : Symbol T N}
      (h : Viable g before item) (hx : g.nextSymbol item = some x) :
      Viable g (before ++ [x]) ⟨item.rule, item.dot + 1⟩
  | expand {before : List (Symbol T N)} {item : Item} {i : Nat} {r : Rule T N P}
      (h : Viable g before item) (hr : g.rules[i]? = some r)
      (hx : g.nextSymbol item = some (.nonterminal r.lhs)) : Viable g before ⟨i + 1, 0⟩

variable {g : Grammar T N P} {before : List (Symbol T N)} {item : Item}

theorem nextSymbol_eq_some_iff {x : Symbol T N} :
    g.nextSymbol item = some x ↔ (g.rhsOf item.rule)[item.dot]? = some x :=
  Iff.rfl

/-- The mark does not leave the rule. -/
theorem Viable.dot_le (h : g.Viable before item) : item.dot ≤ (g.rhsOf item.rule).length := by
  cases h with
  | start => exact Nat.zero_le _
  | advance _ hx => exact (List.getElem?_eq_some_iff.mp (nextSymbol_eq_some_iff.mp hx)).1
  | expand => exact Nat.zero_le _

/-- Before a viable item stand the symbols that its mark has passed, and before these the item is
viable with its mark in front. -/
theorem Viable.split (h : g.Viable before item) : ∃ front,
    before = front ++ (g.rhsOf item.rule).take item.dot ∧ g.Viable front ⟨item.rule, 0⟩ := by
  induction h with
  | start => exact ⟨[], rfl, .start⟩
  | @advance before item x h hx ih =>
    obtain ⟨front, hfront, hzero⟩ := ih
    refine ⟨front, ?_, hzero⟩
    rw [List.take_add_one, nextSymbol_eq_some_iff.mp hx, hfront, List.append_assoc]
    rfl
  | @expand before item i r h hr hx =>
    refine ⟨before, ?_, .expand h hr hx⟩
    rw [List.take_zero, List.append_nil]

/-- A rule with its mark in front is there because another item expects its head. -/
theorem Viable.expected {i : Nat} (h : g.Viable before ⟨i + 1, 0⟩) :
    ∃ r item, g.rules[i]? = some r ∧ g.Viable before item ∧
      g.nextSymbol item = some (.nonterminal r.lhs) := by
  generalize hitem : (⟨i + 1, 0⟩ : Item) = target at h
  cases h with
  | start => cases hitem
  | advance => exact absurd (congrArg Item.dot hitem).symm (Nat.succ_ne_zero _)
  | expand h hr hx =>
    cases hitem
    exact ⟨_, _, hr, h, hx⟩

/-- The item of the start symbol is viable before everything and behind the start symbol. -/
theorem Viable.of_rule_zero {dot : Nat} (h : g.Viable before ⟨0, dot⟩) :
    before = (g.rhsOf 0).take dot := by
  obtain ⟨front, hfront, hzero⟩ := h.split
  generalize hitem : (⟨0, 0⟩ : Item) = target at hzero
  cases hzero with
  | start => exact hfront
  | advance => exact absurd (congrArg Item.dot hitem).symm (Nat.succ_ne_zero _)
  | expand => cases hitem

/-! ## States -/

variable [DecidableEq N] [DecidableEq T]

/-- The state that a list of symbols leads to. -/
def stateAfter (g : Grammar T N P) (symbols : List (Symbol T N)) : State :=
  symbols.foldl g.goto g.initialState

theorem stateAfter_append_singleton (before : List (Symbol T N)) (x : Symbol T N) :
    g.stateAfter (before ++ [x]) = g.goto (g.stateAfter before) x :=
  List.foldl_append

omit [DecidableEq T] in
/-- What a kernel of viable items expects, one of the items viable there expects. -/
theorem exists_viable_of_mem_expected {kernel : State} (h : ∀ k ∈ kernel, g.Viable before k) :
    ∀ n ∈ g.expected kernel, ∃ item, g.Viable before item ∧
      g.nextSymbol item = some (.nonterminal n) := by
  unfold expected reach
  apply forall_mem_reachFrom
  · rintro n ⟨item, hitem, hn⟩ m hm
    obtain ⟨r, hr, hhead⟩ := List.mem_filterMap.mp hm
    obtain ⟨hr, hlhs⟩ := List.mem_filter.mp hr
    obtain ⟨i, hi⟩ := List.mem_iff_getElem?.mp hr
    obtain ⟨x, hx, hm⟩ := Option.bind_eq_some_iff.mp hhead
    refine ⟨⟨i + 1, 0⟩, .expand hitem hi (by rw [hn, beq_iff_eq.mp hlhs]), ?_⟩
    rw [nextSymbol_eq_some_iff, rhsOf_succ hi, ← List.head?_eq_getElem?, hx]
    cases x with
    | terminal t => cases hm
    | nonterminal k =>
      cases hm
      rfl
  · exact fun n hn => absurd hn List.not_mem_nil
  · intro n hn
    obtain ⟨item, hitem, hnext⟩ := List.mem_filterMap.mp hn
    obtain ⟨x, hx, hn⟩ := Option.bind_eq_some_iff.mp hnext
    refine ⟨item, h item hitem, ?_⟩
    cases x with
    | terminal t => cases hn
    | nonterminal k =>
      cases hn
      exact hx

omit [DecidableEq T] in
theorem viable_of_mem_closure {kernel : State} (h : ∀ k ∈ kernel, g.Viable before k)
    (hitem : item ∈ g.closure kernel) : g.Viable before item := by
  rcases mem_closure hitem with hmem | ⟨i, r, hr, hexp, rfl⟩
  · exact h item hmem
  · obtain ⟨item, hviable, hnext⟩ := exists_viable_of_mem_expected h r.lhs hexp
    exact .expand hviable hr hnext

theorem viable_of_mem_stateAfter (symbols : List (Symbol T N)) :
    ∀ item ∈ g.stateAfter symbols, g.Viable symbols item := by
  induction symbols using List.reverseRecOn with
  | nil =>
    intro item hitem
    refine viable_of_mem_closure (fun k hk => ?_) hitem
    rw [List.mem_singleton.mp hk]
    exact .start
  | append_singleton symbols x ih =>
    intro item hitem
    rw [stateAfter_append_singleton] at hitem
    refine viable_of_mem_closure (fun k hk => ?_) hitem
    obtain ⟨old, hold, rfl⟩ := List.mem_map.mp hk
    obtain ⟨hmem, hnext⟩ := List.mem_filter.mp hold
    exact .advance (ih old hmem) (beq_iff_eq.mp hnext)

/-- Every state that symbols lead to is closed, be it a state of the tables or the empty one. -/
theorem closed_stateAfter (symbols : List (Symbol T N)) : g.Closed (g.stateAfter symbols) := by
  induction symbols using List.reverseRecOn with
  | nil => exact closed_closure g _
  | append_singleton symbols x _ =>
    rw [stateAfter_append_singleton]
    exact closed_closure g _

/-- The state behind a list of symbols holds the items that are viable there. -/
theorem mem_stateAfter_iff : item ∈ g.stateAfter before ↔ g.Viable before item := by
  refine ⟨viable_of_mem_stateAfter before item, fun h => ?_⟩
  induction h with
  | start => exact start_mem_initialState g
  | advance _ hx ih =>
    rw [stateAfter_append_singleton]
    exact mem_goto ih hx
  | expand _ hr hx ih => exact closed_stateAfter _ _ ih _ hx _ _ hr rfl

theorem mem_nextSymbols_stateAfter {x : Symbol T N} : x ∈ g.nextSymbols (g.stateAfter before) ↔
    ∃ item, g.Viable before item ∧ g.nextSymbol item = some x := by
  rw [mem_nextSymbols]
  constructor
  · rintro ⟨item, hitem, hx⟩
    exact ⟨item, mem_stateAfter_iff.mp hitem, hx⟩
  · rintro ⟨item, hitem, hx⟩
    exact ⟨item, mem_stateAfter_iff.mpr hitem, hx⟩

end SchemaBridge.Grammar
