/-
  The states of the automaton. Every state is closed: behind a mark before a nonterminal stand the
  unmarked rules of that nonterminal. Moving the mark over a symbol leads from a state to a state.
  States are lists of items in one fixed order, so there are no more of them than the search for
  them has fuel for.
  Main results: `Closed.of_mem_states`, `goto_mem_states` and `mem_goto`.
-/
import SchemaBridge.Grammar.State
import SchemaBridge.Proofs.Grammar.Follow
import Mathlib.Data.List.Flatten
import Mathlib.Data.List.Sublists

namespace SchemaBridge

theorem reachFrom_prefix {α : Type} [DecidableEq α] (next : α → List α) (fuel : Nat)
    (seen todo : List α) : seen <+: reachFrom next fuel seen todo := by
  induction fuel generalizing seen todo with
  | zero => exact List.prefix_refl seen
  | succ fuel ih =>
    cases todo with
    | nil => exact List.prefix_refl seen
    | cons x rest =>
      unfold reachFrom
      split
      · exact ih seen rest
      · exact (List.prefix_append seen [x]).trans (ih _ _)

theorem length_eraseDups_le {α : Type} [DecidableEq α] (l : List α) :
    l.eraseDups.length ≤ l.length := by
  induction h : l.length using Nat.strong_induction_on generalizing l with
  | _ n ih =>
    cases l with
    | nil => exact Nat.zero_le _
    | cons a rest =>
      have hlt : (rest.filter fun b => !b == a).length < n := by
        rw [← h, List.length_cons]
        exact Nat.lt_succ_of_le (List.length_filter_le _ _)
      have hle := ih _ hlt _ rfl
      rw [List.eraseDups_cons, List.length_cons]
      omega

namespace Grammar

variable {T N P : Type} {g : Grammar T N P}

/-! ## Items -/

/-- The items of a rule, by its number. -/
def itemsOf (i : Nat) (r : Rule T N P) : List Item :=
  (List.range (r.rhs.length + 1)).map (Item.mk i)

/-- All items of a grammar, ascending. -/
def items (g : Grammar T N P) : List Item :=
  [⟨0, 0⟩, ⟨0, 1⟩] ++ (g.rules.zipIdx 1).flatMap fun p => itemsOf p.2 p.1

theorem length_items (g : Grammar T N P) : g.items.length = g.itemCount := by
  have hlen : ∀ (rules : List (Rule T N P)) (k : Nat),
      ((rules.zipIdx k).flatMap fun p => itemsOf p.2 p.1).length =
        (rules.map fun r => r.rhs.length).sum + rules.length := by
    intro rules
    induction rules with
    | nil => exact fun _ => rfl
    | cons r rest ih =>
      intro k
      rw [List.zipIdx_cons, List.flatMap_cons, List.length_append, ih, List.map_cons,
        List.sum_cons, List.length_cons, itemsOf, List.length_map, List.length_range]
      dsimp only
      omega
  unfold items itemCount
  rw [List.length_append, hlen, size_eq]
  show 2 + _ = _
  omega

theorem itemsOf_eq (i : Nat) (r : Rule T N P) :
    itemsOf i r = (List.range r.rhs.length).map (Item.mk i) ++ [⟨i, r.rhs.length⟩] := by
  unfold itemsOf
  rw [List.range_succ, List.map_append, List.map_singleton]

theorem filter_rule_itemsOf_self (i : Nat) (r : Rule T N P) :
    (itemsOf i r).filter (·.rule == i) = itemsOf i r := by
  apply List.filter_eq_self.mpr
  intro item hitem
  obtain ⟨d, -, rfl⟩ := List.mem_map.mp hitem
  exact beq_self_eq_true i

theorem filter_rule_itemsOf_of_ne {i j : Nat} (h : j ≠ i) (r : Rule T N P) :
    (itemsOf j r).filter (·.rule == i) = [] := by
  apply List.filter_eq_nil_iff.mpr
  intro item hitem
  obtain ⟨d, -, rfl⟩ := List.mem_map.mp hitem
  simpa using h

theorem filter_rule_items {i : Nat} {r : Rule T N P} (hr : g.rules[i]? = some r) :
    g.items.filter (·.rule == i + 1) = itemsOf (i + 1) r := by
  have hrules : ∀ (rules : List (Rule T N P)) (k j : Nat), rules[j]? = some r →
      ((rules.zipIdx k).flatMap fun p => itemsOf p.2 p.1).filter (·.rule == k + j) =
        itemsOf (k + j) r := by
    intro rules
    induction rules with
    | nil => exact fun _ _ h => nomatch h
    | cons q rest ih =>
      intro k j hj
      rw [List.zipIdx_cons, List.flatMap_cons, List.filter_append]
      cases j with
      | zero =>
        cases hj
        have hnone : (((rest.zipIdx (k + 1)).flatMap fun p => itemsOf p.2 p.1).filter
            (·.rule == k + 0)) = [] := by
          rw [List.filter_flatMap, List.flatMap_eq_nil_iff]
          intro p hp
          have hle := List.le_snd_of_mem_zipIdx hp
          exact filter_rule_itemsOf_of_ne (by omega) p.1
        rw [hnone, List.append_nil]
        exact filter_rule_itemsOf_self _ _
      | succ j =>
        rw [List.getElem?_cons_succ] at hj
        rw [filter_rule_itemsOf_of_ne (by omega), List.nil_append,
          show k + (j + 1) = k + 1 + j by omega]
        exact ih (k + 1) j hj
  unfold items
  rw [List.filter_append, show i + 1 = 1 + i by omega, hrules _ _ _ hr]
  rw [List.filter_eq_nil_iff.mpr, List.nil_append]
  intro item hitem
  simp only [List.mem_cons, List.not_mem_nil, or_false] at hitem
  rcases hitem with rfl | rfl <;> simp [Nat.add_comm 1 i]

theorem filter_rule_zero_items : g.items.filter (·.rule == 0) = [⟨0, 0⟩, ⟨0, 1⟩] := by
  unfold items
  rw [List.filter_append, List.filter_flatMap]
  have hnone : (g.rules.zipIdx 1).flatMap
      (fun p => (itemsOf p.2 p.1).filter (·.rule == 0)) = [] := by
    rw [List.flatMap_eq_nil_iff]
    intro p hp
    have hle := List.le_snd_of_mem_zipIdx hp
    exact filter_rule_itemsOf_of_ne (by omega) p.1
  rw [hnone]
  rfl

theorem rhsOf_succ {i : Nat} {r : Rule T N P} (hr : g.rules[i]? = some r) :
    g.rhsOf (i + 1) = r.rhs := by
  rw [rhsOf, hr]
  rfl

/-- A mark with a symbol behind it stands in a rule of the grammar, or above it. -/
theorem rule_of_nextSymbol {item : Item} {x : Symbol T N} (h : g.nextSymbol item = some x) :
    item.rule = 0 ∨ ∃ i r, item.rule = i + 1 ∧ g.rules[i]? = some r := by
  cases hrule : item.rule with
  | zero => exact .inl rfl
  | succ i =>
    rw [nextSymbol, hrule, rhsOf] at h
    cases hr : g.rules[i]? with
    | none =>
      rw [hr] at h
      cases h
    | some r => exact .inr ⟨i, r, rfl, hr⟩

/-- A kernel whose marks have moved: its items stand in order. -/
structure Kernel (g : Grammar T N P) (kernel : State) : Prop where
  above : (kernel.filter (·.rule == 0)).Sublist [⟨0, 0⟩, ⟨0, 1⟩]
  moved : ∀ i r, g.rules[i]? = some r →
    (kernel.filter (·.rule == i + 1)).Sublist
      ((List.range r.rhs.length).map fun d => ⟨i + 1, d + 1⟩)

theorem kernel_start (g : Grammar T N P) : g.Kernel [⟨0, 0⟩] := by
  refine ⟨?_, fun i r _ => ?_⟩
  · exact List.Sublist.cons_cons _ (List.nil_sublist _)
  · rw [List.filter_eq_nil_iff.mpr]
    · exact List.nil_sublist _
    · intro item hitem
      rw [List.mem_singleton.mp hitem]
      simp

variable [DecidableEq N]

/-! ## Closures -/

theorem length_openers_le (n : N) : (g.openers n).length ≤
    ((g.rules.filter fun r => r.lhs == n).map fun r => r.rhs.length).sum := by
  unfold openers
  induction g.rules.filter (·.lhs == n) with
  | nil => exact Nat.le_refl _
  | cons r rest ih =>
    rw [List.map_cons, List.sum_cons, List.filterMap_cons]
    split
    · omega
    · rename_i m hm
      have hpos : 0 < r.rhs.length := by
        apply List.length_pos_iff.mpr
        intro hnil
        rw [hnil] at hm
        cases hm
      rw [List.length_cons]
      omega

/-- The nonterminals expected are those behind the marks, and those that begin their rules. -/
theorem expected_complete (g : Grammar T N P) (kernel : State) :
    (∀ item ∈ kernel, ∀ n, g.nextSymbol item = some (.nonterminal n) → n ∈ g.expected kernel) ∧
      ∀ n ∈ g.expected kernel, ∀ m ∈ g.openers n, m ∈ g.expected kernel := by
  have hbound : ∀ l : List N, l.Nodup → (∀ a ∈ l, True) → degree g.openers l ≤ g.size := by
    intro l hnodup _
    refine degree_le_size (fun m n => n == m) hnodup ?_ fun n => length_openers_le n
    intro n a b ha hb
    exact (beq_iff_eq.mp ha).symm.trans (beq_iff_eq.mp hb)
  have hfuel := Nat.add_le_add_right (List.length_filterMap_le
    (fun item => (g.nextSymbol item).bind Symbol.nonterminal?) kernel) g.size
  obtain ⟨hseeds, hclosed⟩ := reach_complete (P := fun _ => True) (fun _ _ => trivial)
    (fun _ _ _ _ => trivial) hbound hfuel
  refine ⟨?_, hclosed⟩
  intro item hitem n hn
  apply hseeds
  refine List.mem_filterMap.mpr ⟨item, hitem, ?_⟩
  rw [hn]
  rfl

theorem mem_closure_of_kernel {kernel : State} {item : Item} (h : item ∈ kernel)
    (hrule : item.rule = 0 ∨ ∃ i r, item.rule = i + 1 ∧ g.rules[i]? = some r) :
    item ∈ g.closure kernel := by
  unfold closure
  dsimp only
  rcases hrule with hzero | ⟨i, r, hi, hr⟩
  · exact List.mem_append_left _ (List.mem_filter.mpr ⟨h, by rw [hzero]; rfl⟩)
  · refine List.mem_append_right _ (List.mem_flatMap.mpr ⟨(r, i + 1), ?_, ?_⟩)
    · exact List.mem_zipIdx_iff_le_and_getElem?_sub.mpr ⟨Nat.le_add_left 1 i, hr⟩
    · exact List.mem_append_right _ (List.mem_filter.mpr ⟨h, beq_iff_eq.mpr hi⟩)

theorem start_mem_initialState (g : Grammar T N P) : (⟨0, 0⟩ : Item) ∈ g.initialState :=
  mem_closure_of_kernel (List.mem_singleton.mpr rfl) (.inl rfl)

theorem mem_closure_of_expected {kernel : State} {i : Nat} {r : Rule T N P}
    (hr : g.rules[i]? = some r) (h : r.lhs ∈ g.expected kernel) :
    (⟨i + 1, 0⟩ : Item) ∈ g.closure kernel := by
  unfold closure
  dsimp only
  refine List.mem_append_right _ (List.mem_flatMap.mpr ⟨(r, i + 1), ?_, ?_⟩)
  · exact List.mem_zipIdx_iff_le_and_getElem?_sub.mpr ⟨Nat.le_add_left 1 i, hr⟩
  · dsimp only
    rw [if_pos h]
    exact List.mem_append_left _ (List.mem_singleton.mpr rfl)

theorem mem_closure {kernel : State} {item : Item} (h : item ∈ g.closure kernel) :
    item ∈ kernel ∨ ∃ i r, g.rules[i]? = some r ∧ r.lhs ∈ g.expected kernel ∧
      item = ⟨i + 1, 0⟩ := by
  unfold closure at h
  dsimp only at h
  rcases List.mem_append.mp h with h | h
  · exact .inl (List.mem_filter.mp h).1
  · obtain ⟨⟨r, k⟩, hp, h⟩ := List.mem_flatMap.mp h
    obtain ⟨hk, hr⟩ := List.mem_zipIdx_iff_le_and_getElem?_sub.mp hp
    dsimp only at h hk hr
    rcases List.mem_append.mp h with h | h
    · split at h
      · rename_i hlhs
        rw [List.mem_singleton.mp h]
        exact .inr ⟨k - 1, r, hr, hlhs, by rw [Nat.sub_add_cancel hk]⟩
      · exact absurd h List.not_mem_nil
    · exact .inl (List.mem_filter.mp h).1

/-- Behind a mark before a nonterminal stand its rules. -/
def Closed (g : Grammar T N P) (s : State) : Prop :=
  ∀ item ∈ s, ∀ n, g.nextSymbol item = some (.nonterminal n) →
    ∀ i r, g.rules[i]? = some r → r.lhs = n → (⟨i + 1, 0⟩ : Item) ∈ s

theorem closed_closure (g : Grammar T N P) (kernel : State) : g.Closed (g.closure kernel) := by
  obtain ⟨hkernel, hopeners⟩ := expected_complete g kernel
  intro item hitem n hn i r hr hlhs
  refine mem_closure_of_expected hr (hlhs ▸ ?_)
  rcases mem_closure hitem with hmem | ⟨j, q, hq, hexp, rfl⟩
  · exact hkernel item hmem n hn
  · refine hopeners q.lhs hexp n ?_
    refine List.mem_filterMap.mpr ⟨q, List.mem_filter.mpr ⟨?_, beq_self_eq_true _⟩, ?_⟩
    · exact List.mem_of_getElem? hq
    · unfold nextSymbol at hn
      rw [rhsOf_succ hq, ← List.head?_eq_getElem?] at hn
      rw [hn]
      rfl

theorem sublist_items_of_kernel {kernel : State} (h : g.Kernel kernel) :
    (g.closure kernel).Sublist g.items := by
  unfold closure items
  dsimp only
  apply h.above.append
  apply List.Sublist.flatMap_right
  rintro ⟨r, k⟩ hp
  obtain ⟨hk, hr⟩ := List.mem_zipIdx_iff_le_and_getElem?_sub.mp hp
  dsimp only at hk hr ⊢
  have hmoved := h.moved _ r hr
  rw [Nat.sub_add_cancel hk] at hmoved
  unfold itemsOf
  rw [List.range_succ_eq_map, List.map_cons, List.map_map]
  split
  · exact hmoved.cons_cons _
  · exact hmoved.cons _

/-! ## States -/

variable [DecidableEq T]

theorem mem_goto {s : State} {item : Item} {x : Symbol T N} (h : item ∈ s)
    (hx : g.nextSymbol item = some x) : (⟨item.rule, item.dot + 1⟩ : Item) ∈ g.goto s x := by
  have hrule := rule_of_nextSymbol hx
  unfold goto
  refine mem_closure_of_kernel ?_ hrule
  unfold advance
  exact List.mem_map.mpr ⟨item, List.mem_filter.mpr ⟨h, by rw [hx]; exact beq_self_eq_true _⟩, rfl⟩

theorem mem_nextSymbols {s : State} {x : Symbol T N} :
    x ∈ g.nextSymbols s ↔ ∃ item ∈ s, g.nextSymbol item = some x := by
  unfold nextSymbols
  rw [List.mem_eraseDups, List.mem_filterMap]

theorem kernel_advance {s : State} (hs : s.Sublist g.items) (x : Symbol T N) :
    g.Kernel (g.advance s x) := by
  have hadvance : ∀ k : Nat, (g.advance s x).filter (·.rule == k) =
      ((s.filter (·.rule == k)).filter fun item => g.nextSymbol item == some x).map
        fun item => ⟨item.rule, item.dot + 1⟩ := by
    intro k
    unfold advance
    rw [List.filter_map, List.filter_filter, List.filter_filter]
    congr 2
    funext item
    rw [Function.comp_apply, Bool.and_comm]
  refine ⟨?_, fun i r hr => ?_⟩
  · have hsub := ((hs.filter (·.rule == 0)).filter fun item => g.nextSymbol item == some x).map
      fun item => (⟨item.rule, item.dot + 1⟩ : Item)
    rw [filter_rule_zero_items] at hsub
    rw [hadvance]
    refine hsub.trans ?_
    -- Only the mark before the start symbol can move.
    have hlast : (g.nextSymbol ⟨0, 1⟩ == some x) = false := rfl
    rw [List.filter_cons, List.filter_cons, hlast]
    split
    · exact List.Sublist.cons _ (List.Sublist.refl _)
    · exact List.nil_sublist _
  · have hsub := ((hs.filter (·.rule == i + 1)).filter fun item => g.nextSymbol item == some x).map
      fun item => (⟨item.rule, item.dot + 1⟩ : Item)
    rw [filter_rule_items hr, itemsOf_eq, List.filter_append] at hsub
    have hlast : (g.nextSymbol ⟨i + 1, r.rhs.length⟩ == some x) = false := by
      unfold nextSymbol
      rw [rhsOf_succ hr, List.getElem?_eq_none (Nat.le_refl _)]
      rfl
    rw [List.filter_cons, hlast] at hsub
    rw [hadvance]
    refine hsub.trans ?_
    rw [if_neg Bool.false_ne_true, List.filter_nil, List.append_nil]
    refine (List.filter_sublist.map _).trans ?_
    rw [List.map_map]
    exact List.Sublist.refl _

theorem goto_sublist_items {s : State} (hs : s.Sublist g.items) (x : Symbol T N) :
    (g.goto s x).Sublist g.items :=
  sublist_items_of_kernel (kernel_advance hs x)

theorem length_successors_le {s : State} (hs : s.Sublist g.items) :
    (g.successors s).length ≤ g.itemCount := by
  unfold successors nextSymbols
  rw [List.length_map, ← length_items]
  exact (length_eraseDups_le _).trans ((List.length_filterMap_le _ _).trans hs.length_le)

theorem states_complete (g : Grammar T N P) : (∀ s ∈ [g.initialState], s ∈ g.states) ∧
    ∀ s ∈ g.states, ∀ t ∈ g.successors s, t ∈ g.states := by
  have hbound : ∀ l : List State, l.Nodup → (∀ s ∈ l, s.Sublist g.items) →
      degree g.successors l ≤ Nat.pow 2 g.itemCount * g.itemCount := by
    intro l hnodup hl
    have hcount : l.length ≤ Nat.pow 2 g.itemCount := by
      rw [← length_items]
      show l.length ≤ 2 ^ g.items.length
      rw [← List.length_sublists]
      exact (List.subperm_of_subset hnodup fun s hs => List.mem_sublists.mpr (hl s hs)).length_le
    have hsum : degree g.successors l ≤ l.length * g.itemCount := by
      have hle := List.sum_le_card_nsmul (l.map fun s => (g.successors s).length) g.itemCount
        (List.forall_mem_map.mpr fun s hs => length_successors_le (hl s hs))
      rw [List.length_map] at hle
      exact hle
    exact hsum.trans (Nat.mul_le_mul_right _ hcount)
  refine reach_complete (P := fun s => s.Sublist g.items) ?_ ?_ hbound (Nat.le_refl _)
  · intro s hs
    rw [List.mem_singleton.mp hs]
    exact sublist_items_of_kernel (kernel_start g)
  · intro s hs t ht
    obtain ⟨x, -, rfl⟩ := List.mem_map.mp ht
    exact goto_sublist_items hs x

theorem initialState_mem_states (g : Grammar T N P) : g.initialState ∈ g.states :=
  (states_complete g).1 _ (List.mem_singleton.mpr rfl)

/-- The state before the first token has the number zero. -/
theorem idxOf_initialState (g : Grammar T N P) : g.states.idxOf g.initialState = 0 := by
  have hpre : [g.initialState] <+: g.states := by
    unfold states reach
    rw [Nat.add_comm 1]
    exact reachFrom_prefix _ _ _ _
  obtain ⟨rest, hrest⟩ := hpre
  rw [← hrest]
  exact List.idxOf_cons_self

theorem goto_mem_states {s : State} (hs : s ∈ g.states) {item : Item} (h : item ∈ s)
    {x : Symbol T N} (hx : g.nextSymbol item = some x) : g.goto s x ∈ g.states :=
  (states_complete g).2 s hs _
    (List.mem_map.mpr ⟨x, mem_nextSymbols.mpr ⟨item, h, hx⟩, rfl⟩)

theorem Closed.of_mem_states {s : State} (hs : s ∈ g.states) : g.Closed s := by
  refine forall_mem_reachFrom (Q := g.Closed) ?_ ?_ ?_ s hs
  · intro a _ b hb
    obtain ⟨x, -, rfl⟩ := List.mem_map.mp hb
    exact closed_closure g _
  · exact fun a ha => absurd ha List.not_mem_nil
  · intro a ha
    rw [List.mem_singleton.mp ha]
    exact closed_closure g _

end Grammar

end SchemaBridge
