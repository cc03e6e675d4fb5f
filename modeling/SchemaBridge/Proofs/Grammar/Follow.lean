/-
  What a derivation tree shows, the sets of the grammar know: the root of a tree without leaves
  vanishes, the first leaf of a tree is among the first terminals of its root, and what comes
  behind a subtree is among the lookaheads of its root.
  Main results: `vanishes_of_leaves_eq_nil`, `mem_firstOf_of_leaves` and `mem_follow_of_forest`.
-/
import SchemaBridge.Grammar.Follow
import SchemaBridge.Grammar.Tree
import SchemaBridge.Proofs.Grammar.Reach
import Mathlib.Algebra.Order.BigOperators.Group.List
import Mathlib.Algebra.Order.Group.Nat
import Mathlib.Data.Finset.Card

namespace SchemaBridge

/-! ## Trees -/

/-- To prove something of all trees, prove it of a node whose children have it. -/
theorem Tree.induct {T N P : Type} {motive : Tree T N P → Prop}
    (leaf : ∀ token, motive (.leaf token))
    (node : ∀ rule children, (∀ c ∈ children, motive c) → motive (.node rule children)) :
    ∀ t, motive t
  | .leaf token => leaf token
  | .node rule children => node rule children fun c _ => Tree.induct leaf node c

/-! ## Counting edges -/

theorem sum_map_ite_le {α : Type} {l : List α} {p : α → Bool} (k : Nat) (hnodup : l.Nodup)
    (hp : ∀ a b, p a = true → p b = true → a = b) :
    (l.map fun a => if p a then k else 0).sum ≤ k := by
  induction l with
  | nil => exact Nat.zero_le k
  | cons a rest ih =>
    rw [List.nodup_cons] at hnodup
    rw [List.map_cons, List.sum_cons]
    cases ha : p a with
    | false => simpa using ih hnodup.2
    | true =>
      have hnone : ∀ n ∈ rest.map (fun b => if p b then k else 0), n = 0 := by
        intro n hn
        obtain ⟨b, hb, rfl⟩ := List.mem_map.mp hn
        rw [if_neg]
        intro hpb
        exact hnodup.1 (hp a b ha hpb ▸ hb)
      rw [if_pos rfl, List.sum_eq_zero hnone]
      exact Nat.le_refl k

/-- Shares of distinct owners do not add up to more than there is. -/
theorem sum_filter_le {α β : Type} {l : List α} (items : List β) (w : β → Nat) (p : α → β → Bool)
    (hnodup : l.Nodup) (hp : ∀ i a b, p a i = true → p b i = true → a = b) :
    (l.map fun a => ((items.filter (p a)).map w).sum).sum ≤ (items.map w).sum := by
  induction items with
  | nil => simp
  | cons i rest ih =>
    have hsplit : (l.map fun a => (((i :: rest).filter (p a)).map w).sum) =
        l.map fun a => (if p a i then w i else 0) + ((rest.filter (p a)).map w).sum := by
      apply List.map_congr_left
      intro a _
      rw [List.filter_cons]
      split <;> simp
    have hone := sum_map_ite_le (w i) hnodup (hp i)
    rw [hsplit, List.sum_map_add, List.map_cons, List.sum_cons]
    omega

namespace Grammar

variable {T N P : Type} {g : Grammar T N P}

theorem size_eq : g.size = (g.rules.map fun r => r.rhs.length).sum := by
  unfold size
  rw [List.length_flatMap]

/-- Edges that go from the head of a rule into its right-hand side are no more than the symbols
there. -/
theorem degree_le_size {α : Type} {next : α → List α} {l : List α} (p : α → N → Bool)
    (hnodup : l.Nodup) (hp : ∀ n a b, p a n = true → p b n = true → a = b)
    (hnext : ∀ a, (next a).length ≤
      ((g.rules.filter fun r => p a r.lhs).map fun r => r.rhs.length).sum) :
    degree next l ≤ g.size := by
  have hle : degree next l ≤
      (l.map fun a => ((g.rules.filter fun r => p a r.lhs).map fun r => r.rhs.length).sum).sum :=
    List.sum_le_sum fun a _ => hnext a
  rw [size_eq]
  exact hle.trans (sum_filter_le g.rules _ (fun a r => p a r.lhs) hnodup fun r => hp r.lhs)

variable [DecidableEq N]

/-! ## Vanishing symbols -/

theorem vanishes_mono {a b : List N} (h : a ⊆ b) {x : Symbol T N} (hx : vanishes a x = true) :
    vanishes b x = true := by
  cases x with
  | terminal t => exact hx
  | nonterminal n =>
    unfold vanishes at hx ⊢
    rw [decide_eq_true_eq] at hx ⊢
    exact h hx

theorem mem_nullableUpTo_succ {height : Nat} {n : N} : n ∈ g.nullableUpTo (height + 1) ↔
    ∃ r ∈ g.rules, (∀ x ∈ r.rhs, vanishes (g.nullableUpTo height) x = true) ∧ r.lhs = n := by
  rw [nullableUpTo, List.mem_map]
  constructor
  · rintro ⟨r, hr, rfl⟩
    obtain ⟨hr, hall⟩ := List.mem_filter.mp hr
    exact ⟨r, hr, List.all_eq_true.mp hall, rfl⟩
  · rintro ⟨r, hr, hall, rfl⟩
    exact ⟨r, List.mem_filter.mpr ⟨hr, List.all_eq_true.mpr hall⟩, rfl⟩

theorem nullableUpTo_succ_subset {a b : Nat} (h : g.nullableUpTo a ⊆ g.nullableUpTo b) :
    g.nullableUpTo (a + 1) ⊆ g.nullableUpTo (b + 1) := by
  intro n hn
  obtain ⟨r, hr, hall, rfl⟩ := mem_nullableUpTo_succ.mp hn
  exact mem_nullableUpTo_succ.mpr ⟨r, hr, fun x hx => vanishes_mono h (hall x hx), rfl⟩

theorem nullableUpTo_subset (height : Nat) :
    g.nullableUpTo height ⊆ g.nullableUpTo (height + 1) := by
  induction height with
  | zero => exact List.nil_subset _
  | succ height ih => exact nullableUpTo_succ_subset ih

/-- As long as the heights bring something new, there is one more with each height. -/
theorem nullableUpTo_grows (height : Nat) :
    g.nullableUpTo (height + 1) ⊆ g.nullableUpTo height ∨
      height + 1 ≤ (g.nullableUpTo (height + 1)).toFinset.card := by
  by_cases hsub : g.nullableUpTo (height + 1) ⊆ g.nullableUpTo height
  · exact .inl hsub
  refine .inr ?_
  have hlt : (g.nullableUpTo height).toFinset.card <
      (g.nullableUpTo (height + 1)).toFinset.card := by
    apply Finset.card_lt_card
    refine ⟨?_, fun hback => hsub ?_⟩
    · intro n hn
      exact List.mem_toFinset.mpr (nullableUpTo_subset height (List.mem_toFinset.mp hn))
    · intro n hn
      exact List.mem_toFinset.mp (hback (List.mem_toFinset.mpr hn))
  cases height with
  | zero => omega
  | succ height =>
    rcases nullableUpTo_grows height with hs | hc
    · exact absurd (nullableUpTo_succ_subset hs) hsub
    · omega

/-- Nothing vanishes that is not known to. -/
theorem mem_nullable {r : Rule T N P} (hr : r ∈ g.rules)
    (hall : ∀ x ∈ r.rhs, vanishes g.nullable x = true) : r.lhs ∈ g.nullable := by
  have hmem : r.lhs ∈ g.nullableUpTo (g.rules.length + 1) :=
    mem_nullableUpTo_succ.mpr ⟨r, hr, hall, rfl⟩
  rcases nullableUpTo_grows (g := g) g.rules.length with hs | hc
  · exact hs hmem
  · have hle : (g.nullableUpTo (g.rules.length + 1)).toFinset.card ≤ g.rules.length := by
      refine (List.toFinset_card_le _).trans ?_
      unfold nullableUpTo
      rw [List.length_map]
      exact List.length_filter_le _ _
    omega

theorem all_vanish_of_leavesOf_eq_nil {ts : List (Tree T N P)}
    (h : ∀ t ∈ ts, t.leaves = [] → vanishes g.nullable t.root = true)
    (hleaves : Tree.leavesOf ts = []) : ∀ x ∈ ts.map Tree.root, vanishes g.nullable x = true := by
  induction ts with
  | nil => exact fun x hx => absurd hx List.not_mem_nil
  | cons t rest ih =>
    rw [Tree.leavesOf, List.append_eq_nil_iff] at hleaves
    rw [List.map_cons, List.forall_mem_cons]
    refine ⟨h t List.mem_cons_self hleaves.1, ?_⟩
    exact ih (fun u hu => h u (List.mem_cons_of_mem _ hu)) hleaves.2

theorem vanishes_of_leaves_eq_nil (t : Tree T N P) :
    t.Valid g.rules → t.leaves = [] → vanishes g.nullable t.root = true := by
  induction t using Tree.induct with
  | leaf token => exact fun _ h => absurd h (List.cons_ne_nil _ _)
  | node rule children ih =>
    intro hvalid hleaves
    obtain ⟨hrule, hroots, hall⟩ := hvalid
    rw [Tree.validAll_iff] at hall
    have hvanish := all_vanish_of_leavesOf_eq_nil (fun c hc => ih c hc (hall c hc)) hleaves
    rw [hroots] at hvanish
    exact decide_eq_true (mem_nullable hrule hvanish)

/-! ## First terminals -/

theorem length_leading_le (empty : List N) (xs : List (Symbol T N)) :
    (leading empty xs).length ≤ xs.length := by
  induction xs with
  | nil => exact Nat.le_refl _
  | cons x rest ih =>
    unfold leading
    split
    · exact Nat.succ_le_succ ih
    · exact Nat.succ_le_succ (Nat.zero_le _)

theorem length_flatMap_le {α β : Type} {l : List α} {f : α → List β} {w : α → Nat}
    (h : ∀ a ∈ l, (f a).length ≤ w a) : (l.flatMap f).length ≤ (l.map w).sum := by
  rw [List.length_flatMap]
  exact List.sum_le_sum h

/-- The first tree of a forest with a leaf leads it: those before vanish. -/
theorem exists_leading {ts : List (Tree T N P)} (hvalid : ∀ t ∈ ts, t.Valid g.rules)
    {token : Token T} {after : List (Token T)} (hleaves : Tree.leavesOf ts = token :: after) :
    ∃ t ∈ ts, t.root ∈ leading g.nullable (ts.map Tree.root) ∧
      ∃ more, t.leaves = token :: more := by
  induction ts with
  | nil => cases hleaves
  | cons t rest ih =>
    rw [Tree.leavesOf] at hleaves
    rw [List.map_cons, leading]
    cases ht : t.leaves with
    | cons first more =>
      rw [ht, List.cons_append, List.cons.injEq] at hleaves
      exact ⟨t, List.mem_cons_self, List.mem_cons_self, more, by rw [ht, hleaves.1]⟩
    | nil =>
      have hvanish := vanishes_of_leaves_eq_nil t (hvalid t List.mem_cons_self) ht
      rw [ht, List.nil_append] at hleaves
      obtain ⟨u, hu, hlead, hmore⟩ := ih (fun u hu => hvalid u (List.mem_cons_of_mem _ hu)) hleaves
      rw [if_pos hvanish]
      exact ⟨u, List.mem_cons_of_mem _ hu, List.mem_cons_of_mem _ hlead, hmore⟩

/-- From the root of a tree, corners lead down to its first leaf. -/
theorem corners_to_leaf (t : Tree T N P) : t.Valid g.rules → ∀ token after,
    t.leaves = token :: after →
      Relation.ReflTransGen (Edge (g.corners g.nullable)) t.root (.terminal token.kind) := by
  induction t using Tree.induct with
  | leaf leaf =>
    intro _ token after hleaves
    rw [Tree.leaves, List.cons.injEq] at hleaves
    rw [← hleaves.1]
    exact .refl
  | node rule children ih =>
    intro hvalid token after hleaves
    obtain ⟨hrule, hroots, hall⟩ := hvalid
    rw [Tree.validAll_iff] at hall
    obtain ⟨c, hc, hlead, more, hmore⟩ := exists_leading hall hleaves
    rw [hroots] at hlead
    refine .head ?_ (ih c hc (hall c hc) token more hmore)
    exact List.mem_flatMap.mpr ⟨rule, List.mem_filter.mpr ⟨hrule, beq_self_eq_true _⟩, hlead⟩

variable [DecidableEq T]

theorem mem_firstOf_iff {empty : List N} {symbols : List (Symbol T N)} {t : T} :
    t ∈ g.firstOf empty symbols ↔ ∃ x ∈ leading empty symbols,
      Relation.ReflTransGen (Edge (g.corners empty)) x (.terminal t) := by
  have hbound : ∀ l : List (Symbol T N), l.Nodup → (∀ a ∈ l, True) →
      degree (g.corners empty) l ≤ g.size := by
    intro l hnodup _
    refine degree_le_size (fun x n => x == .nonterminal n) hnodup ?_ ?_
    · intro n a b ha hb
      exact (beq_iff_eq.mp ha).trans (beq_iff_eq.mp hb).symm
    · intro x
      cases x with
      | terminal t => exact Nat.zero_le _
      | nonterminal n =>
        refine (length_flatMap_le fun r _ => length_leading_le empty r.rhs).trans ?_
        apply le_of_eq
        congr 2
        apply List.filter_congr
        intro r _
        rw [Bool.eq_iff_iff, beq_iff_eq, beq_iff_eq, Symbol.nonterminal.injEq]
        exact eq_comm
  have hfuel : (leading empty symbols).length + g.size ≤ symbols.length + g.size :=
    Nat.add_le_add_right (length_leading_le empty symbols) _
  have hreach := mem_reach_iff (P := fun _ => True) (x := Symbol.terminal t) (fun _ _ => trivial)
    (fun _ _ _ _ => trivial) hbound hfuel
  unfold firstOf
  rw [List.mem_filterMap, ← hreach]
  constructor
  · rintro ⟨x, hx, hterm⟩
    cases x with
    | terminal u =>
      cases hterm
      exact hx
    | nonterminal n => cases hterm
  · intro hx
    exact ⟨_, hx, rfl⟩

/-- A forest begins with one of the first terminals of its roots. -/
theorem mem_firstOf_of_leaves {ts : List (Tree T N P)} (hvalid : ∀ t ∈ ts, t.Valid g.rules)
    {token : Token T} {after : List (Token T)} (hleaves : Tree.leavesOf ts = token :: after) :
    token.kind ∈ g.firstOf g.nullable (ts.map Tree.root) := by
  obtain ⟨t, ht, hlead, more, hmore⟩ := exists_leading hvalid hleaves
  exact mem_firstOf_iff.mpr ⟨t.root, hlead, corners_to_leaf t (hvalid t ht) token more hmore⟩

/-! ## Lookaheads -/

theorem mem_rests {n : N} {xs rest : List (Symbol T N)} :
    rest ∈ rests n xs ↔ ∃ before, xs = before ++ .nonterminal n :: rest := by
  induction xs with
  | nil => simp [rests]
  | cons x more ih =>
    unfold rests
    split
    · rename_i hx
      subst hx
      rw [List.mem_cons, ih]
      constructor
      · rintro (rfl | ⟨before, rfl⟩)
        · exact ⟨[], rfl⟩
        · exact ⟨.nonterminal n :: before, rfl⟩
      · rintro ⟨before, hsplit⟩
        cases before with
        | nil => exact .inl (List.cons.inj hsplit).2.symm
        | cons b before => exact .inr ⟨before, (List.cons.inj hsplit).2⟩
    · rename_i hx
      rw [ih]
      constructor
      · rintro ⟨before, rfl⟩
        exact ⟨x :: before, rfl⟩
      · rintro ⟨before, hsplit⟩
        cases before with
        | nil => exact absurd (List.cons.inj hsplit).1 hx
        | cons b before => exact ⟨before, (List.cons.inj hsplit).2⟩

theorem length_rests (n : N) (xs : List (Symbol T N)) :
    (rests n xs).length = (xs.filter fun x => x == .nonterminal n).length := by
  induction xs with
  | nil => rfl
  | cons x rest ih =>
    unfold rests
    rw [List.filter_cons]
    by_cases hx : x = .nonterminal n
    · rw [if_pos hx, if_pos (beq_iff_eq.mpr hx), List.length_cons, List.length_cons, ih]
    · rw [if_neg hx, if_neg (fun h => hx (beq_iff_eq.mp h)), ih]

theorem length_endedBy_le (empty : List N) (n : N) : (g.endedBy empty n).length ≤
    ((g.rules.flatMap fun r => r.rhs).filter fun x => x == .nonterminal n).length := by
  unfold endedBy
  rw [List.filter_flatMap, List.length_flatMap, List.length_flatMap]
  apply List.sum_le_sum
  intro r _
  rw [List.length_map, ← length_rests]
  exact List.length_filter_le _ _

theorem mem_enders_iff {empty : List N} {n m : N} :
    m ∈ g.enders empty n ↔ Relation.ReflTransGen (Edge (g.endedBy empty)) n m := by
  have hbound : ∀ l : List N, l.Nodup → (∀ a ∈ l, True) → degree (g.endedBy empty) l ≤ g.size := by
    intro l hnodup _
    have hle : degree (g.endedBy empty) l ≤ (l.map fun a =>
        (((g.rules.flatMap fun r => r.rhs).filter fun x => x == .nonterminal a).map
          fun _ => 1).sum).sum := by
      apply List.sum_le_sum
      intro a _
      rw [List.map_const', List.sum_replicate_nat, Nat.mul_one]
      exact length_endedBy_le empty a
    refine hle.trans ((sum_filter_le _ _ (fun a x => x == Symbol.nonterminal a) hnodup ?_).trans ?_)
    · intro x a b ha hb
      exact Symbol.nonterminal.inj ((beq_iff_eq.mp ha).symm.trans (beq_iff_eq.mp hb))
    · rw [List.map_const', List.sum_replicate_nat, Nat.mul_one]
      exact Nat.le_refl _
  have hreach : m ∈ reach (g.endedBy empty) (1 + g.size) [n] ↔
      ∃ a ∈ [n], Relation.ReflTransGen (Edge (g.endedBy empty)) a m :=
    mem_reach_iff (P := fun _ => True) (fun _ _ => trivial) (fun _ _ _ _ => trivial) hbound
      (Nat.le_refl (1 + g.size))
  unfold enders
  rw [hreach]
  simp

/-- What follows a whole follows each part that can end it. -/
theorem follow_subset_of_endedBy {n m : N} (h : m ∈ g.endedBy g.nullable n) :
    g.follow m ⊆ g.follow n := by
  have henders : g.enders g.nullable m ⊆ g.enders g.nullable n := by
    intro k hk
    exact mem_enders_iff.mpr (.head h (mem_enders_iff.mp hk))
  intro t ht
  unfold follow followWith at ht ⊢
  dsimp only at ht ⊢
  rw [List.mem_append] at ht ⊢
  rcases ht with ht | ht
  · split at ht
    · rename_i hstart
      rw [if_pos (henders hstart)]
      exact .inl ht
    · exact absurd ht List.not_mem_nil
  · obtain ⟨u, hu, rfl⟩ := List.mem_map.mp ht
    obtain ⟨k, hk, hu⟩ := List.mem_flatMap.mp hu
    exact .inr (List.mem_map.mpr ⟨u, List.mem_flatMap.mpr ⟨k, henders hk, hu⟩, rfl⟩)

/-- The end of the input follows the start symbol. -/
theorem none_mem_follow_start : none ∈ g.follow g.start := by
  unfold follow followWith
  dsimp only
  rw [if_pos (mem_enders_iff.mpr .refl)]
  exact List.mem_append_left _ (List.mem_singleton.mpr rfl)

/-- What can begin the rest of a rule follows the nonterminal before it. -/
theorem mem_follow_of_rests {r : Rule T N P} (hr : r ∈ g.rules) {n : N} {rest : List (Symbol T N)}
    (hrest : rest ∈ rests n r.rhs) {t : T} (ht : t ∈ g.firstOf g.nullable rest) :
    some t ∈ g.follow n := by
  unfold follow followWith
  dsimp only
  refine List.mem_append_right _ (List.mem_map.mpr ⟨t, List.mem_flatMap.mpr ⟨n, ?_, ?_⟩, rfl⟩)
  · exact mem_enders_iff.mpr .refl
  · unfold followers
    exact List.mem_flatMap.mpr ⟨r, hr, List.mem_flatMap.mpr ⟨rest, hrest, ht⟩⟩

/-- What stands behind a subtree of a rule follows its root: the first leaf of the trees beside it,
or else what follows the rule. -/
theorem mem_follow_of_forest {r : Rule T N P} (hr : r ∈ g.rules) {n : N}
    {before : List (Symbol T N)} {ts : List (Tree T N P)} (hvalid : ∀ t ∈ ts, t.Valid g.rules)
    (hrhs : r.rhs = before ++ .nonterminal n :: ts.map Tree.root) {input : List (Token T)}
    (hinput : input.head?.map Token.kind ∈ g.follow r.lhs) :
    (Tree.leavesOf ts ++ input).head?.map Token.kind ∈ g.follow n := by
  have hrest : ts.map Tree.root ∈ rests n r.rhs := mem_rests.mpr ⟨before, hrhs⟩
  cases hleaves : Tree.leavesOf ts with
  | cons token after =>
    exact mem_follow_of_rests hr hrest (mem_firstOf_of_leaves hvalid hleaves)
  | nil =>
    have hvanish := all_vanish_of_leavesOf_eq_nil
      (fun t ht => vanishes_of_leaves_eq_nil t (hvalid t ht)) hleaves
    rw [List.nil_append]
    refine follow_subset_of_endedBy ?_ hinput
    unfold endedBy
    refine List.mem_flatMap.mpr ⟨r, hr, List.mem_map.mpr ⟨ts.map Tree.root, ?_, rfl⟩⟩
    exact List.mem_filter.mpr ⟨hrest, List.all_eq_true.mpr hvanish⟩

end Grammar

end SchemaBridge
