/-
  What levels of operators come to. A tree over operands and operators is grouped as the levels say
  if at every node the operators on both sides bind tighter, or associate with the one between them.
  Operators of one level without associativity clash if nothing looser stands between them. No
  operator in a grouped tree is looser than the one at its root, so that there is only one such tree
  over its leaves.
  Main results: `clashes_concat` and `OfOperators.eq_of_leaves_eq`.
-/
import SchemaBridge.Proofs.Grammar.Operators

namespace SchemaBridge

variable {T N P : Type}

/-- The operator between the two parts of a tree. -/
def Tree.operator? : Tree T N P → Option T
  | .node _ [_, .leaf o, _] => some o.kind
  | _ => none

namespace Grammar

/-! ## Grouping -/

/-- At every node, the operator of the left part binds tighter, or is of the same level and this
level groups from the left; and the operator of the right part binds tighter, or is of the same
level and this level groups from the right. -/
inductive Grouped (g : Grammar T N P) : Tree T N P → Prop
  | single {rule : Rule T N P} {token : Token T} : Grouped g (.node rule [.leaf token])
  | binary {rule : Rule T N P} {l r : Tree T N P} {o : Token T} (hl : Grouped g l)
      (hr : Grouped g r) (hleft : ∀ p ∈ l.operator?, g.FitsLeft p o.kind)
      (hright : ∀ p ∈ r.operator?, g.FitsRight p o.kind) :
      Grouped g (.node rule [l, .leaf o, r])

/-- An operator does not associate with one before it: both are of one level without associativity,
and all operators between them bind tighter. -/
def Clashes (g : Grammar T N P) (before : List T) (op : T) : Prop :=
  ∃ front p between, before = front ++ p :: between ∧ g.Peers .nonassoc p op ∧
    ∀ q ∈ between, g.Tighter q op

/-- Each operator associates with those before it. -/
def ClashFree (g : Grammar T N P) (ops : List (Token T)) : Prop :=
  ∀ before o after, ops = before ++ o :: after → ¬g.Clashes (before.map Token.kind) o.kind

/-- It is the first operator that does not associate with one before it. -/
def FirstClash (g : Grammar T N P) (ops : List (Token T)) (o : Token T) : Prop :=
  ∃ before after, ops = before ++ o :: after ∧ g.ClashFree before ∧
    g.Clashes (before.map Token.kind) o.kind

variable {g : Grammar T N P} {tag : T → P} {operand : T} {operators : List T}

theorem not_clashes_nil (op : T) : ¬g.Clashes [] op := by
  rintro ⟨front, p, between, hsplit, -, -⟩
  simp at hsplit

/-- Whether an operator clashes is seen by going back from it. -/
theorem clashes_concat {before : List T} {q op : T} : g.Clashes (before ++ [q]) op ↔
    g.Peers .nonassoc q op ∨ (g.Tighter q op ∧ g.Clashes before op) := by
  constructor
  · rintro ⟨front, p, between, hsplit, hpeers, htighter⟩
    obtain rfl | ⟨between, k, rfl⟩ := List.eq_nil_or_concat between
    · obtain ⟨-, hq⟩ := List.append_inj' hsplit rfl
      obtain rfl := List.singleton_inj.mp hq
      exact .inl hpeers
    · rw [List.concat_eq_append, ← List.cons_append, ← List.append_assoc] at hsplit
      obtain ⟨hbefore, hq⟩ := List.append_inj' hsplit rfl
      obtain rfl := List.singleton_inj.mp hq
      rw [List.concat_eq_append] at htighter
      refine .inr ⟨htighter q (List.mem_append_right _ (List.mem_singleton.mpr rfl)), front, p,
        between, hbefore, hpeers, fun k hk => htighter k (List.mem_append_left _ hk)⟩
  · rintro (hpeers | ⟨htighter, front, p, between, rfl, hpeers, hbetween⟩)
    · exact ⟨before, q, [], rfl, hpeers, List.forall_mem_nil _⟩
    · refine ⟨front, p, between ++ [q], by simp, hpeers, fun k hk => ?_⟩
      rcases List.mem_append.mp hk with hk | hk
      · exact hbetween k hk
      · rwa [List.mem_singleton.mp hk]

theorem clashes_append_of_tighter {before ks : List T} {op : T} (h : g.Clashes before op)
    (hks : ∀ k ∈ ks, g.Tighter k op) : g.Clashes (before ++ ks) op := by
  induction ks using List.reverseRecOn with
  | nil => rwa [List.append_nil]
  | append_singleton ks k ih =>
    rw [← List.append_assoc, clashes_concat]
    exact .inr ⟨hks k (by simp), ih fun k hk => hks k (List.mem_append_left _ hk)⟩

theorem clashes_of_append {before ks : List T} {op : T} (h : g.Clashes (before ++ ks) op)
    (hks : ∀ k ∈ ks, ¬g.Peers .nonassoc k op) : g.Clashes before op := by
  induction ks using List.reverseRecOn with
  | nil => rwa [List.append_nil] at h
  | append_singleton ks k ih =>
    rw [← List.append_assoc, clashes_concat] at h
    obtain hpeers | ⟨-, h⟩ := h
    · exact absurd hpeers (hks k (by simp))
    · exact ih h fun k hk => hks k (List.mem_append_left _ hk)

theorem clashFree_nil : g.ClashFree [] := by
  intro before o after hsplit
  simp at hsplit

theorem ClashFree.concat {ops : List (Token T)} {o : Token T} (h : g.ClashFree ops)
    (ho : ¬g.Clashes (ops.map Token.kind) o.kind) : g.ClashFree (ops ++ [o]) := by
  intro before p after hsplit
  obtain rfl | ⟨after, k, rfl⟩ := List.eq_nil_or_concat after
  · obtain ⟨rfl, hp⟩ := List.append_inj' hsplit rfl
    obtain rfl := List.singleton_inj.mp hp
    exact ho
  · rw [List.concat_eq_append, ← List.cons_append, ← List.append_assoc] at hsplit
    exact h before p after (List.append_inj' hsplit rfl).1

theorem FirstClash.not_clashFree {ops : List (Token T)} {o : Token T}
    (hclash : g.FirstClash ops o) : ¬g.ClashFree ops := by
  obtain ⟨before, after, rfl, -, hclash⟩ := hclash
  exact fun hfree => hfree before o after rfl hclash

/-! ## Grouped trees -/

theorem Grouped.leaves_ne_nil {t : Tree T N P} (ht : g.Grouped t) : t.leaves ≠ [] := by
  cases ht with
  | single => exact List.cons_ne_nil _ _
  | binary => simp [Tree.leaves, Tree.leavesOf]

theorem leaves_binary (rule : Rule T N P) (l r : Tree T N P) (o : Token T) :
    (Tree.node rule [l, .leaf o, r]).leaves = l.leaves ++ o :: r.leaves := by
  simp [Tree.leaves, Tree.leavesOf]

theorem Grouped.leaves_binary_ne {l : Tree T N P} (hl : g.Grouped l) (rule : Rule T N P)
    (r : Tree T N P) (o token : Token T) :
    (Tree.node rule [l, .leaf o, r]).leaves ≠ [token] := by
  rw [leaves_binary]
  intro hleaves
  have hlength := congrArg List.length hleaves
  have hpos := List.length_pos_iff.mpr hl.leaves_ne_nil
  rw [List.length_append, List.length_cons, List.length_singleton] at hlength
  omega

theorem valid_binary {rule : Rule T N P} {l r : Tree T N P} {o : Token T} :
    (Tree.node rule [l, .leaf o, r]).Valid g.rules ↔
      (rule ∈ g.rules ∧ [l.root, .terminal o.kind, r.root] = rule.rhs) ∧
        l.Valid g.rules ∧ r.Valid g.rules := by
  simp [Tree.Valid, Tree.ValidAll, Tree.root, and_assoc]

namespace OfOperators

variable (h : g.OfOperators tag operand operators)

include h

/-- The rule of a node with two parts is that of the operator between them. -/
theorem eq_binary {rule : Rule T N P} {x y : Symbol T N} {k : T} (hrule : rule ∈ g.rules)
    (hrhs : [x, .terminal k, y] = rule.rhs) : k ∈ operators ∧ rule = g.binary tag k := by
  obtain rfl | ⟨op, hop, rfl⟩ := h.mem_rules.mp hrule
  · simp [Grammar.single] at hrhs
  · simp only [Grammar.binary, List.cons.injEq, Symbol.terminal.injEq, and_true] at hrhs
    obtain ⟨-, rfl, -⟩ := hrhs
    exact ⟨hop, rfl⟩

theorem eq_single {rule : Rule T N P} {x : Symbol T N} (hrule : rule ∈ g.rules)
    (hrhs : [x] = rule.rhs) : x = .terminal operand ∧ rule = g.single tag operand := by
  obtain rfl | ⟨op, -, rfl⟩ := h.mem_rules.mp hrule
  · exact ⟨(List.cons.inj hrhs).1, rfl⟩
  · simp [Grammar.binary] at hrhs

theorem root_eq {t : Tree T N P} (ht : g.Grouped t) (hvalid : t.Valid g.rules) :
    t.root = .nonterminal g.start := by
  cases ht with
  | single => exact congrArg _ (h.lhs_eq hvalid.1)
  | binary => exact congrArg _ (h.lhs_eq hvalid.1)

variable [DecidableEq T]

/-- No operator in a grouped tree is looser than the one at its root. -/
theorem levelOf_le {t : Tree T N P} (ht : g.Grouped t) (hvalid : t.Valid g.rules) {u : Token T}
    (hu : u ∈ t.leaves) (hkind : u.kind ≠ operand) : u.kind ∈ operators ∧
      ∃ p ∈ t.operator?, p ∈ operators ∧ g.levelOf p ≤ g.levelOf u.kind := by
  induction ht with
  | @single rule token =>
    obtain ⟨hrule, hrhs, -⟩ := hvalid
    obtain ⟨htoken, -⟩ := h.eq_single hrule hrhs
    rw [List.mem_singleton.mp hu] at hkind
    exact absurd (Symbol.terminal.inj htoken) hkind
  | @binary rule l r o _ _ hleft hright ihl ihr =>
    obtain ⟨⟨hrule, hrhs⟩, hl, hr⟩ := valid_binary.mp hvalid
    obtain ⟨ho, -⟩ := h.eq_binary hrule hrhs
    rw [leaves_binary, List.mem_append, List.mem_cons] at hu
    refine ⟨?_, o.kind, rfl, ho, ?_⟩
    all_goals rcases hu with hu | rfl | hu
    · exact (ihl hl hu).1
    · exact ho
    · exact (ihr hr hu).1
    · obtain ⟨-, p, hp, hop, hle⟩ := ihl hl hu
      exact (h.levelOf_le_of_fits hop ho (hleft p hp)).trans hle
    · exact Nat.le_refl _
    · obtain ⟨-, p, hp, hop, hle⟩ := ihr hr hu
      exact (h.levelOf_le_of_fits hop ho (hright p hp)).trans hle

/-- Of two operators, not each can stand in the part that the other one groups. -/
theorem not_both_inside {l r : Tree T N P} {o o' : Token T} (hl : g.Grouped l) (hr : g.Grouped r)
    (hvalidl : l.Valid g.rules) (hvalidr : r.Valid g.rules) (ho : o.kind ∈ operators)
    (ho' : o'.kind ∈ operators) (hleft : ∀ p ∈ l.operator?, g.FitsLeft p o'.kind)
    (hright : ∀ p ∈ r.operator?, g.FitsRight p o.kind) (hol : o ∈ l.leaves)
    (hor : o' ∈ r.leaves) : False := by
  have hne : ∀ {k : T}, k ∈ operators → k ≠ operand := fun hk heq => h.operand_not_mem (heq ▸ hk)
  obtain ⟨-, p, hp, hop, hle⟩ := h.levelOf_le hl hvalidl hol (hne ho)
  obtain ⟨-, q, hq, hoq, hle'⟩ := h.levelOf_le hr hvalidr hor (hne ho')
  have hple := h.levelOf_le_of_fits hop ho' (hleft p hp)
  have hqle := h.levelOf_le_of_fits hoq ho (hright q hq)
  rcases hleft p hp with htighter | hpeers
  · have hlt := (h.tighter_iff hop ho').mp htighter
    omega
  rcases hright q hq with htighter | hpeers'
  · have hlt := (h.tighter_iff hoq ho).mp htighter
    omega
  · have hassoc := h.assoc_eq_of_peers hop hoq hpeers hpeers' (by omega)
    cases hassoc

/-- There is one grouped tree over a list of tokens. -/
theorem eq_of_leaves_eq {t : Tree T N P} (ht : g.Grouped t) :
    ∀ {u : Tree T N P}, g.Grouped u → t.Valid g.rules → u.Valid g.rules →
      t.leaves = u.leaves → t = u := by
  induction ht with
  | @single rule token =>
    intro u hu hvalid hvalidu hleaves
    cases hu with
    | @single rule' token' =>
      obtain rfl := List.singleton_inj.mp hleaves
      rw [(h.eq_single hvalid.1 hvalid.2.1).2, (h.eq_single hvalidu.1 hvalidu.2.1).2]
    | binary hl => exact absurd hleaves.symm (hl.leaves_binary_ne _ _ _ token)
  | @binary rule l r o hl hr hleft hright ihl ihr =>
    intro u hu hvalid hvalidu hleaves
    obtain ⟨⟨hrule, hrhs⟩, hvalidl, hvalidr⟩ := valid_binary.mp hvalid
    obtain ⟨ho, hbinary⟩ := h.eq_binary hrule hrhs
    cases hu with
    | @single _ token => exact absurd hleaves (hl.leaves_binary_ne _ _ _ token)
    | @binary rule' l' r' o' hl' hr' hleft' hright' =>
      obtain ⟨⟨hrule', hrhs'⟩, hvalidl', hvalidr'⟩ := valid_binary.mp hvalidu
      obtain ⟨ho', hbinary'⟩ := h.eq_binary hrule' hrhs'
      rw [leaves_binary, leaves_binary, List.append_eq_append_iff] at hleaves
      rcases hleaves with ⟨_ | ⟨x, mid⟩, hl'l, hrr'⟩ | ⟨_ | ⟨x, mid⟩, hll', hr'r⟩
      · rw [List.append_nil] at hl'l
        rw [List.nil_append, List.cons.injEq] at hrr'
        obtain ⟨rfl, hrr'⟩ := hrr'
        rw [ihl hl' hvalidl hvalidl' hl'l.symm, ihr hr' hvalidr hvalidr' hrr', hbinary, hbinary']
      · rw [List.cons_append, List.cons.injEq] at hrr'
        obtain ⟨rfl, hrr'⟩ := hrr'
        refine (h.not_both_inside hl' hr hvalidl' hvalidr ho ho' hleft' hright ?_ ?_).elim
        · simp [hl'l]
        · simp [hrr']
      · rw [List.append_nil] at hll'
        rw [List.nil_append, List.cons.injEq] at hr'r
        obtain ⟨rfl, hr'r⟩ := hr'r
        rw [ihl hl' hvalidl hvalidl' hll', ihr hr' hvalidr hvalidr' hr'r.symm, hbinary, hbinary']
      · rw [List.cons_append, List.cons.injEq] at hr'r
        obtain ⟨rfl, hr'r⟩ := hr'r
        refine (h.not_both_inside hl hr' hvalidl hvalidr' ho' ho hleft hright' ?_ ?_).elim
        · simp [hll']
        · simp [hr'r]

end OfOperators

end Grammar

end SchemaBridge
