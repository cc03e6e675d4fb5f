/-
  How large a derivation tree can be. If no rule is empty and a rule of one symbol leads down some
  ranking of the nonterminals, the inner nodes of a tree are bounded by its leaves: every node
  with several children parts the leaves, and between two such nodes the ranks fall.
  Main results: `nodes_le` and `parse_accepts`.
-/
import SchemaBridge.Proofs.Grammar.Completeness

namespace SchemaBridge

variable {T N P : Type}

/-- The rank of a symbol; terminals stand below all nonterminals. -/
def Symbol.rank (rank : N → Nat) : Symbol T N → Nat
  | .terminal _ => 0
  | .nonterminal n => rank n

namespace Grammar

variable {g : Grammar T N P} {rank : N → Nat} {height : Nat}

/-- No rule is empty, and rules of one symbol lead to lower ranks. -/
structure Descends (g : Grammar T N P) (rank : N → Nat) (height : Nat) : Prop where
  pos : ∀ n, 0 < rank n
  le : ∀ n, rank n ≤ height
  nonempty : ∀ r ∈ g.rules, r.rhs ≠ []
  unit : ∀ r ∈ g.rules, ∀ x, r.rhs = [x] → x.rank rank < rank r.lhs

theorem Descends.rank_le (h : g.Descends rank height) (x : Symbol T N) :
    x.rank rank ≤ height := by
  cases x with
  | terminal _ => exact Nat.zero_le _
  | nonterminal n => exact h.le n

/-- A tree of `n` leaves has no more than `2 * height * (n - 1)` nodes above the rank of its
root. -/
def Slender (rank : N → Nat) (height : Nat) (t : Tree T N P) : Prop :=
  t.nodes + 2 * height ≤ 2 * height * t.leaves.length + t.root.rank rank

theorem nodesOf_le (h : g.Descends rank height) {ts : List (Tree T N P)}
    (hts : ∀ t ∈ ts, Slender rank height t) :
    Tree.nodesOf ts + height * ts.length ≤ 2 * height * (Tree.leavesOf ts).length := by
  induction ts with
  | nil => exact Nat.le_refl _
  | cons t rest ih =>
    have hone : t.nodes + 2 * height ≤ 2 * height * t.leaves.length + t.root.rank rank :=
      hts t List.mem_cons_self
    have hmore := ih fun u hu => hts u (List.mem_cons_of_mem _ hu)
    have hrank := h.rank_le t.root
    rw [Tree.nodesOf, Tree.leavesOf, List.length_append, List.length_cons, Nat.mul_add,
      Nat.mul_add, Nat.mul_one]
    omega

theorem slender_of_valid (h : g.Descends rank height) (t : Tree T N P) :
    t.Valid g.rules → Slender rank height t := by
  induction t using Tree.induct with
  | leaf token =>
    intro _
    unfold Slender
    rw [Tree.nodes, Tree.leaves, List.length_singleton, Nat.mul_one, Nat.zero_add]
    exact Nat.le_add_right _ _
  | node rule children ih =>
    intro hvalid
    obtain ⟨hrule, hroots, hall⟩ := hvalid
    rw [Tree.validAll_iff] at hall
    have hchild : ∀ c ∈ children, Slender rank height c := fun c hc => ih c hc (hall c hc)
    have hpos := h.pos rule.lhs
    unfold Slender
    rw [Tree.nodes, Tree.leaves]
    show _ ≤ _ + rank rule.lhs
    cases children with
    | nil => exact absurd hroots.symm (h.nonempty rule hrule)
    | cons c more =>
      cases more with
      | nil =>
        have hone : c.nodes + 2 * height ≤ 2 * height * c.leaves.length + c.root.rank rank :=
          hchild c (List.mem_singleton.mpr rfl)
        have hunit := h.unit rule hrule c.root hroots.symm
        rw [Tree.nodesOf, Tree.nodesOf, Tree.leavesOf, Tree.leavesOf, List.append_nil]
        omega
      | cons d rest =>
        have hsum := nodesOf_le h hchild
        have htwo : height * 2 ≤ height * (c :: d :: rest).length := by
          apply Nat.mul_le_mul_left
          rw [List.length_cons, List.length_cons]
          omega
        omega

/-- The nodes of a tree are bounded by its leaves. -/
theorem nodes_le (h : g.Descends rank height) {t : Tree T N P} (hvalid : t.Valid g.rules) :
    t.nodes ≤ 2 * height * t.leaves.length := by
  have hslender : t.nodes + 2 * height ≤ 2 * height * t.leaves.length + t.root.rank rank :=
    slender_of_valid h t hvalid
  have hrank := h.rank_le t.root
  omega

variable {E : Type} [DecidableEq T] [DecidableEq N]

/-- If the grammar has no conflicts, each derivation of the start symbol is what its leaves are
parsed as. -/
theorem parse_accepts (hfree : g.conflictFree = true) (h : g.Descends rank height)
    (hheight : height ≤ 3) {t : Tree T N P} (hvalid : t.Valid g.rules)
    (hroot : t.root = .nonterminal g.start) (finish : Nat) :
    g.tables.parse (⟨t.leaves, none⟩ : Source T E) finish = .accepted t := by
  apply run_accepts hfree hvalid hroot
  have hnodes := nodes_le h hvalid
  have hmul : 2 * height * t.leaves.length ≤ 6 * t.leaves.length :=
    Nat.mul_le_mul_right _ (by omega)
  have hpow : 8 ≤ Nat.pow (g.tables.rows.length + 2) (g.tables.rows.length + 3) := by
    have hbase : 2 ^ 3 ≤ 2 ^ (g.tables.rows.length + 3) :=
      Nat.pow_le_pow_right (by decide) (by omega)
    exact hbase.trans (Nat.pow_le_pow_left (by omega) _)
  have hsquare : (t.leaves.length + 2) * 2 ≤ (t.leaves.length + 2) * (t.leaves.length + 2) :=
    Nat.mul_le_mul_left _ (by omega)
  have hbound := Nat.mul_le_mul hsquare hpow
  unfold Automaton.stepBound Tree.steps
  dsimp only
  omega

end Grammar

end SchemaBridge
