/-
  Precedence in a parse. The expressions that wait on the stack have operators that bind tighter the
  higher they lie, or as tight and group from the right. So the next operator finds all operators
  that it has to wait for on top; and if one of its own level without associativity comes to light
  then, all operators between the two bind tighter.
  Main results: `Reading.advance` and `parse_groups_operators`.
-/
import SchemaBridge.Proofs.Grammar.Grouping
import Mathlib.Tactic.FinCases

namespace SchemaBridge

variable {T N P E : Type}

/-- Operators, each with the operand behind it. -/
def links (rest : List (Token T × Token T)) : List (Token T) :=
  rest.flatMap fun p => [p.1, p.2]

namespace Grammar

variable {g : Grammar T N P} {tag : T → P} {operand : T} {operators : List T}

/-! ## What waits on the stack -/

/-- The trees on a stack, its top first, of expressions that wait for the right part of the operator
behind them. -/
def laid (pending : List (Tree T N P × Token T)) : List (Tree T N P) :=
  pending.flatMap fun p => [.leaf p.2, p.1]

theorem laid_cons (t : Tree T N P) (o : Token T) (below : List (Tree T N P × Token T)) :
    laid ((t, o) :: below) = .leaf o :: t :: laid below :=
  rfl

/-- Each expression may stand to the left of the operator behind it, and this operator to the right
of the one below. -/
inductive Waiting (g : Grammar T N P) (operators : List T) : List (Tree T N P × Token T) → Prop
  | nil : Waiting g operators []
  | cons {t : Tree T N P} {o : Token T} {below : List (Tree T N P × Token T)}
      (hbelow : Waiting g operators below) (ht : g.Grouped t) (ho : o.kind ∈ operators)
      (hleft : ∀ p ∈ t.operator?, g.FitsLeft p o.kind)
      (hunder : ∀ q ∈ below.head?, g.FitsRight o.kind q.2.kind) :
      Waiting g operators ((t, o) :: below)

/-- The tokens are operators, each with an operand behind it. -/
def Linked (operand : T) (operators : List T) (rest : List (Token T × Token T)) : Prop :=
  ∀ p ∈ rest, p.1.kind ∈ operators ∧ p.2.kind = operand

/-- What a parse of operands and operators comes to. -/
inductive Reading (g : Grammar T N P) (operand : T) (operators : List T) : Config T N P → Prop
  | /-- An operand is to come. -/
    awaiting {stack : List (Frame T N P)} {pending : List (Tree T N P × Token T)} {n : Token T}
      {rest : List (Token T × Token T)} (hstack : stack.map Frame.tree = laid pending)
      (hpending : g.Waiting operators pending) (hn : n.kind = operand)
      (hrest : Linked operand operators rest) : Reading g operand operators ⟨stack, n :: links rest⟩
  | /-- An operand has come. -/
    operand {stack : List (Frame T N P)} {pending : List (Tree T N P × Token T)} {n : Token T}
      {rest : List (Token T × Token T)} (hstack : stack.map Frame.tree = .leaf n :: laid pending)
      (hpending : g.Waiting operators pending) (hn : n.kind = operand)
      (hrest : Linked operand operators rest) : Reading g operand operators ⟨stack, links rest⟩
  | /-- An expression has come that the next operator has to wait for, if there is one. -/
    expression {stack : List (Frame T N P)} {pending : List (Tree T N P × Token T)}
      {t : Tree T N P} {rest : List (Token T × Token T)}
      (hstack : stack.map Frame.tree = t :: laid pending) (hpending : g.Waiting operators pending)
      (ht : g.Grouped t) (hunder : ∀ p ∈ t.operator?, ∀ q ∈ pending.head?, g.FitsRight p q.2.kind)
      (hleft : ∀ p ∈ t.operator?, ∀ o ∈ (links rest).head?, g.FitsLeft p o.kind)
      (hrest : Linked operand operators rest) : Reading g operand operators ⟨stack, links rest⟩

section Stack

theorem roots_eq (stack : List (Frame T N P)) :
    Config.roots stack = ((stack.map Frame.tree).map Tree.root).reverse := by
  unfold Config.roots
  rw [List.map_reverse, List.map_map]
  rfl

theorem forest_eq (stack : List (Frame T N P)) (input : List (Token T)) :
    Config.forest ⟨stack, input⟩ = (stack.map Frame.tree).reverse := by
  unfold Config.forest
  rw [List.map_reverse]

theorem Spells.valid_of_trees_eq [DecidableEq T] [DecidableEq N] {stack : List (Frame T N P)}
    {trees : List (Tree T N P)} (hspells : g.Spells stack) (hstack : stack.map Frame.tree = trees) :
    ∀ t ∈ trees, t.Valid g.rules := by
  rw [← hstack]
  exact List.forall_mem_map.mpr hspells.valid

variable (h : g.OfOperators tag operand operators)

include h

theorem OfOperators.awaiting_laid {pending : List (Tree T N P × Token T)}
    (hpending : g.Waiting operators pending) (hvalid : ∀ t ∈ laid pending, t.Valid g.rules) :
    g.Awaiting operators ((laid pending).map Tree.root).reverse := by
  induction hpending with
  | nil => exact .nil
  | @cons t o below _ ht ho _ _ ih =>
    rw [laid_cons, List.forall_mem_cons, List.forall_mem_cons] at hvalid
    have hroot := h.root_eq ht hvalid.2.1
    rw [laid_cons, List.map_cons, List.map_cons, List.reverse_cons, List.reverse_cons, hroot,
      List.append_assoc]
    exact (ih hvalid.2.2).concat ho

theorem OfOperators.known_links {rest : List (Token T × Token T)}
    (hrest : Linked operand operators rest) : g.Known (links rest) := by
  intro u hu
  obtain ⟨p, hp, hu⟩ := List.mem_flatMap.mp hu
  obtain ⟨ho, hn⟩ := hrest p hp
  rcases List.mem_pair.mp hu with rfl | rfl
  · exact h.mem_terminals (.inr ho)
  · exact h.mem_terminals (.inl hn)

theorem OfOperators.known_chain {n : Token T} {rest : List (Token T × Token T)}
    (hn : n.kind = operand) (hrest : Linked operand operators rest) :
    g.Known (n :: links rest) := by
  intro u hu
  rcases List.mem_cons.mp hu with rfl | hu
  · exact h.mem_terminals (.inl hn)
  · exact h.known_links hrest u hu

end Stack

theorem Linked.head_mem {rest : List (Token T × Token T)} (hrest : Linked operand operators rest) :
    ∀ k ∈ (links rest).head?.map Token.kind, k ∈ operators := by
  intro k hk
  cases rest with
  | nil => cases hk
  | cons p more =>
    have hkind : p.1.kind = k := Option.some.inj hk
    exact hkind ▸ (hrest p List.mem_cons_self).1

/-! ## Steps -/

section Steps

variable [DecidableEq T] [DecidableEq N] {stack : List (Frame T N P)} {input : List (Token T)}
  {finish : Nat}

theorem step_of_cell (hspells : g.Spells stack) (hknown : g.Known input) {a : Action T N P}
    (hcell : g.cell g.follow (g.states.idxOf ·) (g.stateAfter (Config.roots stack))
      (input.head?.map Token.kind) = some a) :
    g.tables.step (none : Option E) finish ⟨stack, input⟩ = g.perform ⟨stack, input⟩ finish a := by
  apply step_tables hknown
  rw [hspells.stateOf_eq, action_tables hspells.mem_states (mem_lookaheads hknown)]
  exact hcell

/-- A rule in a cell is put together over the topmost trees. -/
theorem step_of_cell_reduce (finish : Nat) (hspells : g.Spells stack) (hknown : g.Known input)
    {r : Rule T N P} (hcell : g.cell g.follow (g.states.idxOf ·) (g.stateAfter (Config.roots stack))
      (input.head?.map Token.kind) = some (.reduce r)) :
    ∃ stack', g.tables.step (none : Option E) finish ⟨stack, input⟩ = .next ⟨stack', input⟩ ∧
      stack'.map Frame.tree = .node r ((stack.map Frame.tree).take r.rhs.length).reverse ::
        (stack.map Frame.tree).drop r.rhs.length := by
  have haction := hcell
  rw [← action_tables hspells.mem_states (mem_lookaheads hknown)] at haction
  have hallowed := allowed_of_action hspells.mem_states haction
  generalize input.head?.map Token.kind = look at hallowed
  cases hallowed with
  | reduce hr _ =>
    obtain ⟨state, -, hnext, -⟩ := reduce_eq_next (E := E) hspells hr input finish
    refine ⟨_, (step_of_cell hspells hknown hcell).trans hnext, ?_⟩
    rw [List.map_cons, List.map_drop, List.map_reverse, List.map_take]

/-! ## Operators that were taken -/

omit [DecidableEq N] in
/-- The tokens that are not operands. -/
def operatorsIn (operand : T) (tokens : List (Token T)) : List (Token T) :=
  tokens.filter fun u => u.kind ≠ operand

omit [DecidableEq N] in
theorem operatorsIn_append (ts us : List (Token T)) :
    operatorsIn operand (ts ++ us) = operatorsIn operand ts ++ operatorsIn operand us :=
  List.filter_append ts us

omit [DecidableEq N] in
theorem operatorsIn_operand {n : Token T} (hn : n.kind = operand) :
    operatorsIn operand [n] = [] := by
  simp [operatorsIn, hn]

/-- The operators in the trees on a stack. -/
def seen (operand : T) (c : Config T N P) : List (Token T) :=
  operatorsIn operand (Tree.leavesOf c.forest)

omit [DecidableEq N] in
theorem seen_eq (stack : List (Frame T N P)) (input : List (Token T)) :
    seen operand ⟨stack, input⟩ =
      operatorsIn operand (Tree.leavesOf (stack.map Frame.tree).reverse) := by
  unfold seen
  rw [forest_eq]

omit [DecidableEq N] in
theorem seen_push (f : Frame T N P) (input input' : List (Token T)) :
    seen operand ⟨f :: stack, input⟩ =
      seen operand ⟨stack, input'⟩ ++ operatorsIn operand f.tree.leaves := by
  rw [seen_eq, seen_eq, List.map_cons, List.reverse_cons, Tree.leavesOf_append, operatorsIn_append]
  simp [Tree.leavesOf]

namespace OfOperators

variable (h : g.OfOperators tag operand operators)

include h

omit [DecidableEq N] in
theorem operatorsIn_operator {o : Token T} (ho : o.kind ∈ operators) :
    operatorsIn operand [o] = [o] := by
  have hne : o.kind ≠ operand := fun heq => h.operand_not_mem (heq ▸ ho)
  simp [operatorsIn, hne]

omit [DecidableEq N] in
theorem operatorsIn_links {rest : List (Token T × Token T)}
    (hrest : Linked operand operators rest) :
    operatorsIn operand (links rest) = rest.map Prod.fst := by
  induction rest with
  | nil => rfl
  | cons p more ih =>
    obtain ⟨hp, hmore⟩ := List.forall_mem_cons.mp hrest
    have hlinks : links (p :: more) = [p.1] ++ ([p.2] ++ links more) := rfl
    rw [hlinks, operatorsIn_append, operatorsIn_append, h.operatorsIn_operator hp.1,
      operatorsIn_operand hp.2, ih hmore]
    rfl

variable {t : Tree T N P} {k q : T}

omit [DecidableEq N] in
/-- No operator in an expression is looser than the one at its root. -/
theorem levelOf_le_of_mem_operatorsIn (ht : g.Grouped t) (hvalid : t.Valid g.rules)
    (hk : k ∈ (operatorsIn operand t.leaves).map Token.kind) : k ∈ operators ∧
      ∃ p ∈ t.operator?, p ∈ operators ∧ g.levelOf p ≤ g.levelOf k := by
  obtain ⟨u, hu, rfl⟩ := List.mem_map.mp hk
  obtain ⟨hu, hkind⟩ := List.mem_filter.mp hu
  exact h.levelOf_le ht hvalid hu (of_decide_eq_true hkind)

omit [DecidableEq N] in
/-- Inside an expression that an operator has to wait for, it does not clash. -/
theorem not_peers_inside (ht : g.Grouped t) (hvalid : t.Valid g.rules) (hq : q ∈ operators)
    (hleft : ∀ p ∈ t.operator?, g.FitsLeft p q)
    (hk : k ∈ (operatorsIn operand t.leaves).map Token.kind) : ¬g.Peers .nonassoc k q := by
  intro hpeers
  obtain ⟨hkop, p, hp, hop, hle⟩ := h.levelOf_le_of_mem_operatorsIn ht hvalid hk
  have hsame := h.levelOf_eq_of_peers hkop hq hpeers
  rcases hleft p hp with htighter | hpeers'
  · have hlt := (h.tighter_iff hop hq).mp htighter
    omega
  · have hlevel := h.levelOf_eq_of_peers hop hq hpeers'
    cases h.assoc_eq_of_peers hop hkop hpeers' hpeers (by omega)

omit [DecidableEq N] in
/-- To the right of an operator without associativity, all bind tighter than its level. -/
theorem tighter_inside (ht : g.Grouped t) (hvalid : t.Valid g.rules) {o : T} (ho : o ∈ operators)
    (hq : q ∈ operators) (hright : ∀ p ∈ t.operator?, g.FitsRight p q)
    (hpeers : g.Peers .nonassoc q o) (hk : k ∈ (operatorsIn operand t.leaves).map Token.kind) :
    g.Tighter k o := by
  obtain ⟨hkop, p, hp, hop, hle⟩ := h.levelOf_le_of_mem_operatorsIn ht hvalid hk
  have hsame := h.levelOf_eq_of_peers hq ho hpeers
  rw [h.tighter_iff hkop ho]
  rcases hright p hp with htighter | hpeers'
  · have hlt := (h.tighter_iff hop hq).mp htighter
    omega
  · have hlevel := h.levelOf_eq_of_peers hop hq hpeers'
    cases h.assoc_eq_of_peers hop hq hpeers' hpeers hlevel

end OfOperators

/-! ## One step -/

/-- All that a step can do to a parse of operands and operators. -/
inductive Advance (E : Type) (g : Grammar T N P) (operand : T) (operators : List T)
    (c : Config T N P) : ParseStep T N P E → Prop
  | next {d : Config T N P} (hd : g.Reading operand operators d)
      (hclear : g.ClashFree (seen operand c) → g.ClashFree (seen operand d)) :
      Advance E g operand operators c (.next d)
  | clash {o : Token T} {rest : List (Token T)} {forest : List (Tree T N P)}
      (hinput : c.input = o :: rest) (ho : o.kind ∈ operators)
      (hclash : g.Clashes ((seen operand c).map Token.kind) o.kind) :
      Advance E g operand operators c (.done (.failed (.nonassoc o.text o.offset) forest))
  | accept {t : Tree T N P} (hinput : c.input = []) (ht : g.Grouped t) :
      Advance E g operand operators c (.done (.accepted t))

section Cases

variable (h : g.OfOperators tag operand operators) (hspells : g.Spells stack)
  {pending : List (Tree T N P × Token T)} {rest : List (Token T × Token T)} {n : Token T}
  (hpending : g.Waiting operators pending) (hrest : Linked operand operators rest)

include h hspells hpending hrest

/-- An operand is taken. -/
theorem advance_awaiting (hstack : stack.map Frame.tree = laid pending) (hn : n.kind = operand) :
    Advance E g operand operators ⟨stack, n :: links rest⟩
      (g.tables.step none finish ⟨stack, n :: links rest⟩) := by
  have hbefore := h.awaiting_laid hpending (hspells.valid_of_trees_eq hstack)
  have hcell := h.cell_awaiting (g.states.idxOf ·) hbefore
  rw [← hstack, ← roots_eq, ← hn] at hcell
  rw [step_of_cell hspells (h.known_chain hn hrest) hcell]
  refine .next (.operand ?_ hpending hn hrest) fun hclear => ?_
  · rw [List.map_cons, hstack]
  · rw [seen_push, Tree.leaves, operatorsIn_operand hn, List.append_nil]
    exact hclear

/-- An operand is an expression. -/
theorem advance_operand (hstack : stack.map Frame.tree = .leaf n :: laid pending)
    (hn : n.kind = operand) : Advance E g operand operators ⟨stack, links rest⟩
      (g.tables.step none finish ⟨stack, links rest⟩) := by
  obtain ⟨-, hvalid⟩ := List.forall_mem_cons.mp (hspells.valid_of_trees_eq hstack)
  have hbefore := h.awaiting_laid hpending hvalid
  have hcell := h.cell_operand (g.states.idxOf ·) hbefore hrest.head_mem
  have hroots : Config.roots stack =
      ((laid pending).map Tree.root).reverse ++ [.terminal operand] := by
    rw [roots_eq, hstack, List.map_cons, List.reverse_cons, Tree.root, hn]
  rw [← hroots] at hcell
  obtain ⟨stack', hstep, htrees⟩ := step_of_cell_reduce (E := E) finish hspells
    (h.known_links hrest) hcell
  rw [hstack] at htrees
  rw [hstep]
  refine .next (.expression htrees hpending .single ?_ ?_ hrest) fun hclear => ?_
  · exact fun p hp => (Option.not_mem_none p hp).elim
  · exact fun p hp => (Option.not_mem_none p hp).elim
  · have hsame : seen operand ⟨stack', links rest⟩ = seen operand ⟨stack, links rest⟩ := by
      rw [seen_eq, seen_eq, htrees, hstack]
      simp [Grammar.single, Tree.leavesOf_append, Tree.leavesOf, Tree.leaves]
    rw [hsame]
    exact hclear

variable {t l : Tree T N P} {o q : Token T} {below : List (Tree T N P × Token T)}

omit [DecidableEq N] hspells hrest in
/-- An operator that fits to the right of the one below does not clash. -/
theorem not_clashes_of_fits (hstack : stack.map Frame.tree = t :: laid pending) (ht : g.Grouped t)
    (hvalid : t.Valid g.rules) (ho : o.kind ∈ operators)
    (hleft : ∀ p ∈ t.operator?, g.FitsLeft p o.kind)
    (hright : ∀ q ∈ pending.head?, g.FitsRight o.kind q.2.kind) (input : List (Token T)) :
    ¬g.Clashes ((seen operand ⟨stack, input⟩).map Token.kind) o.kind := by
  intro hclash
  rw [seen_eq, hstack, List.reverse_cons, Tree.leavesOf_append, operatorsIn_append,
    List.map_append] at hclash
  have hbelow := clashes_of_append hclash fun k hk => by
    simp only [Tree.leavesOf, List.append_nil] at hk
    exact h.not_peers_inside ht hvalid ho hleft hk
  cases hpending with
  | nil => exact not_clashes_nil _ hbelow
  | @cons l q below hbelow' hl hq _ _ =>
    rw [laid_cons, List.reverse_cons, Tree.leavesOf_append, operatorsIn_append, List.map_append,
      Tree.leavesOf, Tree.leavesOf, List.append_nil, Tree.leaves, h.operatorsIn_operator hq,
      List.map_singleton, clashes_concat] at hbelow
    have hfits := hright _ rfl
    have hle := h.levelOf_le_of_fits ho hq hfits
    obtain hpeers | ⟨htighter, -⟩ := hbelow
    · have hlevel := h.levelOf_eq_of_peers hq ho hpeers
      rcases hfits with htighter | hpeers'
      · have hlt := (h.tighter_iff ho hq).mp htighter
        omega
      · cases h.assoc_eq_of_peers ho hq hpeers' hpeers hlevel.symm
    · have hlt := (h.tighter_iff hq ho).mp htighter
      omega

omit [DecidableEq N] hspells in
/-- Behind an expression that it has to wait for, an operator is taken if it fits to the right of
the one below. -/
theorem advance_shift (hstack : stack.map Frame.tree = t :: laid pending) (ht : g.Grouped t)
    (hvalid : t.Valid g.rules) (ho : o.kind ∈ operators) (hn : n.kind = operand)
    (hleft : ∀ p ∈ t.operator?, g.FitsLeft p o.kind)
    (hright : ∀ q ∈ pending.head?, g.FitsRight o.kind q.2.kind) (state : Nat) :
    Advance E g operand operators ⟨stack, o :: n :: links rest⟩
      (.next ⟨⟨state, .leaf o⟩ :: stack, n :: links rest⟩) := by
  have hclash := not_clashes_of_fits h hpending hstack ht hvalid ho hleft hright
    (o :: n :: links rest)
  have hpush : (⟨state, .leaf o⟩ :: stack).map Frame.tree = laid ((t, o) :: pending) := by
    rw [List.map_cons, hstack]
    rfl
  refine .next (.awaiting hpush (.cons hpending ht ho hleft hright) hn hrest) fun hclear => ?_
  · rw [seen_push _ _ (o :: n :: links rest), Tree.leaves, h.operatorsIn_operator ho]
    exact hclear.concat hclash

omit [DecidableEq N] h hspells hpending in
/-- An operator is put together with the expressions on both its sides. -/
theorem advance_reduce (hbelow : g.Waiting operators below)
    (hstack : stack.map Frame.tree = t :: laid ((l, q) :: below)) (ht : g.Grouped t)
    (hl : g.Grouped l) (hleft : ∀ p ∈ l.operator?, g.FitsLeft p q.kind)
    (hright : ∀ p ∈ t.operator?, g.FitsRight p q.kind)
    (hunder : ∀ p ∈ below.head?, g.FitsRight q.kind p.2.kind)
    (hwait : ∀ o ∈ (links rest).head?, g.FitsLeft q.kind o.kind) {stack' : List (Frame T N P)}
    (htrees : stack'.map Frame.tree = .node (g.binary tag q.kind)
      ((stack.map Frame.tree).take (g.binary tag q.kind).rhs.length).reverse ::
        (stack.map Frame.tree).drop (g.binary tag q.kind).rhs.length) :
    Advance E g operand operators ⟨stack, links rest⟩ (.next ⟨stack', links rest⟩) := by
  rw [hstack] at htrees
  have hnew : stack'.map Frame.tree =
      .node (g.binary tag q.kind) [l, .leaf q, t] :: laid below := htrees
  refine .next (.expression hnew hbelow (.binary hl ht hleft hright) ?_ ?_ hrest)
    fun hclear => ?_
  · intro p hp
    obtain rfl : q.kind = p := Option.some.inj hp
    exact hunder
  · intro p hp
    obtain rfl : q.kind = p := Option.some.inj hp
    exact hwait
  · have hsame : seen operand ⟨stack', links rest⟩ = seen operand ⟨stack, links rest⟩ := by
      rw [seen_eq, seen_eq, hnew, hstack, laid_cons]
      simp [Tree.leavesOf_append, Tree.leavesOf, Tree.leaves]
    rw [hsame]
    exact hclear

omit hpending in
/-- Behind the first expression the first operator is taken, and without one the parse is over. -/
theorem advance_first (hstack : stack.map Frame.tree = [t]) (ht : g.Grouped t)
    (hleft : ∀ p ∈ t.operator?, ∀ o ∈ (links rest).head?, g.FitsLeft p o.kind) :
    Advance E g operand operators ⟨stack, links rest⟩
      (g.tables.step none finish ⟨stack, links rest⟩) := by
  have hvalid : t.Valid g.rules := hspells.valid_of_trees_eq hstack t List.mem_cons_self
  have hroots : Config.roots stack = [.nonterminal g.start] := by
    rw [roots_eq, hstack, List.map_singleton, h.root_eq ht hvalid]
    rfl
  have hknown := h.known_links hrest
  cases rest with
  | nil =>
    have hcell := h.cell_first_end (g.states.idxOf ·)
    rw [← hroots] at hcell
    rw [step_of_cell hspells hknown hcell]
    obtain ⟨f, rest', rfl⟩ : ∃ f rest', stack = f :: rest' := by
      cases stack with
      | nil => cases hstack
      | cons f rest' => exact ⟨f, rest', rfl⟩
    obtain ⟨rfl, -⟩ := List.cons.inj hstack
    exact .accept rfl ht
  | cons p more =>
    obtain ⟨⟨ho, hn⟩, hmore⟩ := List.forall_mem_cons.mp hrest
    have hcell := h.cell_first (g.states.idxOf ·) ho
    rw [← hroots] at hcell
    rw [step_of_cell hspells hknown hcell]
    exact advance_shift h .nil hmore hstack ht hvalid ho hn (fun p hp => hleft p hp _ rfl)
      (fun q hq => (Option.not_mem_none q hq).elim) _

omit [DecidableEq N] hspells hpending hrest in
/-- An operator clashes with the one below the expression, where their level does not associate. -/
theorem clashes_between (hstack : stack.map Frame.tree = t :: laid ((l, q) :: below))
    (ht : g.Grouped t) (hvalid : t.Valid g.rules) (hq : q.kind ∈ operators)
    (ho : o.kind ∈ operators) (hunder : ∀ p ∈ t.operator?, g.FitsRight p q.kind)
    (hpeers : g.Peers .nonassoc q.kind o.kind) (input : List (Token T)) :
    g.Clashes ((seen operand ⟨stack, input⟩).map Token.kind) o.kind := by
  rw [seen_eq, hstack, laid_cons, List.reverse_cons, List.reverse_cons, Tree.leavesOf_append,
    Tree.leavesOf_append, operatorsIn_append, operatorsIn_append, List.map_append,
    List.map_append]
  simp only [Tree.leavesOf, Tree.leaves, List.append_nil]
  rw [h.operatorsIn_operator hq]
  refine clashes_append_of_tighter (clashes_concat.mpr (.inl hpeers)) fun k hk => ?_
  exact h.tighter_inside ht hvalid ho hq hunder hpeers hk

omit hpending in
/-- Behind an expression with an operator below it, the two operators decide. -/
theorem advance_between (hpending : g.Waiting operators ((l, q) :: below))
    (hstack : stack.map Frame.tree = t :: laid ((l, q) :: below)) (ht : g.Grouped t)
    (hunder : ∀ p ∈ t.operator?, g.FitsRight p q.kind)
    (hleft : ∀ p ∈ t.operator?, ∀ o ∈ (links rest).head?, g.FitsLeft p o.kind) :
    Advance E g operand operators ⟨stack, links rest⟩
      (g.tables.step none finish ⟨stack, links rest⟩) := by
  have hwaiting := hpending
  obtain _ | ⟨hbelow, hl, hq, hleftl, hright⟩ := hpending
  obtain ⟨hvalid, hlaid⟩ := List.forall_mem_cons.mp (hspells.valid_of_trees_eq hstack)
  have hbefore := h.awaiting_laid hbelow fun u hu =>
    hlaid u (List.mem_cons_of_mem _ (List.mem_cons_of_mem _ hu))
  have hroots : Config.roots stack =
      ((laid below).map Tree.root).reverse ++ (g.binary tag q.kind).rhs := by
    rw [roots_eq, hstack, laid_cons, List.map_cons, List.map_cons, List.map_cons,
      h.root_eq ht hvalid, h.root_eq hl (hlaid l (List.mem_cons_of_mem _ List.mem_cons_self))]
    simp [Grammar.binary, Tree.root]
  have hknown := h.known_links hrest
  cases rest with
  | nil =>
    have hcell := h.cell_between_end (g.states.idxOf ·) hbefore hq
    rw [← hroots] at hcell
    obtain ⟨stack', hstep, htrees⟩ := step_of_cell_reduce (E := E) finish hspells hknown hcell
    rw [hstep]
    exact advance_reduce hrest hbelow hstack ht hl hleftl hunder hright
      (fun o ho => (Option.not_mem_none o ho).elim) htrees
  | cons p more =>
    obtain ⟨⟨ho, hn⟩, hmore⟩ := List.forall_mem_cons.mp hrest
    have hcell := h.cell_between (g.states.idxOf ·) hbefore hq ho
    rw [← hroots] at hcell
    rcases h.preferred_cases hq ho (g.states.idxOf (g.goto
      (g.stateAfter (Config.roots stack)) (.terminal p.1.kind))) with
      ⟨hfits, hchoice⟩ | ⟨hfits, hchoice⟩ | ⟨hpeers, hchoice⟩
    all_goals rw [hchoice] at hcell
    · obtain ⟨stack', hstep, htrees⟩ := step_of_cell_reduce (E := E) finish hspells hknown hcell
      rw [hstep]
      refine advance_reduce hrest hbelow hstack ht hl hleftl hunder hright ?_ htrees
      intro o ho'
      obtain rfl : p.1 = o := Option.some.inj ho'
      exact hfits
    · rw [step_of_cell hspells hknown hcell]
      refine advance_shift h hwaiting hmore hstack ht hvalid ho hn
        (fun p hp => hleft p hp _ rfl) (fun k hk => ?_) _
      obtain rfl : (l, q) = k := Option.some.inj hk
      exact hfits
    · rw [step_of_cell hspells hknown hcell]
      exact .clash rfl ho (clashes_between h hstack ht hvalid hq ho hunder hpeers _)

/-- Behind an expression, the next token and the operator below decide. -/
theorem advance_expression (hstack : stack.map Frame.tree = t :: laid pending) (ht : g.Grouped t)
    (hunder : ∀ p ∈ t.operator?, ∀ q ∈ pending.head?, g.FitsRight p q.2.kind)
    (hleft : ∀ p ∈ t.operator?, ∀ o ∈ (links rest).head?, g.FitsLeft p o.kind) :
    Advance E g operand operators ⟨stack, links rest⟩
      (g.tables.step none finish ⟨stack, links rest⟩) := by
  cases pending with
  | nil => exact advance_first h hspells hrest hstack ht hleft
  | cons first below =>
    exact advance_between h hspells hrest hpending hstack ht
      (fun p hp => hunder p hp _ rfl) hleft

end Cases

theorem Reading.advance {c : Config T N P} (hread : g.Reading operand operators c) (finish : Nat)
    (h : g.OfOperators tag operand operators) (hspells : g.Spells c.stack) :
    Advance E g operand operators c (g.tables.step none finish c) := by
  cases hread with
  | awaiting hstack hpending hn hrest => exact advance_awaiting h hspells hpending hrest hstack hn
  | operand hstack hpending hn hrest => exact advance_operand h hspells hpending hrest hstack hn
  | expression hstack hpending ht hunder hleft hrest =>
    exact advance_expression h hspells hpending hrest hstack ht hunder hleft

/-! ## Whole parses -/

variable {c d : Config T N P} {tokens : List (Token T)} {calls : List (BuildStep T P)}

/-- A parse of operands and operators keeps reading, and takes no operator that clashes. -/
theorem Reading.runs (hread : g.Reading operand operators c)
    (h : g.OfOperators tag operand operators)
    (hruns : g.tables.Runs (none : Option E) finish c calls d) (hstanding : g.Standing tokens c)
    (hclear : g.ClashFree (seen operand c)) :
    g.Reading operand operators d ∧ g.ClashFree (seen operand d) := by
  induction hruns with
  | refl => exact ⟨hread, hclear⟩
  | head hstep _ ih =>
    have hadvance := hread.advance (E := E) finish h hstanding.spells
    rw [hstep] at hadvance
    cases hadvance with
    | next hd hkeep => exact ih hd (hstanding.step hstep).1 (hkeep hclear)

variable {first : Token T} {rest : List (Token T × Token T)}

theorem OfOperators.parse_cases (h : g.OfOperators tag operand operators)
    (hfirst : first.kind = operand) (hrest : Linked operand operators rest) (finish : Nat) :
    (∃ t, g.tables.parse (⟨first :: links rest, none⟩ : Source T E) finish = .accepted t ∧
      g.Grouped t ∧ g.ClashFree (rest.map Prod.fst)) ∨
    ∃ o forest, g.tables.parse (⟨first :: links rest, none⟩ : Source T E) finish =
      .failed (.nonassoc o.text o.offset) forest ∧ g.FirstClash (rest.map Prod.fst) o := by
  have hends := parse_ne_endless_of_proper h.compile_eq h.proper
    (⟨first :: links rest, none⟩ : Source T E) finish
  have hrun : g.tables.run (none : Option E) finish
      (g.tables.stepBound (first :: links rest).length) (.initial (first :: links rest)) =
        g.tables.parse ⟨first :: links rest, none⟩ finish := rfl
  obtain ⟨forest, hforest⟩ | ⟨calls, c, hruns, hdone⟩ := Automaton.exists_runs_of_run hrun
  · exact absurd hforest (hends forest)
  have hempty : ([] : List (Frame T N P)).map Frame.tree = laid [] := rfl
  have hstart : g.Reading operand operators (.initial (first :: links rest)) :=
    .awaiting hempty .nil hfirst hrest
  have hinitial := standing_initial g (first :: links rest)
  obtain ⟨hread, hclear⟩ := hstart.runs h hruns hinitial clashFree_nil
  have hstanding := (hinitial.runs hruns).1
  have hops : seen operand c ++ operatorsIn operand c.input = rest.map Prod.fst := by
    unfold seen
    rw [← operatorsIn_append, hstanding.leaves, ← List.singleton_append, operatorsIn_append,
      operatorsIn_operand hfirst, h.operatorsIn_links hrest, List.nil_append]
  have hadvance := hread.advance (E := E) finish h hstanding.spells
  rw [hdone] at hadvance
  generalize g.tables.parse (⟨first :: links rest, none⟩ : Source T E) finish = outcome
    at hadvance
  cases hadvance with
  | @clash o more forest hinput ho hclash =>
    rw [hinput, ← List.singleton_append, operatorsIn_append, h.operatorsIn_operator ho] at hops
    exact .inr ⟨o, forest, rfl, seen operand c, _, hops.symm, hclear, hclash⟩
  | @accept t hinput ht =>
    rw [hinput, operatorsIn, List.filter_nil, List.append_nil] at hops
    exact .inl ⟨t, rfl, ht, hops ▸ hclear⟩

end Steps

/-- The levels of operators mean what they say. In a grammar of binary operators, whatever the order
of its rules, the tokens of an expression are parsed into the only tree that is grouped as the
levels say, unless two operators of one level without associativity have nothing but tighter ones
between them: then the parse fails at the first operator that closes such a pair. -/
theorem parse_groups_operators [DecidableEq T] [DecidableEq N]
    (h : g.OfOperators tag operand operators) {first : Token T} {rest : List (Token T × Token T)}
    (hfirst : first.kind = operand)
    (hrest : ∀ p ∈ rest, p.1.kind ∈ operators ∧ p.2.kind = operand) (finish : Nat) :
    ∃ a, g.compile = .ok a ∧
      (¬g.ClashFree (rest.map Prod.fst) → ∃ o, g.FirstClash (rest.map Prod.fst) o ∧ ∃ forest,
        a.parse (⟨first :: links rest, none⟩ : Source T E) finish =
          .failed (.nonassoc o.text o.offset) forest) ∧
      (g.ClashFree (rest.map Prod.fst) → ∃ t,
        a.parse (⟨first :: links rest, none⟩ : Source T E) finish = .accepted t ∧
          g.IsDerivation (first :: links rest) t ∧ g.Grouped t ∧
          ∀ u, g.IsDerivation (first :: links rest) u → g.Grouped u → u = t) := by
  refine ⟨g.tables, h.compile_eq, ?_⟩
  obtain ⟨t, hparse, ht, hfree⟩ | ⟨o, forest, hparse, hclash⟩ :=
    h.parse_cases (E := E) hfirst hrest finish
  · have haccepts : g.Accepts (⟨first :: links rest, none⟩ : Source T E) finish t :=
      (parse_builds_derivation h.compile_eq _ finish).2 _ t hparse
    refine ⟨fun hclash => absurd hfree hclash,
      fun _ => ⟨t, hparse, ?_, ht, fun u hu hgrouped => ?_⟩⟩
    · exact ⟨haccepts.valid, haccepts.root_eq, haccepts.leaves_eq⟩
    · exact h.eq_of_leaves_eq hgrouped ht hu.valid haccepts.valid
        (hu.leaves_eq.trans haccepts.leaves_eq.symm)
  · exact ⟨fun _ => ⟨o, hclash, forest, hparse⟩, fun hfree => absurd hfree hclash.not_clashFree⟩

/-! ## A grammar with three levels -/

namespace Arithmetic

/-- Comparisons, which do not associate, below sums and differences, below powers. The rules stand
in no order. -/
def grammar : Grammar Char Unit Char where
  start := ()
  rules := [⟨(), [.nonterminal (), .terminal '-', .nonterminal ()], '-'⟩,
    ⟨(), [.nonterminal (), .terminal '^', .nonterminal ()], '^'⟩,
    ⟨(), [.terminal 'n'], 'n'⟩,
    ⟨(), [.nonterminal (), .terminal '=', .nonterminal ()], '='⟩,
    ⟨(), [.nonterminal (), .terminal '+', .nonterminal ()], '+'⟩]
  levels := [(.nonassoc, ['=']), (.left, ['+', '-']), (.right, ['^'])]

theorem ofOperators_grammar : grammar.OfOperators id 'n' ['=', '+', '-', '^'] := by
  refine ⟨by decide, by decide, ?_⟩
  intro op hop
  fin_cases hop
  · exact existsUnique_declaredAt 0 rfl (by decide) (by decide)
  · exact existsUnique_declaredAt 1 rfl (by decide) (by decide)
  · exact existsUnique_declaredAt 1 rfl (by decide) (by decide)
  · exact existsUnique_declaredAt 2 rfl (by decide) (by decide)

/-- A token of one character. -/
def token (i : Nat) (c : Char) : Token Char :=
  ⟨c, c.toString, i⟩

def firstOperand : Token Char := token 0 'n'

/-- The rest of `n-n-n^n^n`. -/
def difference : List (Token Char × Token Char) :=
  [(token 1 '-', token 2 'n'), (token 3 '-', token 4 'n'), (token 5 '^', token 6 'n'),
    (token 7 '^', token 8 'n')]

/-- The rest of `n=n+n=n`. -/
def comparison : List (Token Char × Token Char) :=
  [(token 1 '=', token 2 'n'), (token 3 '+', token 4 'n'), (token 5 '=', token 6 'n')]

def atom (i : Nat) : Tree Char Unit Char :=
  .node (grammar.single id 'n') [.leaf (token i 'n')]

def operation (l : Tree Char Unit Char) (i : Nat) (c : Char) (r : Tree Char Unit Char) :
    Tree Char Unit Char :=
  .node (grammar.binary id c) [l, .leaf (token i c), r]

/-- `(n-n)-(n^(n^n))`. -/
def differenceTree : Tree Char Unit Char :=
  operation (operation (atom 0) 1 '-' (atom 2)) 3 '-'
    (operation (atom 4) 5 '^' (operation (atom 6) 7 '^' (atom 8)))

theorem isDerivation_differenceTree :
    grammar.IsDerivation (firstOperand :: links difference) differenceTree := by
  refine ⟨?_, rfl, rfl⟩
  simp [differenceTree, operation, atom, Tree.Valid, Tree.ValidAll, Tree.root, grammar,
    Grammar.single, Grammar.binary, token]

theorem grouped_differenceTree : grammar.Grouped differenceTree := by
  have hminus : grammar.DeclaredAt 1 .left '-' := ⟨_, rfl, by decide⟩
  have hpower : grammar.DeclaredAt 2 .right '^' := ⟨_, rfl, by decide⟩
  refine .binary (.binary .single .single ?_ ?_) (.binary .single (.binary .single .single ?_ ?_)
    ?_ ?_) ?_ ?_
  all_goals intro p hp; cases hp
  · exact .inr ⟨2, hpower, hpower⟩
  · exact .inr ⟨1, hminus, hminus⟩
  · exact .inl ⟨2, 1, _, _, hpower, hminus, Nat.lt_succ_self 1⟩

/-- Only comparisons do not associate. -/
theorem eq_of_peers {p q : Char} (hpeers : grammar.Peers .nonassoc p q) : q = '=' := by
  obtain ⟨level, -, ts, hts, hmem⟩ := hpeers
  match level, hts with
  | 0, rfl => exact List.mem_singleton.mp hmem
  | 1, hts | 2, hts | _ + 3, hts => cases hts

theorem clashFree_difference : grammar.ClashFree (difference.map Prod.fst) := by
  rintro before o after hsplit ⟨_, p, _, _, hpeers, _⟩
  have ho : o ∈ difference.map Prod.fst := by
    rw [hsplit]
    simp
  have hkind := eq_of_peers hpeers
  fin_cases ho <;> cases hkind

theorem not_clashFree_comparison : ¬grammar.ClashFree (comparison.map Prod.fst) := by
  intro hfree
  have hequals : grammar.DeclaredAt 0 .nonassoc '=' := ⟨_, rfl, by decide⟩
  have hplus : grammar.DeclaredAt 1 .left '+' := ⟨_, rfl, by decide⟩
  refine hfree [token 1 '=', token 3 '+'] (token 5 '=') [] rfl
    ⟨[], '=', ['+'], rfl, ⟨0, hequals, hequals⟩, ?_⟩
  intro q hq
  obtain rfl := List.mem_singleton.mp hq
  exact ⟨1, 0, _, _, hplus, hequals, Nat.one_pos⟩

end Arithmetic

open Arithmetic in
theorem parse_groups_arithmetic :
    Arithmetic.grammar.OfOperators id 'n' ['=', '+', '-', '^'] ∧
    (∃ o, Arithmetic.grammar.FirstClash (comparison.map Prod.fst) o ∧ ∃ forest,
      Arithmetic.grammar.tables.parse (E := Unit) ⟨firstOperand :: links comparison, none⟩ 7 =
        .failed (.nonassoc o.text o.offset) forest) ∧
    Arithmetic.grammar.tables.parse (E := Unit) ⟨firstOperand :: links difference, none⟩ 9 =
      .accepted differenceTree := by
  have hfirst : firstOperand.kind = 'n' := rfl
  have hcomparison : ∀ p ∈ comparison, p.1.kind ∈ ['=', '+', '-', '^'] ∧ p.2.kind = 'n' := by
    decide
  have hdifference : ∀ p ∈ difference, p.1.kind ∈ ['=', '+', '-', '^'] ∧ p.2.kind = 'n' := by
    decide
  obtain ⟨a, hcompile, hfails, -⟩ := parse_groups_operators (E := Unit) ofOperators_grammar
    hfirst hcomparison 7
  obtain ⟨b, hcompile', -, haccepts⟩ := parse_groups_operators (E := Unit) ofOperators_grammar
    hfirst hdifference 9
  obtain rfl := tables_of_compile hcompile
  obtain rfl := tables_of_compile hcompile'
  obtain ⟨t, hparse, -, -, hunique⟩ := haccepts clashFree_difference
  rw [← hunique _ isDerivation_differenceTree grouped_differenceTree] at hparse
  exact ⟨ofOperators_grammar, hfails not_clashFree_comparison, hparse⟩

end Grammar

end SchemaBridge
