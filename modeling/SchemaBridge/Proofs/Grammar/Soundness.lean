/-
  What the tables of a grammar accept is derived. The stack of a parse spells a path of the
  automaton: each frame has the number of the state that the roots up to it lead to. However
  conflicts were settled, a rule is put together only in a state that holds it with its mark at the
  end, so that the roots on top of the stack are its right-hand side, and the state below them goes
  on with its head.
  Main results: `reduce_eq_next`, `Standing.effect`, `Standing.step` and `Standing.accepted`.
-/
import SchemaBridge.Proofs.Grammar.Completeness
import SchemaBridge.Proofs.Grammar.Viable

namespace SchemaBridge

variable {T N P E : Type}

namespace Config

/-- The roots of the trees on a stack, the oldest first. -/
def roots (stack : List (Frame T N P)) : List (Symbol T N) :=
  stack.reverse.map fun f => f.tree.root

@[simp] theorem roots_nil : roots ([] : List (Frame T N P)) = [] := rfl

@[simp] theorem roots_cons (f : Frame T N P) (stack : List (Frame T N P)) :
    roots (f :: stack) = roots stack ++ [f.tree.root] := by
  unfold roots
  rw [List.reverse_cons, List.map_append, List.map_singleton]

theorem roots_append (top stack : List (Frame T N P)) :
    roots (top ++ stack) = roots stack ++ roots top := by
  unfold roots
  rw [List.reverse_append, List.map_append]

theorem length_roots (stack : List (Frame T N P)) : (roots stack).length = stack.length := by
  unfold roots
  rw [List.length_map, List.length_reverse]

theorem map_root_trees (stack : List (Frame T N P)) :
    (stack.reverse.map Frame.tree).map Tree.root = roots stack := by
  unfold roots
  rw [List.map_map]
  rfl

theorem forest_push (f : Frame T N P) (stack : List (Frame T N P)) (input : List (Token T)) :
    forest ⟨f :: stack, input⟩ = stack.reverse.map Frame.tree ++ [f.tree] := by
  unfold forest
  rw [List.reverse_cons, List.map_append, List.map_singleton]

/-- The trees below the topmost frames, and the trees of these. -/
theorem forest_split (stack : List (Frame T N P)) (input : List (Token T)) (arity : Nat) :
    forest ⟨stack, input⟩ = (stack.drop arity).reverse.map Frame.tree ++
      (stack.take arity).reverse.map Frame.tree := by
  unfold forest
  rw [← List.map_append, ← List.reverse_append, List.take_append_drop]

/-- The kind of the next token, or nothing at the end of the input. -/
def lookahead (c : Config T N P) : Option T :=
  c.input.head?.map Token.kind

end Config

namespace Grammar

variable [DecidableEq T] [DecidableEq N] {g : Grammar T N P}

/-! ## Cells -/

omit [DecidableEq N] in
/-- However a conflict is settled, the cell keeps what it holds, takes the rule, or turns into an
error. -/
theorem place_cases {t : Option T} {cell : Option (Action T N P)} {r : Rule T N P}
    {a : Action T N P} (h : g.place t cell r = some a) :
    cell = some a ∨ a = .reduce r ∨ a = .nonassoc := by
  unfold place at h
  split at h
  · cases h
    exact .inr (.inl rfl)
  · rename_i next
    unfold preferred at h
    split at h
    · split at h
      · cases h
        exact .inr (.inl rfl)
      · split at h
        · cases h
          exact .inl rfl
        · split at h <;> cases h
          · exact .inr (.inl rfl)
          · exact .inl rfl
          · exact .inr (.inr rfl)
    · cases h
      exact .inl rfl
  · exact .inl h

omit [DecidableEq N] in
theorem foldl_place_cases {t : Option T} (rules : List (Rule T N P))
    {cell : Option (Action T N P)} {a : Action T N P}
    (h : rules.foldl (g.place t) cell = some a) :
    cell = some a ∨ (∃ r ∈ rules, a = .reduce r) ∨ a = .nonassoc := by
  induction rules generalizing cell with
  | nil => exact .inl h
  | cons r rest ih =>
    rcases ih h with hplace | ⟨q, hq, ha⟩ | ha
    · rcases place_cases hplace with hcell | ha | ha
      · exact .inl hcell
      · exact .inr (.inl ⟨r, List.mem_cons_self, ha⟩)
      · exact .inr (.inr ha)
    · exact .inr (.inl ⟨q, List.mem_cons_of_mem _ hq, ha⟩)
    · exact .inr (.inr ha)

/-- What the tables may say about a lookahead in a state. -/
inductive Allowed (g : Grammar T N P) (s : State) : Option T → Action T N P → Prop
  | shift {k : T} (h : .terminal k ∈ g.nextSymbols s) :
      Allowed g s (some k) (.shift (g.states.idxOf (g.goto s (.terminal k))))
  | reduce {t : Option T} {r : Rule T N P} (h : r ∈ g.complete s) (hfollow : t ∈ g.follow r.lhs) :
      Allowed g s t (.reduce r)
  | accept (h : (⟨0, 1⟩ : Item) ∈ s) : Allowed g s none .accept
  | nonassoc {t : Option T} : Allowed g s t .nonassoc

theorem allowed_of_opening {s : State} {t : Option T} {a : Action T N P}
    (h : g.opening (g.states.idxOf ·) s t = some a) : g.Allowed s t a := by
  cases t with
  | none =>
    unfold opening at h
    dsimp only at h
    split at h <;> cases h
    exact .accept ‹_›
  | some k =>
    unfold opening at h
    dsimp only at h
    split at h <;> cases h
    exact .shift ‹_›

/-- A row has entries for lookaheads only. -/
theorem mem_lookaheads_of_action {s : State} (hs : s ∈ g.states) {t : Option T} {a : Action T N P}
    (h : g.tables.action (g.states.idxOf s) t = some a) : t ∈ g.lookaheads := by
  obtain ⟨follow, -, hrow⟩ := rows_tables hs
  unfold Automaton.action at h
  rw [hrow, Option.bind_some] at h
  obtain ⟨_, _, hsplit, -⟩ := List.lookup_eq_some_iff.mp h
  have hmem : (t, a) ∈ (g.row follow (g.states.idxOf ·) s).actions := by
    rw [hsplit]
    exact List.mem_append_right _ List.mem_cons_self
  obtain ⟨u, hu, hcell⟩ := List.mem_filterMap.mp hmem
  obtain ⟨b, -, hpair⟩ := Option.map_eq_some_iff.mp hcell
  cases hpair
  exact hu

theorem allowed_of_action {s : State} (hs : s ∈ g.states) {t : Option T} {a : Action T N P}
    (h : g.tables.action (g.states.idxOf s) t = some a) : g.Allowed s t a := by
  rw [action_tables hs (mem_lookaheads_of_action hs h)] at h
  rcases foldl_place_cases _ h with hopen | ⟨r, hr, rfl⟩ | rfl
  · exact allowed_of_opening hopen
  · obtain ⟨hr, hfollow⟩ := List.mem_filter.mp hr
    exact .reduce hr (of_decide_eq_true hfollow)
  · exact .nonassoc

/-! ## Stacks -/

/-- The stack holds derivations, each where the state below expects its root, and numbers of the
states that they lead to. -/
inductive Spells (g : Grammar T N P) : List (Frame T N P) → Prop
  | nil : Spells g []
  | push {stack : List (Frame T N P)} {t : Tree T N P} (h : Spells g stack)
      (hvalid : t.Valid g.rules)
      (hnext : t.root ∈ g.nextSymbols (g.stateAfter (Config.roots stack))) :
      Spells g (⟨g.states.idxOf (g.stateAfter (Config.roots stack ++ [t.root])), t⟩ :: stack)

variable {stack : List (Frame T N P)}

theorem Spells.mem_states (h : g.Spells stack) : g.stateAfter (Config.roots stack) ∈ g.states := by
  induction h with
  | nil => exact initialState_mem_states g
  | push _ _ hnext ih =>
    obtain ⟨item, hitem, hx⟩ := mem_nextSymbols.mp hnext
    rw [Config.roots_cons, stateAfter_append_singleton]
    exact goto_mem_states ih hitem hx

theorem Spells.stateOf_eq (h : g.Spells stack) :
    Config.stateOf stack = g.states.idxOf (g.stateAfter (Config.roots stack)) := by
  cases h with
  | nil => exact (idxOf_initialState g).symm
  | push => rw [Config.roots_cons]; rfl

theorem Spells.drop (h : g.Spells stack) (n : Nat) : g.Spells (stack.drop n) := by
  induction h generalizing n with
  | nil =>
    rw [List.drop_nil]
    exact .nil
  | push hstack hvalid hnext ih =>
    cases n with
    | zero => exact .push hstack hvalid hnext
    | succ n => exact ih n

theorem Spells.valid (h : g.Spells stack) : ∀ f ∈ stack, f.tree.Valid g.rules := by
  induction h with
  | nil => exact fun f hf => absurd hf List.not_mem_nil
  | push _ hvalid _ ih => exact List.forall_mem_cons.mpr ⟨hvalid, ih⟩

/-- Where a rule is complete, its right-hand side is on top of the stack, and the state below
expects its head. -/
theorem roots_of_complete {r : Rule T N P}
    (hr : r ∈ g.complete (g.stateAfter (Config.roots stack))) :
    r.rhs.length ≤ stack.length ∧ Config.roots (stack.take r.rhs.length) = r.rhs ∧
      .nonterminal r.lhs ∈
        g.nextSymbols (g.stateAfter (Config.roots (stack.drop r.rhs.length))) := by
  obtain ⟨i, dot, hitem, hi, hle⟩ := mem_complete.mp hr
  have hviable := mem_stateAfter_iff.mp hitem
  have hdot : dot = r.rhs.length := by
    have hdot_le := hviable.dot_le
    rw [rhsOf_succ hi] at hdot_le
    exact Nat.le_antisymm hdot_le hle
  obtain ⟨front, hfront, hzero⟩ := hviable.split
  rw [rhsOf_succ hi, hdot, List.take_length] at hfront
  have hlength : r.rhs.length ≤ stack.length := by
    rw [← Config.length_roots, hfront, List.length_append]
    exact Nat.le_add_left _ _
  have hsplit : Config.roots (stack.drop r.rhs.length) ++ Config.roots (stack.take r.rhs.length) =
      front ++ r.rhs := by
    rw [← Config.roots_append, List.take_append_drop, hfront]
  obtain ⟨hbelow, htop⟩ := List.append_inj' hsplit (by
    rw [Config.length_roots, List.length_take, Nat.min_eq_left hlength])
  refine ⟨hlength, htop, ?_⟩
  obtain ⟨q, item, hq, hexp, hnext⟩ := hzero.expected
  rw [hi] at hq
  cases hq
  rw [hbelow]
  exact mem_nextSymbols_stateAfter.mpr ⟨item, hexp, hnext⟩

/-- A rule that is complete is put together: there are trees enough, and the state below has an
entry for its head. -/
theorem reduce_eq_next (h : g.Spells stack) {r : Rule T N P}
    (hr : r ∈ g.complete (g.stateAfter (Config.roots stack))) (input : List (Token T))
    (finish : Nat) : ∃ state, g.tables.goto (Config.stateOf (stack.drop r.rhs.length)) r.lhs =
        some state ∧
      g.tables.reduce (E := E) ⟨stack, input⟩ r finish =
        .next ⟨⟨state, .node r ((stack.take r.rhs.length).reverse.map Frame.tree)⟩ ::
          stack.drop r.rhs.length, input⟩ ∧
      g.Spells (⟨state, .node r ((stack.take r.rhs.length).reverse.map Frame.tree)⟩ ::
        stack.drop r.rhs.length) := by
  obtain ⟨-, htop, hnext⟩ := roots_of_complete hr
  have hbelow := h.drop r.rhs.length
  have hgoto := goto_tables hbelow.mem_states hnext
  rw [← hbelow.stateOf_eq, ← stateAfter_append_singleton] at hgoto
  refine ⟨_, hgoto, ?_, ?_⟩
  · unfold Automaton.reduce
    dsimp only
    rw [hgoto]
  · refine hbelow.push (t := .node r _) ⟨mem_rules_of_mem_complete hr, ?_, ?_⟩ hnext
    · rw [Config.map_root_trees, htop]
    · rw [Tree.validAll_iff]
      intro t ht
      obtain ⟨f, hf, rfl⟩ := List.mem_map.mp ht
      exact h.valid f (List.mem_of_mem_take (List.mem_reverse.mp hf))

/-! ## Steps -/

/-- What a parse of `tokens` has come to: its stack spells a path, and its trees and the rest of
the input hold the tokens. -/
structure Standing (g : Grammar T N P) (tokens : List (Token T)) (c : Config T N P) : Prop where
  spells : g.Spells c.stack
  leaves : Tree.leavesOf c.forest ++ c.input = tokens

theorem standing_initial (g : Grammar T N P) (tokens : List (Token T)) :
    g.Standing tokens (.initial tokens) :=
  ⟨.nil, rfl⟩

/-- All that a step can do to a parse in good standing. -/
inductive Effect (g : Grammar T N P) (failure : Option E) (finish : Nat) :
    Config T N P → ParseStep T N P E → Prop
  | /-- The source fails behind the last token. -/
    source {stack : List (Frame T N P)} {e : E} (h : failure = some e) :
      Effect g failure finish ⟨stack, []⟩ (Automaton.failAt ⟨stack, []⟩ (.source e))
  | /-- No rule holds the token. -/
    unknown {stack : List (Frame T N P)} {token : Token T} {rest : List (Token T)}
      (h : token.kind ∉ g.terminals) :
      Effect g failure finish ⟨stack, token :: rest⟩
        (Automaton.failAt ⟨stack, token :: rest⟩ (.unknown token.text token.offset))
  | /-- The tables have no entry. -/
    stuck {c : Config T N P} (hsource : c.input = [] → failure = none)
      (hknown : ∀ k ∈ c.lookahead, k ∈ g.terminals)
      (haction : g.tables.action (Config.stateOf c.stack) c.lookahead = none) :
      Effect g failure finish c
        (Automaton.failAt c (.unexpected (c.position finish).1 (c.position finish).2))
  | nonassoc {c : Config T N P}
      (haction : g.tables.action (Config.stateOf c.stack) c.lookahead = some .nonassoc) :
      Effect g failure finish c
        (Automaton.failAt c (.nonassoc (c.position finish).1 (c.position finish).2))
  | shift {stack : List (Frame T N P)} {token : Token T} {rest : List (Token T)} {state : Nat}
      (haction : g.tables.action (Config.stateOf stack) (some token.kind) = some (.shift state))
      (h : g.Spells (⟨state, .leaf token⟩ :: stack)) :
      Effect g failure finish ⟨stack, token :: rest⟩ (.next ⟨⟨state, .leaf token⟩ :: stack, rest⟩)
  | reduce {stack : List (Frame T N P)} {input : List (Token T)} {r : Rule T N P} {state : Nat}
      (haction : g.tables.action (Config.stateOf stack) (input.head?.map Token.kind) =
        some (.reduce r)) (hlength : r.rhs.length ≤ stack.length)
      (h : g.Spells (⟨state, .node r ((stack.take r.rhs.length).reverse.map Frame.tree)⟩ ::
        stack.drop r.rhs.length)) :
      Effect g failure finish ⟨stack, input⟩
        (.next ⟨⟨state, .node r ((stack.take r.rhs.length).reverse.map Frame.tree)⟩ ::
          stack.drop r.rhs.length, input⟩)
  | accept {f : Frame T N P} (hsource : failure = none)
      (hroot : f.tree.root = .nonterminal g.start) :
      Effect g failure finish ⟨[f], []⟩ (.done (.accepted f.tree))

variable {failure : Option E} {finish : Nat} {c d : Config T N P} {tokens : List (Token T)}

/-- A step looks an action up, unless the source fails or the token is one that no rule holds. -/
theorem step_eq_perform (hsource : c.input = [] → failure = none)
    (hknown : ∀ k ∈ c.lookahead, k ∈ g.terminals) :
    g.tables.step failure finish c =
      match g.tables.action (Config.stateOf c.stack) c.lookahead with
      | some a => g.perform c finish a
      | none =>
        Automaton.failAt c (.unexpected (c.position finish).1 (c.position finish).2) := by
  obtain ⟨stack, input⟩ := c
  have hall : (input.head?.map Token.kind).all (· ∈ g.tables.terminals) = true := by
    rw [Option.all_eq_true]
    exact fun k hk => decide_eq_true (List.mem_eraseDups.mpr (hknown k hk))
  unfold Config.lookahead Automaton.step
  cases input with
  | nil =>
    rw [hsource rfl]
    dsimp only
    rw [if_pos hall]
    generalize g.tables.action _ _ = entry
    cases entry with
    | none => rfl
    | some a => cases a <;> rfl
  | cons token rest =>
    dsimp only
    rw [if_pos hall]
    generalize g.tables.action _ _ = entry
    cases entry with
    | none => rfl
    | some a => cases a <;> rfl

/-- What the tables say to a parse in good standing, it can do. -/
theorem Standing.effect_perform (h : g.Standing tokens c) (hsource : c.input = [] → failure = none)
    {a : Action T N P} (ha : g.tables.action (Config.stateOf c.stack) c.lookahead = some a) :
    g.Effect failure finish c (g.perform c finish a) := by
  have hspells := h.spells
  have hallowed : g.Allowed (g.stateAfter (Config.roots c.stack)) c.lookahead a := by
    rw [hspells.stateOf_eq] at ha
    exact allowed_of_action hspells.mem_states ha
  obtain ⟨stack, input⟩ := c
  unfold Config.lookahead at ha hallowed
  generalize hlook : input.head?.map Token.kind = look at ha hallowed
  cases hallowed with
  | shift hnext =>
    cases input with
    | nil => cases hlook
    | cons token rest =>
      cases hlook
      refine .shift ha ?_
      rw [← stateAfter_append_singleton]
      exact hspells.push (t := .leaf token) trivial hnext
  | @reduce _ r hr _ =>
    obtain ⟨state, -, hnext, hpush⟩ := reduce_eq_next (E := E) hspells hr input finish
    have hsame : g.perform (E := E) ⟨stack, input⟩ finish (.reduce r) =
      g.tables.reduce ⟨stack, input⟩ r finish := rfl
    rw [hsame, hnext]
    exact .reduce (hlook ▸ ha) (roots_of_complete hr).1 hpush
  | accept hitem =>
    have hinput : input = [] := by
      cases input with
      | nil => rfl
      | cons token rest => cases hlook
    subst hinput
    have hroots : Config.roots stack = [.nonterminal g.start] :=
      (mem_stateAfter_iff.mp hitem).of_rule_zero
    have hone : stack.length = 1 := by
      rw [← Config.length_roots, hroots]
      rfl
    obtain ⟨f, rfl⟩ := List.length_eq_one_iff.mp hone
    rw [Config.roots_cons, Config.roots_nil, List.nil_append, List.cons.injEq] at hroots
    exact .accept (hsource rfl) hroots.1
  | nonassoc =>
    subst hlook
    exact .nonassoc ha

theorem Standing.effect (h : g.Standing tokens c) (failure : Option E) (finish : Nat) :
    g.Effect failure finish c (g.tables.step failure finish c) := by
  have hlooked : (c.input = [] → failure = none) → (∀ k ∈ c.lookahead, k ∈ g.terminals) →
      g.Effect failure finish c (g.tables.step failure finish c) := by
    intro hsource hknown
    rw [step_eq_perform hsource hknown]
    cases ha : g.tables.action (Config.stateOf c.stack) c.lookahead with
    | none => exact .stuck hsource hknown ha
    | some a => exact h.effect_perform hsource ha
  obtain ⟨stack, input⟩ := c
  cases input with
  | nil =>
    cases failure with
    | some e => exact .source rfl
    | none => exact hlooked (fun _ => rfl) fun _ hk => nomatch hk
  | cons token rest =>
    by_cases hknown : token.kind ∈ g.terminals
    · refine hlooked (fun h => nomatch h) fun k hk => ?_
      cases hk
      exact hknown
    · have hstep : g.tables.step failure finish ⟨stack, token :: rest⟩ =
          Automaton.failAt ⟨stack, token :: rest⟩ (.unknown token.text token.offset) := by
        have hall : ¬((token :: rest).head?.map Token.kind).all (· ∈ g.tables.terminals) = true :=
          fun h => hknown (List.mem_eraseDups.mp (of_decide_eq_true h))
        unfold Automaton.step
        dsimp only
        rw [if_neg hall]
        rfl
      rw [hstep]
      exact .unknown hknown

end Grammar

/-- The call that a step makes to whoever builds the value of the parse. -/
def Automaton.call [DecidableEq T] [DecidableEq N] (a : Automaton T N P) (c : Config T N P) :
    Option (BuildStep T P) :=
  match a.action (Config.stateOf c.stack) c.lookahead, c.input with
  | some (.shift _), token :: _ => some (.leaf token)
  | some (.reduce rule), _ => some (.node rule.tag rule.rhs.length)
  | _, _ => none

namespace Grammar

variable [DecidableEq T] [DecidableEq N] {g : Grammar T N P} {failure : Option E} {finish : Nat}
  {c d : Config T N P} {tokens : List (Token T)}

/-- A step keeps the standing of a parse, and the trees are built by the calls it makes. -/
theorem Standing.step (h : g.Standing tokens c) (hstep : g.tables.step failure finish c = .next d) :
    g.Standing tokens d ∧
      Tree.buildAll d.forest = Tree.buildAll c.forest ++ (g.tables.call c).toList := by
  have heffect := h.effect failure finish
  rw [hstep] at heffect
  have hleaves := h.leaves
  cases heffect with
  | shift haction hpush =>
    rename_i stack token rest state
    have hcall : g.tables.call ⟨stack, token :: rest⟩ = some (.leaf token) := by
      have hlook : Config.lookahead ⟨stack, token :: rest⟩ = some token.kind := rfl
      unfold Automaton.call
      rw [hlook, haction]
    refine ⟨⟨hpush, ?_⟩, ?_⟩
    · rw [Config.forest_push, Tree.leavesOf_append, List.append_assoc]
      exact hleaves
    · rw [Config.forest_push, Tree.buildAll_append, hcall]
      rfl
  | reduce haction hlength hpush =>
    rename_i stack input r state
    have hcall : g.tables.call ⟨stack, input⟩ = some (.node r.tag r.rhs.length) := by
      unfold Automaton.call Config.lookahead
      rw [haction]
    have hforest := Config.forest_split stack input r.rhs.length
    rw [hforest, Tree.leavesOf_append] at hleaves
    refine ⟨⟨hpush, ?_⟩, ?_⟩
    · rw [Config.forest_push, Tree.leavesOf_append, Tree.leavesOf, Tree.leavesOf, List.append_nil]
      exact hleaves
    · rw [Config.forest_push, hforest, hcall, Tree.buildAll_append, Tree.buildAll_append,
        Tree.buildAll, Tree.buildAll, List.append_nil, Tree.build, List.length_map,
        List.length_reverse, List.length_take, Nat.min_eq_left hlength, List.append_assoc]
      rfl

/-- A parse that accepts has one tree on its stack, a derivation of all tokens from the start
symbol. -/
theorem Standing.accepted (h : g.Standing tokens c) {t : Tree T N P}
    (hstep : g.tables.step failure finish c = .done (.accepted t)) :
    failure = none ∧ t.Valid g.rules ∧ t.root = .nonterminal g.start ∧ t.leaves = tokens ∧
      c.forest = [t] := by
  have heffect := h.effect failure finish
  rw [hstep] at heffect
  cases heffect with
  | accept hsource hroot =>
    rename_i f
    refine ⟨hsource, h.spells.valid f List.mem_cons_self, hroot, ?_, rfl⟩
    have hleaves := h.leaves
    rw [List.append_nil] at hleaves
    rw [← hleaves]
    exact (List.append_nil _).symm

end Grammar

end SchemaBridge
