/-
  A conflict-free parse ends within its bound. Split the stack below its topmost frame with leaves:
  what lies below is settled, the frames above are fresh. Between two tokens the settled part only
  shrinks, and the states of the fresh frames differ from each other, or they would come back for
  ever. So a configuration is known by the tokens left, the size of the settled part and the states
  of the fresh frames, and none comes back; `stepBound` is more than there are of them.
  Main results: `Spells.length_le`, `Standing.step_later` and `parse_ne_endless`.
-/
import SchemaBridge.Proofs.Grammar.Completion
import Mathlib.Data.Fintype.BigOperators
import Mathlib.Data.Fintype.Pi
import Mathlib.Data.Fintype.Prod
import Mathlib.Tactic.Ring

namespace SchemaBridge

variable {T N P E : Type}

/-! ## Settled and fresh frames -/

/-- The tree of the frame has no leaves. -/
def Frame.leafless (f : Frame T N P) : Bool :=
  f.tree.leaves.isEmpty

namespace Config

/-- The topmost frames without leaves, and the frame with leaves that they stand on. -/
def fresh : List (Frame T N P) → List (Frame T N P)
  | [] => []
  | f :: rest => if f.leafless then f :: fresh rest else [f]

/-- The frames below the topmost one with leaves. -/
def settled : List (Frame T N P) → List (Frame T N P)
  | [] => []
  | f :: rest => if f.leafless then settled rest else rest

variable {top below stack : List (Frame T N P)}

theorem fresh_append_settled (stack : List (Frame T N P)) :
    fresh stack ++ settled stack = stack := by
  induction stack with
  | nil => rfl
  | cons f rest ih =>
    unfold fresh settled
    split
    · rw [List.cons_append, ih]
    · rfl

/-- All fresh frames but the lowest have no leaves. -/
theorem exists_fresh_eq (stack : List (Frame T N P)) : ∃ top last, fresh stack = top ++ last ∧
    (∀ f ∈ top, f.leafless = true) ∧ last.length ≤ 1 := by
  induction stack with
  | nil => exact ⟨[], [], rfl, List.forall_mem_nil _, Nat.zero_le _⟩
  | cons f rest ih =>
    obtain ⟨top, last, hfresh, htop, hlast⟩ := ih
    unfold fresh
    split
    · rename_i hf
      exact ⟨f :: top, last, by rw [hfresh]; rfl, List.forall_mem_cons.mpr ⟨hf, htop⟩, hlast⟩
    · exact ⟨[], [f], rfl, List.forall_mem_nil _, Nat.le_refl _⟩

theorem settled_eq_nil (h : ∀ f ∈ fresh stack, f.leafless = true) : settled stack = [] := by
  induction stack with
  | nil => rfl
  | cons f rest ih =>
    unfold fresh at h
    unfold settled
    split at h
    · rename_i hf
      rw [if_pos hf]
      exact ih (List.forall_mem_cons.mp h).2
    · rename_i hf
      exact absurd (h f (List.mem_singleton.mpr rfl)) hf

theorem settled_append (h : ∀ f ∈ top, f.leafless = true) :
    settled (top ++ below) = settled below := by
  induction top with
  | nil => rfl
  | cons f rest ih =>
    rw [List.forall_mem_cons] at h
    rw [List.cons_append, settled, if_pos h.1, ih h.2]

theorem settled_suffix (h : ¬∀ f ∈ top, f.leafless = true) : below <:+ settled (top ++ below) := by
  induction top with
  | nil => exact absurd (List.forall_mem_nil _) h
  | cons f rest ih =>
    rw [List.cons_append, settled]
    split
    · rename_i hf
      exact ih fun hrest => h (List.forall_mem_cons.mpr ⟨hf, hrest⟩)
    · exact List.suffix_append rest below

/-- Where the state of a frame stands again below it, the stack can be split. -/
theorem exists_split_of_mem {f : Frame T N P} {rest : List (Frame T N P)}
    (h : f.state ∈ rest.map Frame.state ++ [stateOf below]) : ∃ upper lower, upper ≠ [] ∧
      upper <+: f :: rest ∧ f :: (rest ++ below) = upper ++ lower ∧ stateOf lower = f.state := by
  rw [List.mem_append, List.mem_singleton] at h
  rcases h with h | h
  · obtain ⟨u, hu, hstate⟩ := List.mem_map.mp h
    obtain ⟨above, under, rfl⟩ := List.append_of_mem hu
    exact ⟨f :: above, u :: (under ++ below), List.cons_ne_nil _ _, List.prefix_append _ _,
      by simp, hstate⟩
  · exact ⟨f :: rest, below, List.cons_ne_nil _ _, List.prefix_refl _, rfl, h.symm⟩

theorem leavesOf_split (stack : List (Frame T N P)) :
    Tree.leavesOf (stack.reverse.map Frame.tree) =
      Tree.leavesOf ((settled stack).reverse.map Frame.tree) ++
        Tree.leavesOf ((fresh stack).reverse.map Frame.tree) := by
  rw [← Tree.leavesOf_append, ← List.map_append, ← List.reverse_append, fresh_append_settled]

theorem leavesOf_eq_nil_iff : Tree.leavesOf (top.reverse.map Frame.tree) = [] ↔
    ∀ f ∈ top, f.leafless = true := by
  induction top with
  | nil => exact ⟨fun _ => List.forall_mem_nil _, fun _ => rfl⟩
  | cons f rest ih =>
    rw [List.reverse_cons, List.map_append, Tree.leavesOf_append, List.append_eq_nil_iff, ih,
      List.forall_mem_cons, and_comm, Frame.leafless, List.isEmpty_iff]
    simp [Tree.leavesOf]

/-- To put trees together does not unsettle what lies below. -/
theorem settled_node (stack : List (Frame T N P)) (state arity : Nat) (r : Rule T N P) :
    settled (⟨state, .node r ((stack.take arity).reverse.map Frame.tree)⟩ :: stack.drop arity) <:+
      settled stack := by
  have hsplit : settled stack = settled (stack.take arity ++ stack.drop arity) := by
    rw [List.take_append_drop]
  rw [hsplit, settled]
  split
  · rename_i hleafless
    rw [settled_append (leavesOf_eq_nil_iff.mp (List.isEmpty_iff.mp hleafless))]
  · rename_i hleafy
    exact settled_suffix fun hall => hleafy (List.isEmpty_iff.mpr (leavesOf_eq_nil_iff.mpr hall))

end Config

namespace Grammar

variable [DecidableEq T] [DecidableEq N] {g : Grammar T N P}

/-! ## Stacks of states -/

/-- A state is entered by one symbol only. -/
theorem symbol_eq_of_stateAfter_eq {before other : List (Symbol T N)} {x y : Symbol T N}
    (hx : x ∈ g.nextSymbols (g.stateAfter before))
    (h : g.stateAfter (before ++ [x]) = g.stateAfter (other ++ [y])) : x = y := by
  obtain ⟨item, hitem, hnext⟩ := mem_nextSymbols_stateAfter.mp hx
  have hmoved := mem_stateAfter_iff.mpr (hitem.advance hnext)
  rw [h] at hmoved
  obtain ⟨front, hfront, -⟩ := (mem_stateAfter_iff.mp hmoved).split
  rw [List.take_add_one, nextSymbol_eq_some_iff.mp hnext, Option.toList_some,
    ← List.append_assoc] at hfront
  exact (List.cons.inj (List.append_inj_right' hfront rfl)).1.symm

/-- The states on a stack tell its roots. -/
theorem Spells.roots_eq {stack other : List (Frame T N P)} (h : g.Spells stack)
    (h' : g.Spells other) (hstates : stack.map Frame.state = other.map Frame.state) :
    Config.roots stack = Config.roots other := by
  induction h generalizing other with
  | nil => rw [List.map_eq_nil_iff.mp hstates.symm]
  | @push stack t hstack hvalid hnext ih =>
    cases h' with
    | nil => cases hstates
    | @push other u hother huvalid hunext =>
      rw [List.map_cons, List.map_cons, List.cons.injEq] at hstates
      have hmem := (hstack.push hvalid hnext).mem_states
      rw [Config.roots_cons] at hmem
      have hstate := (List.idxOf_inj hmem).mp hstates.1
      rw [Config.roots_cons, Config.roots_cons, ih hother hstates.2,
        symbol_eq_of_stateAfter_eq hnext hstate]

theorem Spells.stateOf_lt {stack : List (Frame T N P)} (h : g.Spells stack) :
    Config.stateOf stack < g.states.length := by
  rw [h.stateOf_eq]
  exact List.idxOf_lt_length_of_mem h.mem_states

theorem Spells.state_lt {stack : List (Frame T N P)} (h : g.Spells stack) :
    ∀ f ∈ stack, f.state < g.states.length := by
  induction h with
  | nil => exact List.forall_mem_nil _
  | push hstack hvalid hnext ih =>
    exact List.forall_mem_cons.mpr ⟨(hstack.push hvalid hnext).stateOf_lt, ih⟩

theorem Spells.settled {stack : List (Frame T N P)} (h : g.Spells stack) :
    g.Spells (Config.settled stack) := by
  rw [← Config.fresh_append_settled stack] at h
  have hdrop := h.drop (Config.fresh stack).length
  rwa [List.drop_left] at hdrop

/-! ## The height of a stack -/

section Productive

variable {a : Automaton T N P} (hcompile : g.compile = .ok a) (hprod : g.Productive)
  (hfree : g.conflictFree = true)

include hcompile hprod hfree

theorem Spells.nodup_states {top below : List (Frame T N P)} (h : g.Spells (top ++ below))
    (htop : ∀ f ∈ top, f.leafless = true) :
    (top.map Frame.state ++ [Config.stateOf below]).Nodup := by
  induction top with
  | nil => exact List.nodup_singleton _
  | cons f rest ih =>
    rw [List.cons_append] at h
    rw [List.map_cons, List.cons_append, List.nodup_cons]
    refine ⟨fun hmem => ?_, ih (h.drop 1) (List.forall_mem_cons.mp htop).2⟩
    obtain ⟨upper, lower, hne, hupper, hsplit, hstate⟩ := Config.exists_split_of_mem hmem
    rw [hsplit] at h
    refine stateOf_ne_of_leafless hcompile hprod hfree h hne
      (Config.leavesOf_eq_nil_iff.mpr fun u hu => htop u (hupper.subset hu)) ?_
    rw [hstate, ← hsplit]
    rfl

/-- The fresh frames are no more than there are states. -/
theorem Spells.length_fresh_le {stack : List (Frame T N P)} (h : g.Spells stack) :
    (Config.fresh stack).length ≤ g.states.length := by
  obtain ⟨top, last, hfresh, htop, hlast⟩ := Config.exists_fresh_eq stack
  have hstack := Config.fresh_append_settled stack
  rw [hfresh, List.append_assoc] at hstack
  rw [← hstack] at h
  have hnodup := h.nodup_states hcompile hprod hfree htop
  have hbelow := h.drop top.length
  rw [List.drop_left] at hbelow
  have hsub : top.map Frame.state ++ [Config.stateOf (last ++ Config.settled stack)] ⊆
      List.range g.states.length := by
    intro s hs
    rw [List.mem_append, List.mem_singleton, List.mem_map] at hs
    rw [List.mem_range]
    rcases hs with ⟨f, hf, rfl⟩ | rfl
    · exact h.state_lt f (List.mem_append_left _ hf)
    · exact hbelow.stateOf_lt
  have hle := (List.subperm_of_subset hnodup hsub).length_le
  rw [List.length_append, List.length_map, List.length_singleton, List.length_range] at hle
  rw [hfresh, List.length_append]
  omega

/-- A stack is no higher than there are states for each leaf and once more. -/
theorem Spells.length_le {stack : List (Frame T N P)} (h : g.Spells stack) : stack.length ≤
    g.states.length * ((Tree.leavesOf (stack.reverse.map Frame.tree)).length + 1) := by
  induction hn : stack.length using Nat.strong_induction_on generalizing stack with
  | _ n ih =>
    subst hn
    have hfresh := h.length_fresh_le hcompile hprod hfree
    have hlength := congrArg List.length (Config.fresh_append_settled stack)
    rw [List.length_append] at hlength
    by_cases hleafless : ∀ f ∈ Config.fresh stack, f.leafless = true
    · rw [Config.settled_eq_nil hleafless, List.length_nil] at hlength
      have hone : g.states.length ≤ g.states.length *
          ((Tree.leavesOf (stack.reverse.map Frame.tree)).length + 1) :=
        Nat.le_mul_of_pos_right _ (Nat.succ_pos _)
      omega
    · have hpos : 0 < (Tree.leavesOf ((Config.fresh stack).reverse.map Frame.tree)).length :=
        List.length_pos_iff.mpr fun hnil => hleafless (Config.leavesOf_eq_nil_iff.mp hnil)
      have hfreshpos : 0 < (Config.fresh stack).length := by
        rw [List.length_pos_iff]
        exact fun hnil => hleafless (hnil ▸ List.forall_mem_nil _)
      have hbelow := ih _ (by omega) h.settled rfl
      have hleaves := congrArg List.length (Config.leavesOf_split stack)
      rw [List.length_append] at hleaves
      have hmul : g.states.length *
          ((Tree.leavesOf ((Config.settled stack).reverse.map Frame.tree)).length + 1 + 1) ≤
            g.states.length * ((Tree.leavesOf (stack.reverse.map Frame.tree)).length + 1) :=
        Nat.mul_le_mul_left _ (by omega)
      rw [Nat.mul_succ] at hmul
      omega

end Productive

/-! ## Steps -/

/-- A parse that was at `c` can come to `d`: it has taken tokens, or the frames settled are
settled still. -/
def Later (c d : Config T N P) : Prop :=
  d.input.length < c.input.length ∨
    d.input = c.input ∧ Config.settled d.stack <:+ Config.settled c.stack

omit [DecidableEq T] [DecidableEq N] in
theorem Later.trans {b c d : Config T N P} (h : Later b c) (h' : Later c d) : Later b d := by
  rcases h with h | ⟨hinput, hsettled⟩
  · rcases h' with h' | ⟨hinput', -⟩
    · exact .inl (h'.trans h)
    · exact .inl (hinput' ▸ h)
  · rcases h' with h' | ⟨hinput', hsettled'⟩
    · exact .inl (hinput ▸ h')
    · exact .inr ⟨hinput'.trans hinput, hsettled'.trans hsettled⟩

variable {failure : Option E} {finish : Nat} {tokens : List (Token T)} {c d : Config T N P}

/-- Each step builds one leaf or one node. -/
theorem Standing.step_later (h : g.Standing tokens c)
    (hstep : g.tables.step failure finish c = .next d) : Later c d ∧
      (Tree.leavesOf d.forest).length + Tree.nodesOf d.forest =
        (Tree.leavesOf c.forest).length + Tree.nodesOf c.forest + 1 := by
  have heffect := h.effect failure finish
  rw [hstep] at heffect
  cases heffect with
  | @shift stack token rest state haction hpush =>
    refine ⟨.inl (Nat.lt_succ_self rest.length), ?_⟩
    rw [Config.forest_push, Tree.leavesOf_append, Tree.nodesOf_append, List.length_append]
    show _ + 1 + (_ + 0) = (Tree.leavesOf (stack.reverse.map Frame.tree)).length +
      Tree.nodesOf (stack.reverse.map Frame.tree) + 1
    omega
  | @reduce stack input r state haction hlength hpush =>
    refine ⟨.inr ⟨rfl, Config.settled_node stack state r.rhs.length r⟩, ?_⟩
    rw [Config.forest_push, Config.forest_split stack input r.rhs.length]
    simp only [Tree.leavesOf_append, Tree.nodesOf_append, Tree.leavesOf, Tree.nodesOf, Tree.leaves,
      Tree.nodes, List.append_nil, List.length_append]
    omega

end Grammar

/-! ## Endless runs -/

namespace Automaton

variable [DecidableEq T] [DecidableEq N] {a : Automaton T N P} {failure : Option E} {finish : Nat}

theorem step_ne_endless {c : Config T N P} {forest : List (Tree T N P)} :
    a.step failure finish c ≠ .done (.endless forest) := by
  unfold step
  dsimp only
  split
  · exact fun h => nomatch h
  · split
    · split
      · unfold shift
        split <;> exact fun h => nomatch h
      · unfold reduce
        dsimp only
        split <;> exact fun h => nomatch h
      · unfold accept
        split <;> exact fun h => nomatch h
      · exact fun h => nomatch h
      · exact fun h => nomatch h
    · exact fun h => nomatch h

/-- A parse that does not end goes through as many configurations as it has fuel. -/
theorem exists_steps_of_endless {fuel : Nat} {c : Config T N P} {forest : List (Tree T N P)}
    (h : a.run failure finish fuel c = .endless forest) : ∃ config : Nat → Config T N P,
      config 0 = c ∧ ∀ i < fuel, a.step failure finish (config i) = .next (config (i + 1)) := by
  induction fuel generalizing c with
  | zero => exact ⟨fun _ => c, rfl, fun i hi => absurd hi (Nat.not_lt_zero i)⟩
  | succ fuel ih =>
    unfold run at h
    cases hstep : a.step failure finish c with
    | done outcome =>
      rw [hstep] at h
      subst h
      exact absurd hstep step_ne_endless
    | next d =>
      rw [hstep] at h
      obtain ⟨config, hzero, hsteps⟩ := ih h
      refine ⟨fun i => Nat.casesOn i c config, rfl, fun i hi => ?_⟩
      cases i with
      | zero => rw [← hzero] at hstep; exact hstep
      | succ i => exact hsteps i (Nat.lt_of_succ_lt_succ hi)

end Automaton

/-! ## Counting -/

/-- A short list of numbers below `bound` as a function. -/
def codeOf (bound : Nat) (l : List Nat) : Fin bound → Fin (bound + 1) :=
  fun i => Fin.ofNat (bound + 1) (l.getD i bound)

theorem getD_lt {bound : Nat} {l : List Nat} (h : ∀ x ∈ l, x < bound) (i : Nat) :
    l.getD i bound < bound + 1 := by
  rw [List.getD_eq_getElem?_getD]
  cases hi : l[i]? with
  | none => exact Nat.lt_succ_self bound
  | some x => exact (h x (List.mem_of_getElem? hi)).trans (Nat.lt_succ_self bound)

/-- The bound stands for what the list does not have. -/
theorem getElem?_eq_of_getD {bound : Nat} {l : List Nat} (h : ∀ x ∈ l, x < bound) (i : Nat) :
    l[i]? = if l.getD i bound < bound then some (l.getD i bound) else none := by
  rw [List.getD_eq_getElem?_getD]
  cases hi : l[i]? with
  | none => rw [Option.getD_none, if_neg (Nat.lt_irrefl bound)]
  | some x => rw [Option.getD_some, if_pos (h x (List.mem_of_getElem? hi))]

theorem eq_of_codeOf_eq {bound : Nat} {l m : List Nat} (hl : l.length ≤ bound)
    (hm : m.length ≤ bound) (hlt : ∀ x ∈ l, x < bound) (hmt : ∀ x ∈ m, x < bound)
    (h : codeOf bound l = codeOf bound m) : l = m := by
  apply List.ext_getElem?
  intro i
  by_cases hi : i < bound
  · have hcode := congrArg Fin.val (congrFun h ⟨i, hi⟩)
    unfold codeOf at hcode
    rw [Fin.val_ofNat, Fin.val_ofNat, Nat.mod_eq_of_lt (getD_lt hlt i),
      Nat.mod_eq_of_lt (getD_lt hmt i)] at hcode
    rw [getElem?_eq_of_getD hlt, getElem?_eq_of_getD hmt, hcode]
  · rw [List.getElem?_eq_none (by omega), List.getElem?_eq_none (by omega)]

/-- What a configuration is known by: how many tokens are left, how many frames are settled, and
the states of the fresh ones. -/
@[ext]
structure Key where
  left : Nat
  settled : Nat
  states : List Nat

/-- Keys are short lists of small numbers. -/
structure Key.Within (k : Key) (left settled bound : Nat) : Prop where
  left_le : k.left ≤ left
  settled_le : k.settled ≤ settled
  length_le : k.states.length ≤ bound
  state_lt : ∀ x ∈ k.states, x < bound

/-- A parse whose configurations are all known by different keys has no more of them than there are
keys. -/
theorem length_le_of_keys {steps left settled bound : Nat} (key : Nat → Key)
    (hwithin : ∀ i ≤ steps, (key i).Within left settled bound)
    (hinj : ∀ i j, i < j → j ≤ steps → key i ≠ key j) :
    steps + 1 ≤ (left + 1) * ((settled + 1) * (bound + 1) ^ bound) := by
  have hmem : ∀ i : Fin (steps + 1), (key i).Within left settled bound :=
    fun i => hwithin i (Nat.le_of_lt_succ i.isLt)
  let code (i : Fin (steps + 1)) :
      Fin (left + 1) × Fin (settled + 1) × (Fin bound → Fin (bound + 1)) :=
    (⟨(key i).left, Nat.lt_succ_of_le (hmem i).left_le⟩,
      ⟨(key i).settled, Nat.lt_succ_of_le (hmem i).settled_le⟩, codeOf bound (key i).states)
  have hcode : Function.Injective code := by
    intro i j hij
    have hkey : key i = key j := Key.ext (congrArg (fun c => c.1.val) hij)
      (congrArg (fun c => c.2.1.val) hij)
      (eq_of_codeOf_eq (hmem i).length_le (hmem j).length_le (hmem i).state_lt (hmem j).state_lt
        (congrArg (fun c => c.2.2) hij))
    rcases Nat.lt_trichotomy i.val j.val with hlt | heq | hlt
    · exact absurd hkey (hinj i j hlt (Nat.le_of_lt_succ j.isLt))
    · exact Fin.ext heq
    · exact absurd hkey.symm (hinj j i hlt (Nat.le_of_lt_succ i.isLt))
  have hcard := Fintype.card_le_of_injective code hcode
  simpa only [Fintype.card_prod, Fintype.card_fin, Fintype.card_fun] using hcard

namespace Grammar

variable [DecidableEq T] [DecidableEq N] {g : Grammar T N P} {a : Automaton T N P}

/-- The key of a configuration. -/
def keyOf (c : Config T N P) : Key :=
  ⟨c.input.length, (Config.settled c.stack).length, (Config.fresh c.stack).map Frame.state⟩

/-- Two configurations of one parse that have one key are of one size. -/
theorem size_eq_of_keyOf_eq (hcompile : g.compile = .ok a) (hprod : g.Productive)
    (hfree : g.conflictFree = true) {tokens : List (Token T)} {c d : Config T N P}
    (hc : g.Standing tokens c) (hd : g.Standing tokens d) (hlater : Later c d)
    (hkey : keyOf c = keyOf d) :
    (Tree.leavesOf c.forest).length + Tree.nodesOf c.forest =
      (Tree.leavesOf d.forest).length + Tree.nodesOf d.forest := by
  have hleft := congrArg Key.left hkey
  have hsettled := congrArg Key.settled hkey
  have hfresh := congrArg Key.states hkey
  unfold keyOf at hleft hsettled hfresh
  dsimp only at hleft hsettled hfresh
  rcases hlater with hlt | ⟨hinput, hsuffix⟩
  · omega
  · have hstates : c.stack.map Frame.state = d.stack.map Frame.state := by
      rw [← Config.fresh_append_settled c.stack, ← Config.fresh_append_settled d.stack,
        List.map_append, List.map_append, hfresh, hsuffix.eq_of_length hsettled.symm]
    have hroots := hc.spells.roots_eq hd.spells hstates
    have hnodes := nodesOf_forest_eq hcompile hprod hfree hc hd hinput.symm hroots
    have hleaves := congrArg List.length (hc.leaves.trans hd.leaves.symm)
    rw [List.length_append, List.length_append] at hleaves
    omega

/-- There are not as many keys as the parse may take steps. -/
theorem keys_le_stepBound (g : Grammar T N P) (n : Nat) :
    (n + 1) * ((g.states.length * (n + 1) + 1) * (g.states.length + 1) ^ g.states.length) ≤
      g.tables.stepBound n := by
  have hrows : g.tables.rows.length = g.states.length := List.length_map _
  unfold Automaton.stepBound
  rw [hrows]
  generalize g.states.length = r
  have hheight : r * (n + 1) + 1 ≤ (n + 2) * (r + 2) := by
    have hmul : r * (n + 1) ≤ (n + 2) * r := by
      rw [Nat.mul_comm]
      exact Nat.mul_le_mul_right r (Nat.le_succ (n + 1))
    rw [Nat.mul_add (n + 2)]
    omega
  have hpow : (r + 1) ^ r ≤ (r + 2) ^ (r + 2) :=
    (Nat.pow_le_pow_left (Nat.le_succ _) r).trans
      (Nat.pow_le_pow_right (Nat.succ_pos _) (Nat.le_add_right r 2))
  calc (n + 1) * ((r * (n + 1) + 1) * (r + 1) ^ r)
      ≤ (n + 2) * ((n + 2) * (r + 2) * (r + 2) ^ (r + 2)) :=
        Nat.mul_le_mul (Nat.le_succ _) (Nat.mul_le_mul hheight hpow)
    _ = (n + 2) * (n + 2) * (r + 2) ^ (r + 3) := by
        rw [Nat.pow_succ _ (r + 2)]
        ring

section Steps

variable {failure : Option E} {finish : Nat} {tokens : List (Token T)} {steps : Nat}
  {config : Nat → Config T N P}

/-- Each of the steps of a parse adds one leaf or one node. -/
theorem standing_of_steps (hzero : config 0 = .initial tokens)
    (hsteps : ∀ i < steps, g.tables.step failure finish (config i) = .next (config (i + 1))) :
    ∀ i ≤ steps, g.Standing tokens (config i) ∧
      (Tree.leavesOf (config i).forest).length + Tree.nodesOf (config i).forest = i := by
  intro i
  induction i with
  | zero => exact fun _ => hzero ▸ ⟨standing_initial g tokens, rfl⟩
  | succ i ih =>
    intro hi
    obtain ⟨hbefore, hsize⟩ := ih (Nat.le_of_succ_le hi)
    refine ⟨(hbefore.step (hsteps i hi)).1, ?_⟩
    rw [(hbefore.step_later (hsteps i hi)).2, hsize]

theorem later_of_steps (hzero : config 0 = .initial tokens)
    (hsteps : ∀ i < steps, g.tables.step failure finish (config i) = .next (config (i + 1)))
    {i j : Nat} (hij : i < j) : j ≤ steps → Later (config i) (config j) := by
  have hstep : ∀ i < steps, Later (config i) (config (i + 1)) := fun i hi =>
    ((standing_of_steps hzero hsteps i (Nat.le_of_lt hi)).1.step_later (hsteps i hi)).1
  induction hij with
  | refl => exact hstep i
  | step _ ih => exact fun hj => (ih (Nat.le_of_succ_le hj)).trans (hstep _ hj)

end Steps

section Parse

variable (hcompile : g.compile = .ok a) (hprod : g.Productive) (hfree : g.conflictFree = true)

include hcompile hprod hfree

theorem Standing.keyOf_within {tokens : List (Token T)} {c : Config T N P}
    (h : g.Standing tokens c) : (keyOf c).Within tokens.length
      (g.states.length * (tokens.length + 1)) g.states.length := by
  have hleaves := congrArg List.length h.leaves
  have hstack := Config.fresh_append_settled c.stack
  rw [List.length_append] at hleaves
  constructor
  · exact hleaves ▸ Nat.le_add_left _ _
  · have hmono : g.states.length *
        ((Tree.leavesOf (c.stack.reverse.map Frame.tree)).length + 1) ≤
          g.states.length * (tokens.length + 1) := by
      refine Nat.mul_le_mul_left _ (Nat.succ_le_succ ?_)
      rw [← hleaves]
      exact Nat.le_add_right _ _
    have hsettled : (Config.settled c.stack).length ≤ c.stack.length :=
      List.IsSuffix.length_le ⟨_, hstack⟩
    exact hsettled.trans ((h.spells.length_le hcompile hprod hfree).trans hmono)
  · show ((Config.fresh c.stack).map Frame.state).length ≤ _
    rw [List.length_map]
    exact h.spells.length_fresh_le hcompile hprod hfree
  · intro x hx
    obtain ⟨f, hf, rfl⟩ := List.mem_map.mp hx
    exact h.spells.state_lt f (hstack ▸ List.mem_append_left _ hf)

/-- A conflict-free grammar whose nonterminals all derive something parses every source to an
end. -/
theorem parse_ne_endless (source : Source T E) (finish : Nat) (forest : List (Tree T N P)) :
    g.tables.parse source finish ≠ .endless forest := by
  intro hendless
  obtain ⟨config, hzero, hsteps⟩ := Automaton.exists_steps_of_endless hendless
  have hstanding := standing_of_steps hzero hsteps
  have hcount : g.tables.stepBound source.tokens.length + 1 ≤ (source.tokens.length + 1) *
      ((g.states.length * (source.tokens.length + 1) + 1) *
        (g.states.length + 1) ^ g.states.length) := by
    refine length_le_of_keys (fun i => keyOf (config i))
      (fun i hi => (hstanding i hi).1.keyOf_within hcompile hprod hfree) fun i j hij hj hkey => ?_
    obtain ⟨hi, hisize⟩ := hstanding i (hij.trans_le hj).le
    obtain ⟨hj', hjsize⟩ := hstanding j hj
    have hsize := size_eq_of_keyOf_eq hcompile hprod hfree hi hj'
      (later_of_steps hzero hsteps hij hj) hkey
    omega
  have hbound := keys_le_stepBound g source.tokens.length
  omega

end Parse

end Grammar

end SchemaBridge
