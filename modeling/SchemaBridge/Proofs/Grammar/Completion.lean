/-
  Every stack of a parse can be completed to a sentence. An item that is viable behind the stack
  says which symbols are still to come in its rule, and the item that it was expanded from says the
  same of the rule above; a productive grammar has words for all of them. Without conflicts the
  parse of the completed sentence goes through the very same stack. So a stack that the parser
  could build again and again would be built for ever in the parse of a sentence, and a stack that
  is built in two ways would give a sentence two derivations.
  Main results: `exists_completion`, `IsDerivation.eq`, `nodesOf_forest_eq` and
  `stateOf_ne_of_leafless`.
-/
import SchemaBridge.Proofs.Grammar.Language
import SchemaBridge.Proofs.Grammar.Soundness

namespace SchemaBridge

variable {T N P E : Type}

theorem Tree.nodesOf_append (ts us : List (Tree T N P)) :
    nodesOf (ts ++ us) = nodesOf ts + nodesOf us := by
  induction ts with
  | nil => exact (Nat.zero_add _).symm
  | cons t rest ih => rw [List.cons_append, nodesOf, ih, nodesOf, Nat.add_assoc]

/-- Trees without leaves are nodes. -/
theorem Tree.nodesOf_pos {ts : List (Tree T N P)} (hne : ts ≠ []) (h : leavesOf ts = []) :
    0 < nodesOf ts := by
  cases ts with
  | nil => exact absurd rfl hne
  | cons t rest =>
    cases t with
    | leaf token => cases h
    | node r children => exact Nat.add_pos_left (Nat.succ_pos _) _

theorem Config.stateOf_append {top : List (Frame T N P)} (h : top ≠ [])
    (below : List (Frame T N P)) : stateOf (top ++ below) = stateOf top := by
  cases top with
  | nil => exact absurd rfl h
  | cons => rfl

namespace Grammar

variable [DecidableEq T] [DecidableEq N] {g : Grammar T N P}

/-! ## Lookaheads between trees -/

/-- What stands behind each of the trees, `input` behind the last, can follow its root. -/
def Fits (g : Grammar T N P) : List (Tree T N P) → List (Token T) → Prop
  | [], _ => True
  | t :: rest, input =>
    (∀ n, t.root = .nonterminal n →
      (Tree.leavesOf rest ++ input).head?.map Token.kind ∈ g.follow n) ∧ Fits g rest input

theorem fits_append {ts us : List (Tree T N P)} {input : List (Token T)} :
    g.Fits (ts ++ us) input ↔ g.Fits ts (Tree.leavesOf us ++ input) ∧ g.Fits us input := by
  induction ts with
  | nil => exact ⟨fun h => ⟨trivial, h⟩, And.right⟩
  | cons t rest ih =>
    rw [List.cons_append, Fits, Fits, ih, Tree.leavesOf_append, List.append_assoc, and_assoc]

/-- What can stand behind a rule: the end of the input behind rule zero, and what follows the head
behind another. -/
def Ends (g : Grammar T N P) : Nat → List (Token T) → Prop
  | 0, input => input = []
  | i + 1, input => ∀ r, g.rules[i]? = some r → input.head?.map Token.kind ∈ g.follow r.lhs

/-- What stands behind a nonterminal in a rule can follow it. -/
theorem Ends.follow {i : Nat} {input : List (Token T)} (h : g.Ends i input)
    (before : List (Symbol T N)) {n : N} {ts : List (Tree T N P)}
    (hvalid : ∀ t ∈ ts, t.Valid g.rules)
    (hrhs : g.rhsOf i = before ++ .nonterminal n :: ts.map Tree.root) :
    (Tree.leavesOf ts ++ input).head?.map Token.kind ∈ g.follow n := by
  cases i with
  | zero =>
    obtain ⟨rfl, hrest⟩ : before = [] ∧ _ := by
      rw [rhsOf, List.singleton_eq_append_iff] at hrhs
      rcases hrhs with ⟨hnil, hrest⟩ | ⟨-, hrest⟩
      · exact ⟨hnil, hrest⟩
      · cases hrest
    rw [List.cons.injEq, Symbol.nonterminal.injEq, List.map_eq_nil_iff] at hrest
    obtain ⟨rfl, rfl⟩ := hrest
    have hnil : input = [] := h
    rw [hnil]
    exact none_mem_follow_start
  | succ i =>
    cases hr : g.rules[i]? with
    | none =>
      rw [rhsOf, hr] at hrhs
      exact absurd hrhs.symm (List.append_ne_nil_of_right_ne_nil _ (List.cons_ne_nil _ _))
    | some r =>
      rw [rhsOf_succ hr] at hrhs
      exact mem_follow_of_forest (List.mem_of_getElem? hr) hvalid hrhs (h r hr)

/-! ## Completions -/

/-- Whatever trees stand for the symbols, together with the tokens they are a sentence. Its
derivation has `extra` nodes besides those of the trees. -/
def Completes (g : Grammar T N P) (symbols : List (Symbol T N)) (more : List (Token T))
    (extra : Nat) : Prop :=
  ∀ past : List (Tree T N P), (∀ t ∈ past, t.Valid g.rules) → past.map Tree.root = symbols →
    g.Fits past more ∧ ∃ t, g.IsDerivation (Tree.leavesOf past ++ more) t ∧
      t.nodes = Tree.nodesOf past + extra

omit [DecidableEq T] [DecidableEq N] in
theorem drop_of_nextSymbol {item : Item} {x : Symbol T N} (hx : g.nextSymbol item = some x) :
    (g.rhsOf item.rule).drop item.dot = x :: (g.rhsOf item.rule).drop (item.dot + 1) := by
  obtain ⟨hlt, rfl⟩ := List.getElem?_eq_some_iff.mp (nextSymbol_eq_some_iff.mp hx)
  exact List.drop_eq_getElem_cons hlt

omit [DecidableEq T] [DecidableEq N] in
theorem mem_trees_iff {stack : List (Frame T N P)} {t : Tree T N P} :
    t ∈ stack.reverse.map Frame.tree ↔ ∃ f ∈ stack, f.tree = t := by
  rw [List.mem_map]
  exact ⟨fun ⟨f, hf, ht⟩ => ⟨f, List.mem_reverse.mp hf, ht⟩,
    fun ⟨f, hf, ht⟩ => ⟨f, List.mem_reverse.mpr hf, ht⟩⟩

theorem Spells.valid_trees {stack : List (Frame T N P)} (h : g.Spells stack) :
    ∀ t ∈ stack.reverse.map Frame.tree, t.Valid g.rules := by
  intro t ht
  obtain ⟨f, hf, rfl⟩ := mem_trees_iff.mp ht
  exact h.valid f hf

omit [DecidableEq T] [DecidableEq N] in
theorem IsDerivation.known {tokens : List (Token T)} {t : Tree T N P}
    (ht : g.IsDerivation tokens t) : g.Known tokens := by
  rw [← ht.leaves_eq]
  refine kind_mem_terminals t ht.valid fun k hk => ?_
  rw [ht.root_eq] at hk
  cases hk

section Productive

variable {a : Automaton T N P} (hcompile : g.compile = .ok a) (hprod : g.Productive)

include hcompile hprod

theorem exists_forest_drop (i dot : Nat) : ∃ ts : List (Tree T N P),
    (∀ t ∈ ts, t.Valid g.rules) ∧ ts.map Tree.root = (g.rhsOf i).drop dot :=
  hprod.exists_forest fun _ hn => mem_heads_of_compile hcompile (List.mem_of_mem_drop hn)

/-- The tokens that complete an item and all that it is a part of do not depend on the trees on the
stack, nor on those that complete its rule. -/
theorem Viable.exists_rest {symbols : List (Symbol T N)} {item : Item}
    (h : g.Viable symbols item) : ∃ more extra, g.Ends item.rule more ∧
      ∀ ts : List (Tree T N P), (∀ t ∈ ts, t.Valid g.rules) →
        ts.map Tree.root = (g.rhsOf item.rule).drop item.dot →
          g.Completes symbols (Tree.leavesOf ts ++ more) (Tree.nodesOf ts + extra) := by
  induction h with
  | start =>
    refine ⟨[], 0, rfl, fun ts hts hroots past _ hpast => ?_⟩
    rw [List.map_eq_nil_iff] at hpast
    obtain ⟨t, rfl, hroot⟩ := List.map_eq_singleton_iff.mp hroots
    subst hpast
    refine ⟨trivial, t, ⟨hts t (List.mem_singleton.mpr rfl), hroot, ?_⟩, ?_⟩
    · simp [Tree.leavesOf]
    · simp [Tree.nodesOf]
  | @advance before item x _ hx ih =>
    obtain ⟨more, extra, hends, hrest⟩ := ih
    refine ⟨more, extra, hends, fun ts hts hroots past hpast hsymbols => ?_⟩
    obtain ⟨front, last, rfl, hfront, hlast⟩ := List.map_eq_append_iff.mp hsymbols
    obtain ⟨p, rfl, hp⟩ := List.map_eq_singleton_iff.mp hlast
    rw [List.forall_mem_append, List.forall_mem_singleton] at hpast
    have hwhole : (p :: ts).map Tree.root = (g.rhsOf item.rule).drop item.dot := by
      rw [drop_of_nextSymbol hx, List.map_cons, hp, hroots]
    obtain ⟨hfits, t, ht, hnodes⟩ := hrest (p :: ts) (List.forall_mem_cons.mpr ⟨hpast.2, hts⟩)
      hwhole front hpast.1 hfront
    refine ⟨fits_append.mpr ⟨?_, fun n hn => ?_, trivial⟩, t, ?_, ?_⟩
    · simpa [Tree.leavesOf] using hfits
    · refine hends.follow ((g.rhsOf item.rule).take item.dot) hts ?_
      rw [← hn, ← List.map_cons, hwhole, List.take_append_drop]
    · simpa [Tree.leavesOf, Tree.leavesOf_append] using ht
    · rw [hnodes, Tree.nodesOf_append]
      simp only [Tree.nodesOf]
      omega
  | @expand before item i r _ hr hx ih =>
    obtain ⟨more, extra, hends, hrest⟩ := ih
    obtain ⟨back, hback, hbackroots⟩ := exists_forest_drop hcompile hprod item.rule (item.dot + 1)
    refine ⟨Tree.leavesOf back ++ more, Tree.nodesOf back + 1 + extra, fun q hq => ?_,
      fun ts hts hroots past hpast hsymbols => ?_⟩
    · rw [hr] at hq
      cases hq
      refine hends.follow ((g.rhsOf item.rule).take item.dot) hback ?_
      rw [hbackroots, ← drop_of_nextSymbol hx, List.take_append_drop]
    · rw [rhsOf_succ hr, List.drop_zero] at hroots
      have hnode : (Tree.node r ts).Valid g.rules :=
        ⟨List.mem_of_getElem? hr, hroots, Tree.validAll_iff.mpr hts⟩
      obtain ⟨hfits, t, ht, hnodes⟩ := hrest (.node r ts :: back)
        (List.forall_mem_cons.mpr ⟨hnode, hback⟩)
        (by rw [drop_of_nextSymbol hx, List.map_cons, hbackroots]; rfl) past hpast hsymbols
      rw [Tree.leavesOf, Tree.leaves, List.append_assoc] at hfits ht
      refine ⟨hfits, t, ht, ?_⟩
      rw [hnodes, Tree.nodesOf, Tree.nodes]
      omega

/-- Every stack can be completed. -/
theorem exists_completion {stack : List (Frame T N P)} (h : g.Spells stack) :
    ∃ more extra, g.Completes (Config.roots stack) more extra := by
  obtain ⟨item, hitem⟩ : ∃ item, g.Viable (Config.roots stack) item := by
    cases h with
    | nil => exact ⟨_, .start⟩
    | push _ _ hnext =>
      obtain ⟨item, hitem, hx⟩ := mem_nextSymbols_stateAfter.mp hnext
      rw [Config.roots_cons]
      exact ⟨_, hitem.advance hx⟩
  obtain ⟨more, extra, -, hrest⟩ := hitem.exists_rest hcompile hprod
  obtain ⟨ts, hts, hroots⟩ := exists_forest_drop hcompile hprod item.rule item.dot
  exact ⟨_, _, hrest ts hts hroots⟩

/-- The tokens a parse has taken begin a sentence. -/
theorem Standing.begins {tokens : List (Token T)} {c : Config T N P} (h : g.Standing tokens c) :
    Begins g.language ((Tree.leavesOf c.forest).map Token.kind) := by
  obtain ⟨more, extra, hcompletes⟩ := exists_completion hcompile hprod h.spells
  obtain ⟨-, t, ht, -⟩ := hcompletes c.forest h.spells.valid_trees (Config.map_root_trees _)
  exact begins_iff.mpr ⟨more, t, ht⟩

end Productive

/-! ## Conflict-free grammars -/

section ConflictFree

variable (hfree : g.conflictFree = true)

include hfree

/-- A sentence has one derivation only. -/
theorem IsDerivation.eq {tokens : List (Token T)} {t u : Tree T N P}
    (ht : g.IsDerivation tokens t) (hu : g.IsDerivation tokens u) : t = u := by
  have hrun : ∀ v, g.IsDerivation tokens v → v.steps < t.steps + u.steps + 1 →
      g.tables.run (none : Option Empty) 0 (t.steps + u.steps + 1) (.initial tokens) =
        .accepted v := by
    intro v hv hlt
    rw [← hv.leaves_eq]
    exact run_accepts hfree hv.valid hv.root_eq 0 _ hlt
  have hsame := (hrun t ht (by omega)).symm.trans (hrun u hu (by omega))
  exact ParseOutcome.accepted.inj hsame

/-- The steps of the parse of a sentence are limited. -/
theorem IsDerivation.steps_le {tokens : List (Token T)} {t : Tree T N P}
    (ht : g.IsDerivation tokens t) {n finish : Nat} {c : Config T N P}
    (h : Automaton.Steps (E := Empty) g.tables finish n (.initial tokens) c) : n ≤ t.steps := by
  by_contra hlt
  have haccepts := run_accepts (E := Empty) hfree ht.valid ht.root_eq finish n (by omega)
  have hendless := Automaton.run_of_steps h 0
  rw [Nat.add_zero, ← ht.leaves_eq, haccepts, Automaton.run] at hendless
  cases hendless

/-- Frames that were put on a stack are put on each stack of the same state again, if the tokens
of their trees come again and what follows fits. -/
theorem Spells.steps {top below : List (Frame T N P)} (h : g.Spells (top ++ below))
    {other : List (Frame T N P)} (hstate : Config.stateOf other = Config.stateOf below)
    {input : List (Token T)} (hfits : g.Fits (top.reverse.map Frame.tree) input)
    (hknown : g.Known (Tree.leavesOf (top.reverse.map Frame.tree) ++ input)) (finish : Nat) :
    Automaton.Steps (E := E) g.tables finish
      ((Tree.leavesOf (top.reverse.map Frame.tree)).length +
        Tree.nodesOf (top.reverse.map Frame.tree))
      ⟨other, Tree.leavesOf (top.reverse.map Frame.tree) ++ input⟩ ⟨top ++ other, input⟩ := by
  induction top generalizing input with
  | nil => exact .refl _
  | cons f top ih =>
    rw [List.cons_append] at h
    cases h with
    | @push _ t hstack hvalid hnext =>
      simp only [List.reverse_cons, List.map_append, List.map_singleton, Tree.leavesOf_append,
        Tree.nodesOf_append, fits_append, Tree.leavesOf, Tree.nodesOf, List.append_assoc,
        List.append_nil, Nat.add_zero] at hfits hknown ⊢
      obtain ⟨hfits, hlast⟩ := hfits
      have hbelow := ih hstack hfits hknown
      have hsame : Config.stateOf (top ++ other) = Config.stateOf (top ++ below) := by
        cases top with
        | nil => exact hstate
        | cons => rfl
      have hone := tree_runs (E := E) hfree t hvalid (top ++ other) input finish _
        hstack.mem_states (hsame.trans hstack.stateOf_eq) hnext
        (fun u hu => hknown u (List.mem_append_right _ hu)) fun n hn => hlast.1 n hn
      rw [← stateAfter_append_singleton] at hone
      have hsize : (Tree.leavesOf (top.reverse.map Frame.tree) ++ t.leaves).length +
          (Tree.nodesOf (top.reverse.map Frame.tree) + t.nodes) =
          (Tree.leavesOf (top.reverse.map Frame.tree)).length +
            Tree.nodesOf (top.reverse.map Frame.tree) + t.steps := by
        rw [List.length_append, Tree.steps]
        omega
      rw [hsize, List.cons_append]
      exact hbelow.trans hone

/-- Frames without leaves that lead back to the state below them are put on the stack any number of
times. -/
theorem Spells.steps_again {top below : List (Frame T N P)} (h : g.Spells (top ++ below))
    (hne : top ≠ []) (hleaves : Tree.leavesOf (top.reverse.map Frame.tree) = [])
    (hstate : Config.stateOf (top ++ below) = Config.stateOf below) {input : List (Token T)}
    (hfits : g.Fits (top.reverse.map Frame.tree) input) (hknown : g.Known input) (finish : Nat) :
    ∀ j : Nat, ∃ stack, Config.stateOf stack = Config.stateOf below ∧
      Automaton.Steps (E := E) g.tables finish (j * Tree.nodesOf (top.reverse.map Frame.tree))
        ⟨below, input⟩ ⟨stack, input⟩ := by
  intro j
  induction j with
  | zero => exact ⟨below, rfl, by rw [Nat.zero_mul]; exact .refl _⟩
  | succ j ih =>
    obtain ⟨stack, hsame, hsteps⟩ := ih
    have hagain := h.steps (E := E) hfree hsame hfits (by rwa [hleaves]) finish
    rw [hleaves, List.nil_append, List.length_nil, Nat.zero_add] at hagain
    refine ⟨top ++ stack, ?_, ?_⟩
    · rw [Config.stateOf_append hne, ← hstate, Config.stateOf_append hne]
    · rw [Nat.succ_mul]
      exact hsteps.trans hagain

end ConflictFree

section Recurrence

variable {a : Automaton T N P} (hcompile : g.compile = .ok a) (hprod : g.Productive)
  (hfree : g.conflictFree = true)

include hcompile hprod hfree

/-- Two stacks with the same roots over the same tokens are built in the same number of steps. -/
theorem nodesOf_forest_eq {tokens : List (Token T)} {c d : Config T N P}
    (hc : g.Standing tokens c) (hd : g.Standing tokens d) (hinput : c.input = d.input)
    (hroots : Config.roots c.stack = Config.roots d.stack) :
    Tree.nodesOf c.forest = Tree.nodesOf d.forest := by
  obtain ⟨more, extra, hcompletes⟩ := exists_completion hcompile hprod hc.spells
  obtain ⟨-, t, ht, htnodes⟩ := hcompletes c.forest hc.spells.valid_trees (Config.map_root_trees _)
  obtain ⟨-, u, hu, hunodes⟩ := hcompletes d.forest hd.spells.valid_trees
    ((Config.map_root_trees _).trans hroots.symm)
  have hleaves : Tree.leavesOf c.forest = Tree.leavesOf d.forest := by
    have hsame := hc.leaves.trans hd.leaves.symm
    rw [hinput] at hsame
    exact List.append_cancel_right hsame
  rw [hleaves] at ht
  rw [ht.eq hfree hu] at htnodes
  omega

/-- Frames without leaves do not lead back to the state below them: they would do so again and
again, and the parse of a sentence would not end. -/
theorem stateOf_ne_of_leafless {top below : List (Frame T N P)} (h : g.Spells (top ++ below))
    (hne : top ≠ []) (hleaves : Tree.leavesOf (top.reverse.map Frame.tree) = []) :
    Config.stateOf (top ++ below) ≠ Config.stateOf below := by
  intro hstate
  obtain ⟨more, extra, hcompletes⟩ := exists_completion hcompile hprod h
  obtain ⟨hfits, t, ht, -⟩ := hcompletes _ h.valid_trees (Config.map_root_trees _)
  rw [List.reverse_append, List.map_append, fits_append, hleaves, List.nil_append] at hfits
  rw [List.reverse_append, List.map_append, Tree.leavesOf_append, hleaves, List.append_nil] at ht
  have hbelow : g.Spells (below ++ []) := by
    have hdrop := h.drop top.length
    rwa [List.drop_left, ← List.append_nil below] at hdrop
  have hempty : Config.stateOf ([] : List (Frame T N P)) = Config.stateOf [] := rfl
  have hstart := hbelow.steps (E := Empty) hfree hempty hfits.1 ht.known 0
  rw [List.append_nil] at hstart
  obtain ⟨stack, -, hsteps⟩ := h.steps_again (E := Empty) hfree hne hleaves hstate hfits.2
    (fun u hu => ht.known u (List.mem_append_right _ hu)) 0 (t.steps + 1)
  have hlimit := ht.steps_le hfree (hstart.trans hsteps)
  have hpos : 0 < Tree.nodesOf (top.reverse.map Frame.tree) := by
    refine Tree.nodesOf_pos (fun hnil => hne ?_) hleaves
    rwa [List.map_eq_nil_iff, List.reverse_eq_nil_iff] at hnil
  have hmany := Nat.le_mul_of_pos_right (t.steps + 1) hpos
  omega

end Recurrence

end Grammar

end SchemaBridge
