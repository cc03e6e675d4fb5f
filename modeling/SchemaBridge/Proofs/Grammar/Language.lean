/-
  What a grammar derives. A derivation step puts the right-hand side of a rule in the place of its
  head, and the language holds the words that the start symbol is rewritten to. Derivations and
  derivation trees amount to the same: the root of a tree derives its leaves, and a derivation of
  the kinds of some tokens has a tree over just these tokens.
  Main results: `derives_iff_exists_forest` and `mem_language_iff`.
-/
import SchemaBridge.Proofs.Grammar.Follow
import SchemaBridge.Proofs.Grammar.State
import SchemaBridge.Grammar.Table
import Mathlib.Computability.Language

namespace SchemaBridge

variable {T N P : Type}

/-- The words that some word of a language begins with. -/
def Begins (L : Language T) (word : List T) : Prop :=
  ∃ rest, word ++ rest ∈ L

theorem Begins.of_prefix {L : Language T} {word more : List T} (h : Begins L more)
    (hword : word <+: more) : Begins L word := by
  obtain ⟨rest, hrest⟩ := h
  obtain ⟨between, rfl⟩ := hword
  exact ⟨between ++ rest, by rwa [← List.append_assoc]⟩

theorem Begins.of_mem {L : Language T} {word : List T} (h : word ∈ L) : Begins L word :=
  ⟨[], by rwa [List.append_nil]⟩

/-- The words that a language begins with end before a token that no word goes on with. -/
theorem Begins.length_le {L : Language T} {front before after : List (Token T)} {token : Token T}
    (h : Begins L (front.map Token.kind)) (hfront : front <+: before ++ token :: after)
    (htoken : ¬Begins L ((before ++ [token]).map Token.kind)) : front.length ≤ before.length := by
  by_contra hlength
  have hprefix : before ++ [token] <+: before ++ token :: after := ⟨after, by simp⟩
  have hlonger : before ++ [token] <+: front :=
    List.prefix_of_prefix_length_le hprefix hfront (by simp; omega)
  exact htoken (h.of_prefix (hlonger.map Token.kind))

theorem not_begins_of_token {L : Language T} {tokens before after : List (Token T)}
    {token : Token T} (htokens : tokens = before ++ token :: after)
    (htoken : ¬Begins L ((before ++ [token]).map Token.kind)) :
    ¬Begins L (tokens.map Token.kind) := by
  intro hbegins
  subst htokens
  have hlength := hbegins.length_le (List.prefix_refl _) htoken
  rw [List.length_append, List.length_cons] at hlength
  omega

/-- A token of a kind, for want of a real one. -/
def Token.ofKind (k : T) : Token T :=
  ⟨k, "", 0⟩

theorem map_kind_ofKind (kinds : List T) : (kinds.map Token.ofKind).map Token.kind = kinds := by
  rw [List.map_map]
  exact List.map_id kinds

namespace Grammar

variable {g : Grammar T N P} {xs ys : List (Symbol T N)}

/-! ## Derivations -/

/-- The right-hand side of a rule takes the place of its head. -/
inductive Rewrites (g : Grammar T N P) : List (Symbol T N) → List (Symbol T N) → Prop
  | rule {r : Rule T N P} (hr : r ∈ g.rules) (before after : List (Symbol T N)) :
      Rewrites g (before ++ .nonterminal r.lhs :: after) (before ++ (r.rhs ++ after))

/-- Any number of rewriting steps. -/
def Derives (g : Grammar T N P) : List (Symbol T N) → List (Symbol T N) → Prop :=
  Relation.ReflTransGen g.Rewrites

/-- The words that are derived from the start symbol. -/
def language (g : Grammar T N P) : Language T :=
  {word | g.Derives [.nonterminal g.start] (word.map .terminal)}

/-- Every nonterminal derives some word. -/
def Productive (g : Grammar T N P) : Prop :=
  ∀ n ∈ g.heads, ∃ word : List T, g.Derives [.nonterminal n] (word.map .terminal)

theorem Derives.around (h : g.Derives xs ys) (before after : List (Symbol T N)) :
    g.Derives (before ++ (xs ++ after)) (before ++ (ys ++ after)) := by
  induction h with
  | refl => exact .refl
  | tail _ hstep ih =>
    refine ih.tail ?_
    cases hstep with
    | @rule r hr left right =>
      have hwider := Rewrites.rule hr (before ++ left) (right ++ after)
      simpa only [List.append_assoc, List.cons_append] using hwider

theorem Derives.append {us vs : List (Symbol T N)} (h : g.Derives xs ys) (h' : g.Derives us vs) :
    g.Derives (xs ++ us) (ys ++ vs) := by
  have hleft := h.around [] us
  have hright := h'.around ys []
  rw [List.append_nil, List.append_nil] at hright
  exact hleft.trans hright

/-! ## Trees -/

/-- The tree is a derivation of the tokens from the start symbol. -/
structure IsDerivation (g : Grammar T N P) (tokens : List (Token T)) (t : Tree T N P) : Prop where
  valid : t.Valid g.rules
  root_eq : t.root = .nonterminal g.start
  leaves_eq : t.leaves = tokens

theorem derives_leavesOf {ts : List (Tree T N P)}
    (h : ∀ t ∈ ts, g.Derives [t.root] (t.leaves.map fun u => .terminal u.kind)) :
    g.Derives (ts.map Tree.root) ((Tree.leavesOf ts).map fun u => .terminal u.kind) := by
  induction ts with
  | nil => exact .refl
  | cons t rest ih =>
    rw [Tree.leavesOf, List.map_append]
    exact (h t List.mem_cons_self).append (ih fun u hu => h u (List.mem_cons_of_mem _ hu))

/-- The root of a tree derives its leaves. -/
theorem derives_leaves (t : Tree T N P) :
    t.Valid g.rules → g.Derives [t.root] (t.leaves.map fun u => .terminal u.kind) := by
  induction t using Tree.induct with
  | leaf token => exact fun _ => .refl
  | node r children ih =>
    rintro ⟨hr, hroots, hall⟩
    rw [Tree.validAll_iff] at hall
    have hstep := Rewrites.rule hr [] []
    rw [List.append_nil] at hstep
    refine .head hstep ?_
    rw [Tree.leaves, List.nil_append, ← hroots]
    exact derives_leavesOf fun c hc => ih c hc (hall c hc)

/-- Read backwards, each step of a derivation puts some trees together. -/
theorem exists_forest_of_derives {tokens : List (Token T)}
    (h : g.Derives xs (tokens.map fun u => .terminal u.kind)) :
    ∃ ts : List (Tree T N P), (∀ t ∈ ts, t.Valid g.rules) ∧ ts.map Tree.root = xs ∧
      Tree.leavesOf ts = tokens := by
  induction h using Relation.ReflTransGen.head_induction_on with
  | refl =>
    refine ⟨tokens.map .leaf, ?_, ?_, ?_⟩
    · intro t ht
      obtain ⟨u, -, rfl⟩ := List.mem_map.mp ht
      exact trivial
    · rw [List.map_map]
      rfl
    · induction tokens with
      | nil => rfl
      | cons u rest ih => rw [List.map_cons, Tree.leavesOf, ih]; rfl
  | head hstep _ ih =>
    obtain ⟨ts, hvalid, hroots, hleaves⟩ := ih
    cases hstep with
    | @rule r hr before after =>
      obtain ⟨front, more, rfl, hfront, hmore⟩ := List.map_eq_append_iff.mp hroots
      obtain ⟨children, back, rfl, hchildren, hback⟩ := List.map_eq_append_iff.mp hmore
      rw [List.forall_mem_append, List.forall_mem_append] at hvalid
      obtain ⟨hvfront, hvchildren, hvback⟩ := hvalid
      refine ⟨front ++ .node r children :: back, ?_, ?_, ?_⟩
      · rw [List.forall_mem_append, List.forall_mem_cons]
        exact ⟨hvfront, ⟨hr, hchildren, Tree.validAll_iff.mpr hvchildren⟩, hvback⟩
      · rw [List.map_append, List.map_cons, hfront, hback]
        rfl
      · rw [Tree.leavesOf_append, Tree.leavesOf_append] at hleaves
        rw [Tree.leavesOf_append, Tree.leavesOf, Tree.leaves, hleaves]

theorem derives_iff_exists_forest {tokens : List (Token T)} :
    g.Derives xs (tokens.map fun u => .terminal u.kind) ↔
      ∃ ts : List (Tree T N P), (∀ t ∈ ts, t.Valid g.rules) ∧ ts.map Tree.root = xs ∧
        Tree.leavesOf ts = tokens := by
  refine ⟨exists_forest_of_derives, ?_⟩
  rintro ⟨ts, hvalid, rfl, rfl⟩
  exact derives_leavesOf fun t ht => derives_leaves t (hvalid t ht)

/-- The tokens of a word of the language are the leaves of a derivation. -/
theorem mem_language_iff {tokens : List (Token T)} :
    tokens.map Token.kind ∈ g.language ↔ ∃ t, g.IsDerivation tokens t := by
  have hmap : (tokens.map Token.kind).map (Symbol.terminal (N := N)) =
      tokens.map fun u => .terminal u.kind := List.map_map
  show g.Derives _ _ ↔ _
  rw [hmap, derives_iff_exists_forest]
  constructor
  · rintro ⟨ts, hvalid, hroots, hleaves⟩
    obtain ⟨t, rfl, hroot⟩ := List.map_eq_singleton_iff.mp hroots
    refine ⟨t, hvalid t (List.mem_singleton.mpr rfl), hroot, ?_⟩
    rw [← hleaves]
    exact (List.append_nil _).symm
  · rintro ⟨t, hvalid, hroot, hleaves⟩
    refine ⟨[t], ?_, ?_, ?_⟩
    · intro u hu
      rwa [List.mem_singleton.mp hu]
    · rw [List.map_singleton, hroot]
    · rw [← hleaves]
      exact List.append_nil _

/-- All words that the tokens begin are derived by trees that begin with these tokens. -/
theorem begins_iff {tokens : List (Token T)} : Begins g.language (tokens.map Token.kind) ↔
    ∃ more t, g.IsDerivation (tokens ++ more) t := by
  constructor
  · rintro ⟨rest, hrest⟩
    rw [← map_kind_ofKind rest, ← List.map_append] at hrest
    exact ⟨_, mem_language_iff.mp hrest⟩
  · rintro ⟨more, ht⟩
    refine ⟨more.map Token.kind, ?_⟩
    rw [← List.map_append]
    exact mem_language_iff.mpr ht

/-! ## Productive grammars -/

variable [DecidableEq T] [DecidableEq N]

omit [DecidableEq T] in
theorem defines_iff {n : N} : g.defines n = true ↔ n ∈ g.heads := by
  unfold defines heads
  rw [List.any_eq_true, List.mem_map]
  constructor
  · rintro ⟨r, hr, hn⟩
    exact ⟨r, hr, beq_iff_eq.mp hn⟩
  · rintro ⟨r, hr, hn⟩
    exact ⟨r, hr, beq_iff_eq.mpr hn⟩

/-- In a grammar that is compiled every nonterminal has a rule. -/
theorem mem_heads_of_compile {a : Automaton T N P} (h : g.compile = .ok a) {i : Nat} {n : N}
    (hn : .nonterminal n ∈ g.rhsOf i) : n ∈ g.heads := by
  have hfault : g.fault = none := by
    unfold compile at h
    split at h
    · cases h
    · assumption
  unfold fault at hfault
  split at hfault
  · rename_i hstart
    cases i with
    | zero =>
      rw [rhsOf, List.mem_singleton, Symbol.nonterminal.injEq] at hn
      rw [hn]
      exact defines_iff.mp hstart
    | succ i =>
      rw [Option.map_eq_none_iff, List.find?_eq_none] at hfault
      cases hr : g.rules[i]? with
      | none =>
        rw [rhsOf, hr] at hn
        exact absurd hn List.not_mem_nil
      | some r =>
        rw [rhsOf_succ hr] at hn
        have hused : n ∈ g.used := List.mem_flatMap.mpr
          ⟨r, List.mem_of_getElem? hr, List.mem_filterMap.mpr ⟨_, hn, rfl⟩⟩
        have hdefined := hfault n hused
        rw [Bool.not_eq_true', Bool.not_eq_false] at hdefined
        exact defines_iff.mp hdefined
  · cases hfault

omit [DecidableEq T] [DecidableEq N] in
theorem Productive.exists_forest (h : g.Productive) (hxs : ∀ n, .nonterminal n ∈ xs → n ∈ g.heads) :
    ∃ ts : List (Tree T N P), (∀ t ∈ ts, t.Valid g.rules) ∧ ts.map Tree.root = xs := by
  have hword : ∃ tokens : List (Token T), g.Derives xs (tokens.map fun u => .terminal u.kind) := by
    induction xs with
    | nil => exact ⟨[], .refl⟩
    | cons x rest ih =>
      obtain ⟨tokens, htokens⟩ := ih fun n hn => hxs n (List.mem_cons_of_mem _ hn)
      cases x with
      | terminal k =>
        have hone : g.Derives [.terminal k] [.terminal k] := .refl
        exact ⟨Token.ofKind k :: tokens, hone.append htokens⟩
      | nonterminal n =>
        obtain ⟨word, hword⟩ := h n (hxs n List.mem_cons_self)
        refine ⟨word.map Token.ofKind ++ tokens, ?_⟩
        rw [List.map_append, List.map_map]
        exact hword.append htokens
  obtain ⟨tokens, htokens⟩ := hword
  obtain ⟨ts, hvalid, hroots, -⟩ := exists_forest_of_derives htokens
  exact ⟨ts, hvalid, hroots⟩

end Grammar

end SchemaBridge
