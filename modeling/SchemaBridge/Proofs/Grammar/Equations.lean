/-
  The rules of a grammar as equations between languages: the words of a nonterminal are those of
  the right-hand sides of its rules. If no rule is empty and rules of one symbol lead down some
  ranking, languages without the empty word that solve the equations are the languages of the
  grammar, since each part of a word is shorter than the word or stands below it.
  Main result: `Solves.language_eq`.
-/
import SchemaBridge.Proofs.Grammar.Language
import SchemaBridge.Proofs.Grammar.Size
import Mathlib.Computability.Language

namespace SchemaBridge

variable {T N P : Type}

/-- The words of a symbol, if those of the nonterminals are known. -/
def Symbol.words (L : N → Language T) : Symbol T N → Language T
  | .terminal t => {[t]}
  | .nonterminal n => L n

namespace Grammar

/-- The words of symbols one after the other. -/
def wordsOf (L : N → Language T) (xs : List (Symbol T N)) : Language T :=
  (xs.map (Symbol.words L)).prod

@[simp] theorem wordsOf_nil (L : N → Language T) : wordsOf L ([] : List (Symbol T N)) = 1 := rfl

@[simp] theorem wordsOf_terminal (L : N → Language T) (t : T) (xs : List (Symbol T N)) :
    wordsOf L (.terminal t :: xs) = {[t]} * wordsOf L xs := rfl

@[simp] theorem wordsOf_nonterminal (L : N → Language T) (n : N) (xs : List (Symbol T N)) :
    wordsOf L (.nonterminal n :: xs) = L n * wordsOf L xs := rfl

/-- The words of the right-hand sides of rules. -/
def unionOf (L : N → Language T) (rules : List (Rule T N P)) : Language T :=
  (rules.map fun r => wordsOf L r.rhs).sum

@[simp] theorem unionOf_nil (L : N → Language T) : unionOf L ([] : List (Rule T N P)) = 0 := rfl

@[simp] theorem unionOf_cons (L : N → Language T) (r : Rule T N P) (rules : List (Rule T N P)) :
    unionOf L (r :: rules) = wordsOf L r.rhs + unionOf L rules := rfl

theorem mem_unionOf_iff {L : N → Language T} {rules : List (Rule T N P)} {word : List T} :
    word ∈ unionOf L rules ↔ ∃ r ∈ rules, word ∈ wordsOf L r.rhs := by
  induction rules with
  | nil =>
    constructor
    · exact fun h => absurd h (Language.notMem_zero word)
    · rintro ⟨r, hr, -⟩
      exact absurd hr List.not_mem_nil
  | cons r rest ih => rw [unionOf_cons, Language.mem_add, ih, List.exists_mem_cons_iff]

/-- The languages solve the equations of a grammar, and none has the empty word. -/
structure Solves [DecidableEq N] (g : Grammar T N P) (L : N → Language T) : Prop where
  eq_unionOf : ∀ n, L n = unionOf L (g.rules.filter (·.lhs == n))
  nil_not_mem : ∀ n, [] ∉ L n

variable [DecidableEq N] {g : Grammar T N P} {L : N → Language T} {word : List T}

theorem Solves.mem_iff (h : g.Solves L) {n : N} :
    word ∈ L n ↔ ∃ r ∈ g.rules, r.lhs = n ∧ word ∈ wordsOf L r.rhs := by
  rw [h.eq_unionOf n, mem_unionOf_iff]
  constructor
  · rintro ⟨r, hr, hword⟩
    obtain ⟨hr, hn⟩ := List.mem_filter.mp hr
    exact ⟨r, hr, beq_iff_eq.mp hn, hword⟩
  · rintro ⟨r, hr, hn, hword⟩
    exact ⟨r, List.mem_filter.mpr ⟨hr, beq_iff_eq.mpr hn⟩, hword⟩

theorem Solves.ne_nil (h : g.Solves L) {x : Symbol T N} (hword : word ∈ x.words L) :
    word ≠ [] := by
  rintro rfl
  cases x with
  | terminal t => exact absurd (Set.mem_singleton_iff.mp hword).symm (List.cons_ne_nil _ _)
  | nonterminal n => exact h.nil_not_mem n hword

/-! ## What is derived is a word -/

omit [DecidableEq N] in
theorem leavesOf_mem_wordsOf {ts : List (Tree T N P)}
    (h : ∀ t ∈ ts, t.leaves.map Token.kind ∈ t.root.words L) :
    (Tree.leavesOf ts).map Token.kind ∈ wordsOf L (ts.map Tree.root) := by
  induction ts with
  | nil => exact Language.nil_mem_one
  | cons t rest ih =>
    rw [Tree.leavesOf, List.map_append]
    exact Language.append_mem_mul (h t List.mem_cons_self)
      (ih fun u hu => h u (List.mem_cons_of_mem _ hu))

/-- The leaves of a tree are a word of its root. -/
theorem Solves.leaves_mem (h : g.Solves L) (t : Tree T N P) :
    t.Valid g.rules → t.leaves.map Token.kind ∈ t.root.words L := by
  induction t using Tree.induct with
  | leaf token => exact fun _ => Set.mem_singleton _
  | node r children ih =>
    rintro ⟨hr, hroots, hall⟩
    rw [Tree.validAll_iff] at hall
    have hwords := leavesOf_mem_wordsOf fun c hc => ih c hc (hall c hc)
    rw [hroots] at hwords
    exact h.mem_iff.mpr ⟨r, hr, rfl, hwords⟩

/-! ## Words are derived -/

omit [DecidableEq N] in
theorem derives_of_mem_wordsOf {xs : List (Symbol T N)} (hword : word ∈ wordsOf L xs)
    (h : ∀ x part, part.length ≤ word.length → part ∈ x.words L →
      g.Derives [x] (part.map .terminal)) : g.Derives xs (word.map .terminal) := by
  induction xs generalizing word with
  | nil =>
    rw [(Language.mem_one word).mp hword]
    exact .refl
  | cons x rest ih =>
    obtain ⟨front, hfront, back, hback, rfl⟩ := Language.mem_mul.mp hword
    rw [List.length_append] at h
    rw [List.map_append]
    exact (h x front (Nat.le_add_right _ _) hfront).append
      (ih hback fun y part hpart hy => h y part (hpart.trans (Nat.le_add_left _ _)) hy)

/-- No symbol has the empty word, so that each of several symbols has a shorter part. -/
theorem Solves.derives_of_shorter (h : g.Solves L) {x y : Symbol T N} {rest : List (Symbol T N)}
    (hword : word ∈ wordsOf L (x :: y :: rest))
    (hshorter : ∀ z part, part.length < word.length → part ∈ z.words L →
      g.Derives [z] (part.map .terminal)) : g.Derives (x :: y :: rest) (word.map .terminal) := by
  obtain ⟨front, hfront, back, hback, rfl⟩ := Language.mem_mul.mp hword
  have hfrontpos := List.length_pos_iff.mpr (h.ne_nil hfront)
  have hbackpos : 0 < back.length := by
    obtain ⟨u, hu, v, -, rfl⟩ := Language.mem_mul.mp hback
    have hupos := List.length_pos_iff.mpr (h.ne_nil hu)
    rw [List.length_append]
    omega
  rw [List.length_append] at hshorter
  rw [List.map_append]
  exact (hshorter x front (by omega) hfront).append
    (derives_of_mem_wordsOf hback fun z part hpart hz => hshorter z part (by omega) hz)

variable {rank : N → Nat} {height : Nat}

/-- A word is derived from its symbol. The parts of the word are shorter, or the symbol that stands
for the whole of it is of a lower rank. -/
theorem Solves.derives (h : g.Solves L) (hdown : g.Descends rank height) {x : Symbol T N}
    (hword : word ∈ x.words L) : g.Derives [x] (word.map .terminal) := by
  induction hn : word.length * (height + 1) + x.rank rank using Nat.strong_induction_on
    generalizing word x with
  | _ n ih =>
    subst hn
    cases x with
    | terminal t =>
      rw [Set.mem_singleton_iff.mp hword]
      exact .refl
    | nonterminal m =>
      obtain ⟨r, hr, rfl, hrhs⟩ := h.mem_iff.mp hword
      have hstep := Rewrites.rule hr [] []
      rw [List.append_nil] at hstep
      refine .head hstep ?_
      rw [List.nil_append]
      match hxs : r.rhs with
      | [] => exact absurd hxs (hdown.nonempty r hr)
      | [y] =>
        have hone : word ∈ y.words L := by
          rw [hxs] at hrhs
          have hmul : word ∈ y.words L * 1 := hrhs
          rwa [mul_one] at hmul
        exact ih _ (Nat.add_lt_add_left (hdown.unit r hr y hxs) _) hone rfl
      | y :: z :: rest =>
        rw [hxs] at hrhs
        refine h.derives_of_shorter hrhs fun w part hlt hpart => ih _ ?_ hpart rfl
        have hmul := Nat.mul_le_mul_right (height + 1) (Nat.succ_le_of_lt hlt)
        have hrank := hdown.rank_le w
        rw [Nat.succ_mul] at hmul
        omega

/-- Languages that solve the equations of a grammar are its languages. -/
theorem Solves.language_eq (h : g.Solves L) (hdown : g.Descends rank height) :
    g.language = L g.start := by
  ext word
  constructor
  · intro hword
    rw [← map_kind_ofKind word] at hword
    obtain ⟨t, hvalid, hroot, hleaves⟩ := mem_language_iff.mp hword
    have hmem := h.leaves_mem t hvalid
    rwa [hroot, hleaves, map_kind_ofKind] at hmem
  · exact fun hword => h.derives (x := .nonterminal g.start) hdown hword

end Grammar

end SchemaBridge
