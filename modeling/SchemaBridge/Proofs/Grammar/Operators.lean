/-
  Grammars of binary operators: an operand by itself, or two expressions with an operator between
  them, each operator in one level. In any order of the rules, only four kinds of states come up in
  a parse. Three of them leave no choice; behind an expression on both sides of an operator, the
  levels of this operator and of the next one decide.
  Main results: `preferred_cases`, `cell_awaiting`, `cell_operand`, `cell_first` and `cell_between`.
-/
import SchemaBridge.Proofs.Grammar.Limits

namespace SchemaBridge

namespace Grammar

variable {T N P : Type}

/-! ## Levels -/

/-- The terminal stands in a level, which has this associativity. -/
def DeclaredAt (g : Grammar T N P) (level : Nat) (assoc : Assoc) (t : T) : Prop :=
  ∃ ts, g.levels[level]? = some (assoc, ts) ∧ t ∈ ts

/-- The first terminal stands in a later level than the second, and so binds tighter. -/
def Tighter (g : Grammar T N P) (p q : T) : Prop :=
  ∃ i j a b, g.DeclaredAt i a p ∧ g.DeclaredAt j b q ∧ j < i

/-- Two terminals stand in one level, which has this associativity. -/
def Peers (g : Grammar T N P) (assoc : Assoc) (p q : T) : Prop :=
  ∃ i, g.DeclaredAt i assoc p ∧ g.DeclaredAt i assoc q

/-- `p` may be the operator of what stands to the left of `q`. -/
def FitsLeft (g : Grammar T N P) (p q : T) : Prop :=
  g.Tighter p q ∨ g.Peers .left p q

/-- `p` may be the operator of what stands to the right of `q`. -/
def FitsRight (g : Grammar T N P) (p q : T) : Prop :=
  g.Tighter p q ∨ g.Peers .right p q

/-- An operand is an expression. -/
def single (g : Grammar T N P) (tag : T → P) (operand : T) : Rule T N P :=
  ⟨g.start, [.terminal operand], tag operand⟩

/-- Two expressions with an operator between them are an expression. -/
def binary (g : Grammar T N P) (tag : T → P) (op : T) : Rule T N P :=
  ⟨g.start, [.nonterminal g.start, .terminal op, .nonterminal g.start], tag op⟩

/-- The grammar is one of binary operators, and each of them stands in one level only. -/
structure OfOperators (g : Grammar T N P) (tag : T → P) (operand : T) (operators : List T) :
    Prop where
  distinct : (operand :: operators).Nodup
  rules : g.rules.Perm (g.single tag operand :: operators.map (g.binary tag))
  declared : ∀ op ∈ operators, ∃! level, ∃ assoc, g.DeclaredAt level assoc op

variable {g : Grammar T N P} {tag : T → P} {operand op p q : T} {operators : List T}

theorem DeclaredAt.assoc_eq {level : Nat} {a b : Assoc} (h : g.DeclaredAt level a p)
    (h' : g.DeclaredAt level b q) : a = b := by
  obtain ⟨ts, hts, -⟩ := h
  obtain ⟨us, hus, -⟩ := h'
  rw [hts, Option.some.injEq, Prod.mk.injEq] at hus
  exact hus.1

/-- A terminal that no other level holds stands in one level only. -/
theorem existsUnique_declaredAt (level : Nat) {a : Assoc} {ts : List T}
    (hlevel : g.levels[level]? = some (a, ts)) (hop : op ∈ ts)
    (hother : ∀ l ∈ g.levels.eraseIdx level, op ∉ l.2) :
    ∃! level, ∃ assoc, g.DeclaredAt level assoc op := by
  refine ⟨level, ⟨a, ts, hlevel, hop⟩, ?_⟩
  rintro other ⟨b, us, hus, hmem⟩
  by_contra hne
  exact hother _ (List.mem_eraseIdx_iff_getElem?.mpr ⟨other, hne, hus⟩) hmem

section Strength

variable [DecidableEq T]

theorem strengthIn_concat (levels : List (Assoc × List T)) (l : Assoc × List T) (t : T) :
    strengthIn (levels ++ [l]) t =
      if t ∈ l.2 then some (levels.length + 1, l.1) else strengthIn levels t := by
  unfold strengthIn
  rw [List.zipIdx_append, List.foldl_append, Nat.add_comm 1]
  rfl

/-- The last level that holds a terminal gives it its strength. -/
theorem strengthIn_eq {levels : List (Assoc × List T)} {t : T} {level : Nat} {a : Assoc}
    {ts : List T} (hlevel : levels[level]? = some (a, ts)) (ht : t ∈ ts)
    (hlast : ∀ later l, level < later → levels[later]? = some l → t ∉ l.2) :
    strengthIn levels t = some (level + 1, a) := by
  induction levels using List.reverseRecOn with
  | nil => cases hlevel
  | append_singleton levels l ih =>
    rw [strengthIn_concat]
    have hle : level ≤ levels.length := by
      have hlt := (List.getElem?_eq_some_iff.mp hlevel).1
      rw [List.length_append, List.length_singleton] at hlt
      exact Nat.le_of_lt_succ hlt
    obtain rfl | hlt := Nat.eq_or_lt_of_le hle
    · rw [List.getElem?_concat_length, Option.some.injEq] at hlevel
      subst hlevel
      exact if_pos ht
    · rw [if_neg (hlast _ _ hlt List.getElem?_concat_length)]
      rw [List.getElem?_append_left hlt] at hlevel
      refine ih hlevel fun later m hlater hm => hlast later m hlater ?_
      rw [List.getElem?_append_left (List.getElem?_eq_some_iff.mp hm).1]
      exact hm

/-- The level of a terminal, counted from one. -/
def levelOf (g : Grammar T N P) (t : T) : Nat :=
  ((g.strength t).map Prod.fst).getD 0

namespace OfOperators

variable (h : g.OfOperators tag operand operators)

include h

theorem strength_eq (hop : op ∈ operators) : ∃ level assoc, g.DeclaredAt level assoc op ∧
    (∀ other b, g.DeclaredAt other b op → other = level) ∧
    g.strength op = some (level + 1, assoc) := by
  obtain ⟨level, ⟨a, ts, hlevel, hts⟩, hunique⟩ := h.declared op hop
  refine ⟨level, a, ⟨ts, hlevel, hts⟩, fun other b hb => hunique other ⟨b, hb⟩, ?_⟩
  refine strengthIn_eq hlevel hts fun later l hlater hl hmem => ?_
  exact absurd (hunique later ⟨l.1, l.2, hl, hmem⟩) (Nat.ne_of_gt hlater)

theorem tighter_iff (hp : p ∈ operators) (hq : q ∈ operators) :
    g.Tighter p q ↔ g.levelOf q < g.levelOf p := by
  obtain ⟨i, a, hi, honly, hstrength⟩ := h.strength_eq hp
  obtain ⟨j, b, hj, honly', hstrength'⟩ := h.strength_eq hq
  unfold levelOf
  rw [hstrength, hstrength']
  constructor
  · rintro ⟨i', j', a', b', hi', hj', hlt⟩
    rw [honly i' a' hi', honly' j' b' hj'] at hlt
    exact Nat.succ_lt_succ hlt
  · exact fun hlt => ⟨i, j, a, b, hi, hj, Nat.lt_of_succ_lt_succ hlt⟩

theorem levelOf_eq_of_peers (hp : p ∈ operators) (hq : q ∈ operators) {assoc : Assoc}
    (hpeers : g.Peers assoc p q) : g.levelOf p = g.levelOf q := by
  obtain ⟨i, a, hi, honly, hstrength⟩ := h.strength_eq hp
  obtain ⟨j, b, hj, honly', hstrength'⟩ := h.strength_eq hq
  obtain ⟨k, hk, hk'⟩ := hpeers
  unfold levelOf
  rw [hstrength, hstrength', ← honly k assoc hk, ← honly' k assoc hk']
  rfl

/-- One level has one associativity. -/
theorem assoc_eq_of_peers (hp : p ∈ operators) (hq : q ∈ operators) {r s : T} {a b : Assoc}
    (hpeers : g.Peers a p r) (hpeers' : g.Peers b q s) (hlevel : g.levelOf p = g.levelOf q) :
    a = b := by
  obtain ⟨i, c, hi, honly, hstrength⟩ := h.strength_eq hp
  obtain ⟨j, d, hj, honly', hstrength'⟩ := h.strength_eq hq
  obtain ⟨k, hk, -⟩ := hpeers
  obtain ⟨l, hl, -⟩ := hpeers'
  unfold levelOf at hlevel
  rw [hstrength, hstrength'] at hlevel
  have hij : i = j := Nat.succ.inj hlevel
  rw [honly k a hk, hij] at hk
  rw [honly' l b hl] at hl
  exact hk.assoc_eq hl

/-- What fits to the left or to the right of an operator is not looser. -/
theorem levelOf_le_of_fits (hp : p ∈ operators) (hq : q ∈ operators) {assoc : Assoc}
    (hfits : g.Tighter p q ∨ g.Peers assoc p q) : g.levelOf q ≤ g.levelOf p := by
  rcases hfits with htighter | hpeers
  · exact Nat.le_of_lt ((h.tighter_iff hp hq).mp htighter)
  · exact Nat.le_of_eq (h.levelOf_eq_of_peers hp hq hpeers).symm

/-! ## The choice -/

/-- The rule of an operator is as strong as the operator. -/
theorem ruleStrength_binary (hop : op ∈ operators) :
    g.ruleStrength (g.binary tag op) = g.strength op := by
  obtain ⟨level, assoc, -, -, hstrength⟩ := h.strength_eq hop
  simp [ruleStrength, binary, Symbol.terminal?, hstrength]

/-- Between the rule of an operator and the next operator, the levels decide as one expects. -/
theorem preferred_cases (hp : p ∈ operators) (hq : q ∈ operators) (next : Nat) :
    (g.FitsLeft p q ∧ g.preferred (g.binary tag p) (some q) next = .reduce (g.binary tag p)) ∨
    (g.FitsRight q p ∧ g.preferred (g.binary tag p) (some q) next = .shift next) ∨
    (g.Peers .nonassoc p q ∧ g.preferred (g.binary tag p) (some q) next = .nonassoc) := by
  obtain ⟨i, a, hi, -, hstrength⟩ := h.strength_eq hp
  obtain ⟨j, b, hj, -, hstrength'⟩ := h.strength_eq hq
  unfold preferred
  rw [h.ruleStrength_binary hp, hstrength, Option.bind_some, hstrength']
  dsimp only
  rcases Nat.lt_trichotomy i j with hlt | rfl | hlt
  · rw [if_neg (show ¬j + 1 < i + 1 by omega), if_pos (show i + 1 < j + 1 by omega)]
    exact .inr (.inl ⟨.inl ⟨j, i, b, a, hj, hi, hlt⟩, rfl⟩)
  · obtain rfl := hi.assoc_eq hj
    rw [if_neg (Nat.lt_irrefl _), if_neg (Nat.lt_irrefl _)]
    cases a with
    | left => exact .inl ⟨.inr ⟨i, hi, hj⟩, rfl⟩
    | right => exact .inr (.inl ⟨.inr ⟨i, hj, hi⟩, rfl⟩)
    | nonassoc => exact .inr (.inr ⟨⟨i, hi, hj⟩, rfl⟩)
  · rw [if_pos (show j + 1 < i + 1 by omega)]
    exact .inl ⟨.inl ⟨i, j, a, b, hi, hj, hlt⟩, rfl⟩

end OfOperators

end Strength

/-! ## Rules -/

namespace OfOperators

variable (h : g.OfOperators tag operand operators)

include h

theorem mem_rules {r : Rule T N P} :
    r ∈ g.rules ↔ r = g.single tag operand ∨ ∃ op ∈ operators, r = g.binary tag op := by
  rw [h.rules.mem_iff, List.mem_cons, List.mem_map]
  simp only [eq_comm]

theorem single_mem : g.single tag operand ∈ g.rules :=
  h.mem_rules.mpr (.inl rfl)

theorem binary_mem (hop : op ∈ operators) : g.binary tag op ∈ g.rules :=
  h.mem_rules.mpr (.inr ⟨op, hop, rfl⟩)

theorem operand_not_mem : operand ∉ operators :=
  (List.nodup_cons.mp h.distinct).1

theorem lhs_eq {r : Rule T N P} (hr : r ∈ g.rules) : r.lhs = g.start := by
  obtain rfl | ⟨op, -, rfl⟩ := h.mem_rules.mp hr
  all_goals rfl

/-- The kinds of expressions are those that some rule holds. -/
theorem mem_terminals {t : T} (ht : t = operand ∨ t ∈ operators) : t ∈ g.terminals := by
  unfold terminals
  rw [List.mem_flatMap]
  rcases ht with rfl | hop
  · exact ⟨_, h.single_mem, List.mem_singleton.mpr rfl⟩
  · exact ⟨_, h.binary_mem hop, List.mem_singleton.mpr rfl⟩

theorem proper : g.Proper := by
  have hdown : g.Descends (fun _ => 1) 1 := by
    refine ⟨fun _ => Nat.one_pos, fun _ => Nat.le_refl 1, fun r hr => ?_, fun r hr x hx => ?_⟩
    · obtain rfl | ⟨op, -, rfl⟩ := h.mem_rules.mp hr
      all_goals exact List.cons_ne_nil _ _
    · obtain rfl | ⟨op, -, rfl⟩ := h.mem_rules.mp hr
      · obtain rfl : .terminal operand = x := by simpa [single] using hx
        exact Nat.one_pos
      · cases hx
  exact hdown.proper

theorem compile_eq [DecidableEq T] [DecidableEq N] : g.compile = .ok g.tables := by
  have hstart : g.defines g.start = true :=
    defines_iff.mpr (List.mem_map.mpr ⟨_, h.single_mem, rfl⟩)
  have hused : g.used.find? (fun n => !g.defines n) = none := by
    rw [List.find?_eq_none]
    intro n hn
    obtain ⟨r, hr, hn⟩ := List.mem_flatMap.mp hn
    obtain rfl | ⟨op, -, rfl⟩ := h.mem_rules.mp hr
    · exact absurd hn List.not_mem_nil
    · have hmem : n ∈ [g.start, g.start] := hn
      obtain rfl : n = g.start := by simpa using hmem
      simp [hstart]
  unfold compile fault
  rw [if_pos hstart, hused]
  rfl

/-! ## Items -/

/-- A mark before an expression stands in front, or behind an operator. -/
theorem before_expression {item : Item} {n : N} (hx : g.nextSymbol item = some (.nonterminal n)) :
    item.dot = 0 ∨ ∃ op ∈ operators, (g.rhsOf item.rule).take item.dot =
      [.nonterminal g.start, .terminal op] := by
  obtain ⟨rule, dot⟩ := item
  obtain rfl | ⟨i, r, rfl, hr⟩ := rule_of_nextSymbol hx
  all_goals rw [nextSymbol_eq_some_iff] at hx
  · obtain ⟨hlt, -⟩ := List.getElem?_eq_some_iff.mp hx
    exact .inl (Nat.lt_one_iff.mp hlt)
  · rw [rhsOf_succ hr] at hx ⊢
    obtain rfl | ⟨op, hop, rfl⟩ := h.mem_rules.mp (List.mem_of_getElem? hr)
    · match dot, hx with
      | 0, hx => cases hx
    · match dot, hx with
      | 0, _ => exact .inl rfl
      | 2, _ => exact .inr ⟨op, hop, rfl⟩

/-- Rules begin at the beginning, and behind operators. -/
theorem before_fresh {before : List (Symbol T N)} {item : Item} (hviable : g.Viable before item)
    (hdot : item.dot = 0) :
    before = [] ∨ ∃ front, ∃ op ∈ operators, before = front ++ [.terminal op] := by
  induction hviable with
  | start => exact .inl rfl
  | advance => cases hdot
  | @expand before item i r hviable hr hx ih =>
    rcases h.before_expression hx with hzero | ⟨op, hop, htake⟩
    · exact ih hzero
    · obtain ⟨front, rfl, -⟩ := hviable.split
      rw [htake]
      exact .inr ⟨front ++ [.nonterminal g.start], op, hop, by rw [List.append_assoc]; rfl⟩

/-- The operand is expected at the beginning and behind operators, and operators are expected
behind expressions. -/
theorem before_terminal {before : List (Symbol T N)} {item : Item} (hviable : g.Viable before item)
    {t : T} (hx : g.nextSymbol item = some (.terminal t)) :
    before = [] ∨ (∃ front, ∃ op ∈ operators, before = front ++ [.terminal op]) ∨
      ∃ front, before = front ++ [.nonterminal g.start] := by
  obtain ⟨front, hfront, -⟩ := hviable.split
  by_cases hdot : item.dot = 0
  · exact (h.before_fresh hviable hdot).imp_right .inl
  · obtain ⟨rule, dot⟩ := item
    refine .inr (.inr ⟨front, ?_⟩)
    rw [hfront]
    congr 1
    obtain rfl | ⟨i, r, rfl, hr⟩ := rule_of_nextSymbol hx
    all_goals rw [nextSymbol_eq_some_iff] at hx
    · match dot, hx with
      | 0, hx => cases hx
    · rw [rhsOf_succ hr] at hx ⊢
      obtain rfl | ⟨op, hop, rfl⟩ := h.mem_rules.mp (List.mem_of_getElem? hr)
      · match dot, hx with
        | 0, _ => exact absurd rfl hdot
      · match dot, hx with
        | 1, _ => rfl
        | 2, hx => cases hx

end OfOperators

/-! ## States -/

/-- Where an operand is to come: each expression so far has an operator behind it. -/
inductive Awaiting (g : Grammar T N P) (operators : List T) : List (Symbol T N) → Prop
  | nil : Awaiting g operators []
  | concat {before : List (Symbol T N)} {k : T} (h : Awaiting g operators before)
      (hk : k ∈ operators) :
      Awaiting g operators (before ++ [.nonterminal g.start, .terminal k])

variable {before : List (Symbol T N)}

/-- A rule that an item expects can be walked along. -/
theorem Viable.walk {item : Item} {i : Nat} {r : Rule T N P} (hviable : g.Viable before item)
    (hx : g.nextSymbol item = some (.nonterminal r.lhs)) (hr : g.rules[i]? = some r) (dot : Nat)
    (hdot : dot ≤ r.rhs.length) : g.Viable (before ++ r.rhs.take dot) ⟨i + 1, dot⟩ := by
  induction dot with
  | zero =>
    rw [List.take_zero, List.append_nil]
    exact .expand hviable hr hx
  | succ dot ih =>
    rw [List.take_succ_eq_append_getElem hdot, ← List.append_assoc]
    refine .advance (ih (Nat.le_of_succ_le hdot)) ?_
    rw [nextSymbol_eq_some_iff, rhsOf_succ hr]
    exact List.getElem?_eq_getElem hdot

namespace OfOperators

variable (h : g.OfOperators tag operand operators)

include h

theorem exists_expecting (hbefore : g.Awaiting operators before) : ∃ item, g.Viable before item ∧
    g.nextSymbol item = some (.nonterminal g.start) := by
  induction hbefore with
  | nil => exact ⟨_, .start, rfl⟩
  | @concat before op _ hop ih =>
    obtain ⟨item, hviable, hx⟩ := ih
    obtain ⟨i, hi⟩ := List.mem_iff_getElem?.mp (h.binary_mem hop)
    refine ⟨⟨i + 1, 2⟩, hviable.walk hx hi 2 (Nat.le_add_left 2 1), ?_⟩
    rw [nextSymbol_eq_some_iff, rhsOf_succ hi]
    rfl

/-- Where an operand is to come, each rule can be walked along. -/
theorem viable_walk (hbefore : g.Awaiting operators before) {r : Rule T N P} (hr : r ∈ g.rules) :
    ∃ i, g.rules[i]? = some r ∧
      ∀ dot, dot ≤ r.rhs.length → g.Viable (before ++ r.rhs.take dot) ⟨i + 1, dot⟩ := by
  obtain ⟨item, hviable, hx⟩ := h.exists_expecting hbefore
  obtain ⟨i, hi⟩ := List.mem_iff_getElem?.mp hr
  rw [← h.lhs_eq hr] at hx
  exact ⟨i, hi, fun dot hdot => hviable.walk hx hi dot hdot⟩

end OfOperators

variable [DecidableEq T] [DecidableEq N]

/-- A rule that is complete ends the symbols so far. -/
theorem suffix_of_mem_complete {r : Rule T N P} (hr : r ∈ g.complete (g.stateAfter before)) :
    r.rhs <:+ before := by
  obtain ⟨i, dot, hitem, hi, hle⟩ := mem_complete.mp hr
  obtain ⟨front, hfront, -⟩ := (mem_stateAfter_iff.mp hitem).split
  rw [rhsOf_succ hi, List.take_of_length_le hle] at hfront
  exact ⟨front, hfront.symm⟩

/-- The symbols so far are an expression if the input may end here. -/
theorem eq_start_of_accept (hitem : (⟨0, 1⟩ : Item) ∈ g.stateAfter before) :
    before = [.nonterminal g.start] :=
  (mem_stateAfter_iff.mp hitem).of_rule_zero

/-! ## Cells -/

variable {number : State → Nat} {s : State} {t : Option T}

theorem cell_eq_opening (hnone : ∀ r, r ∉ g.complete s) :
    g.cell g.follow number s t = g.opening number s t := by
  have hnil : g.complete s = [] := List.eq_nil_iff_forall_not_mem.mpr hnone
  unfold cell
  rw [hnil, List.filter_nil, List.foldl_nil]

omit [DecidableEq N] in
/-- A rule that is entered again changes nothing. -/
theorem place_place (t : Option T) (cell : Option (Action T N P)) (r : Rule T N P) :
    g.place t (g.place t cell r) r = g.place t cell r := by
  have hagain : ∀ a, g.place t (some a) r = some a ∨ ∃ next, a = .shift next ∧
      g.place t (some a) r = some (g.preferred r t next) := by
    intro a
    cases a with
    | shift next => exact .inr ⟨next, rfl, rfl⟩
    | _ => exact .inl rfl
  cases cell with
  | none => rfl
  | some a =>
    rcases hagain a with hsame | ⟨next, rfl, hplace⟩
    · rw [hsame, hsame]
    · rw [hplace]
      rcases hagain (g.preferred r t next) with hsame | ⟨next', hshift, hsame⟩
      · exact hsame
      · -- A token that goes first is shifted to the same state.
        have hnext : next' = next := by
          unfold preferred at hshift
          split at hshift
          · split at hshift
            · cases hshift
            · split at hshift
              · cases hshift
                rfl
              · split at hshift <;> cases hshift
                rfl
          · cases hshift
            rfl
        rw [hsame, hnext]

/-- Where only one rule is complete, it meets the token alone. -/
theorem cell_eq_place {r : Rule T N P} (hr : r ∈ g.complete s) (honly : ∀ q ∈ g.complete s, q = r)
    (hfollow : t ∈ g.follow r.lhs) :
    g.cell g.follow number s t = g.place t (g.opening number s t) r := by
  have hfold : ∀ rules : List (Rule T N P), (∀ q ∈ rules, q = r) → ∀ cell,
      rules.foldl (g.place t) (g.place t cell r) = g.place t cell r := by
    intro rules
    induction rules with
    | nil => exact fun _ _ => rfl
    | cons q rest ih =>
      intro hall cell
      rw [List.forall_mem_cons] at hall
      rw [List.foldl_cons, hall.1, place_place]
      exact ih hall.2 cell
  unfold cell
  generalize hrules : (g.complete s).filter (fun q => t ∈ g.follow q.lhs) = rules
  have hmem : r ∈ rules := hrules ▸ List.mem_filter.mpr ⟨hr, decide_eq_true hfollow⟩
  have hall : ∀ q ∈ rules, q = r := fun q hq => honly q (List.mem_filter.mp (hrules ▸ hq)).1
  cases rules with
  | nil => exact absurd hmem List.not_mem_nil
  | cons q rest =>
    rw [List.forall_mem_cons] at hall
    rw [List.foldl_cons, hall.1]
    exact hfold rest hall.2 _

theorem opening_eq_shift {k : T} (hk : .terminal k ∈ g.nextSymbols s) :
    g.opening number s (some k) = some (.shift (number (g.goto s (.terminal k)))) :=
  if_pos hk

namespace OfOperators

variable (h : g.OfOperators tag operand operators)

include h

/-- What can stand behind an expression. -/
theorem mem_follow (ht : ∀ k ∈ t, k ∈ operators) : t ∈ g.follow g.start := by
  cases t with
  | none => exact none_mem_follow_start
  | some k =>
    have hk : k ∈ operators := ht k rfl
    have hrest : [.terminal k, .nonterminal g.start] ∈ rests g.start (g.binary tag k).rhs :=
      mem_rests.mpr ⟨[], rfl⟩
    exact mem_follow_of_rests (h.binary_mem hk) hrest
      (mem_firstOf_iff.mpr ⟨.terminal k, List.mem_cons_self, .refl⟩)

/-- Behind a terminal only an operand can be complete. -/
theorem complete_terminal {k : T} {r : Rule T N P}
    (hr : r ∈ g.complete (g.stateAfter (before ++ [.terminal k]))) :
    r = g.single tag operand ∧ k = operand := by
  obtain ⟨front, hfront⟩ := suffix_of_mem_complete hr
  obtain rfl | ⟨op, -, rfl⟩ := h.mem_rules.mp (mem_rules_of_mem_complete hr)
  · obtain ⟨-, hlast⟩ := List.append_inj' hfront rfl
    exact ⟨rfl, (Symbol.terminal.inj (List.singleton_inj.mp hlast)).symm⟩
  · have hlast := congrArg List.getLast? hfront
    simp [binary] at hlast

/-- Behind an expression only an operator can be complete, the last one before the expression. -/
theorem complete_expression {r : Rule T N P}
    (hr : r ∈ g.complete (g.stateAfter (before ++ [.nonterminal g.start]))) :
    ∃ op front, r = g.binary tag op ∧ before = front ++ [.nonterminal g.start, .terminal op] := by
  obtain ⟨front, hfront⟩ := suffix_of_mem_complete hr
  obtain rfl | ⟨op, -, rfl⟩ := h.mem_rules.mp (mem_rules_of_mem_complete hr)
  · have hlast := congrArg List.getLast? hfront
    simp [single] at hlast
  · have hsplit : (front ++ [.nonterminal g.start, .terminal op]) ++ [.nonterminal g.start] =
        before ++ [.nonterminal g.start] := by
      rw [List.append_assoc]
      exact hfront
    exact ⟨op, front, rfl, (List.append_inj' hsplit rfl).1.symm⟩

/-- Where an operand is to come, it is taken. -/
theorem cell_awaiting (number : State → Nat) (hbefore : g.Awaiting operators before) :
    g.cell g.follow number (g.stateAfter before) (some operand) =
      some (.shift (number (g.goto (g.stateAfter before) (.terminal operand)))) := by
  rw [cell_eq_opening, opening_eq_shift]
  · obtain ⟨i, hi, hwalk⟩ := h.viable_walk hbefore h.single_mem
    have hzero := hwalk 0 (Nat.zero_le _)
    rw [List.take_zero, List.append_nil] at hzero
    refine mem_nextSymbols_stateAfter.mpr ⟨_, hzero, ?_⟩
    rw [nextSymbol_eq_some_iff, rhsOf_succ hi]
    rfl
  · intro r hr
    cases hbefore with
    | nil =>
      have hnil := List.suffix_nil.mp (suffix_of_mem_complete hr)
      exact h.proper.nonempty r (mem_rules_of_mem_complete hr) hnil
    | concat hbefore hop =>
      rw [← List.singleton_append, ← List.append_assoc] at hr
      exact h.operand_not_mem ((h.complete_terminal hr).2 ▸ hop)

/-- Behind an operand, it is an expression. -/
theorem cell_operand (number : State → Nat) (hbefore : g.Awaiting operators before)
    (ht : ∀ k ∈ t, k ∈ operators) :
    g.cell g.follow number (g.stateAfter (before ++ [.terminal operand])) t =
      some (.reduce (g.single tag operand)) := by
  have hopening : g.opening number (g.stateAfter (before ++ [.terminal operand])) t = none := by
    cases t with
    | none =>
      refine if_neg fun hitem => ?_
      have hlast := congrArg List.getLast? (eq_start_of_accept hitem)
      simp at hlast
    | some k =>
      refine if_neg fun hnext => ?_
      obtain ⟨item, hviable, hx⟩ := mem_nextSymbols_stateAfter.mp hnext
      obtain hnil | ⟨front, op, hop, hlast⟩ | ⟨front, hlast⟩ := h.before_terminal hviable hx
      · simp at hnil
      · have hsame := List.append_inj_right' hlast rfl
        simp only [List.cons.injEq, Symbol.terminal.injEq, and_true] at hsame
        exact h.operand_not_mem (hsame ▸ hop)
      · have hsame := List.append_inj_right' hlast rfl
        simp at hsame
  obtain ⟨i, hi, hwalk⟩ := h.viable_walk hbefore h.single_mem
  have hcomplete : g.single tag operand ∈
      g.complete (g.stateAfter (before ++ [.terminal operand])) :=
    mem_complete.mpr ⟨i, 1, mem_stateAfter_iff.mpr (hwalk 1 (Nat.le_refl _)), hi, Nat.le_refl _⟩
  rw [cell_eq_place hcomplete (fun q hq => (h.complete_terminal hq).1) (h.mem_follow ht), hopening]
  rfl

/-- Behind an expression, each operator is expected. -/
theorem operator_mem_nextSymbols (hbefore : g.Awaiting operators before) (hop : op ∈ operators) :
    .terminal op ∈ g.nextSymbols (g.stateAfter (before ++ [.nonterminal g.start])) := by
  obtain ⟨i, hi, hwalk⟩ := h.viable_walk hbefore (h.binary_mem hop)
  refine mem_nextSymbols_stateAfter.mpr ⟨⟨i + 1, 1⟩, hwalk 1 (Nat.le_add_left 1 2), ?_⟩
  rw [nextSymbol_eq_some_iff, rhsOf_succ hi]
  rfl

/-- No rule is complete behind the first expression. -/
theorem not_mem_complete_first (r : Rule T N P) :
    r ∉ g.complete (g.stateAfter [.nonterminal g.start]) := by
  intro hr
  rw [← List.nil_append [Symbol.nonterminal g.start]] at hr
  obtain ⟨op, front, -, hfront⟩ := h.complete_expression hr
  simp at hfront

/-- Behind the first expression the end of the input is accepted. -/
theorem cell_first_end (number : State → Nat) :
    g.cell g.follow number (g.stateAfter [.nonterminal g.start]) none = some .accept := by
  rw [cell_eq_opening h.not_mem_complete_first]
  exact if_pos (mem_stateAfter_iff.mpr (.advance .start rfl))

/-- Behind the first expression an operator is taken. -/
theorem cell_first (number : State → Nat) (hop : op ∈ operators) :
    g.cell g.follow number (g.stateAfter [.nonterminal g.start]) (some op) =
      some (.shift (number (g.goto (g.stateAfter [.nonterminal g.start]) (.terminal op)))) := by
  rw [cell_eq_opening h.not_mem_complete_first]
  exact opening_eq_shift (h.operator_mem_nextSymbols .nil hop)

/-- Behind an operator between two expressions, its rule is the only one that is complete. -/
theorem cell_eq_place_binary (hbefore : g.Awaiting operators before) (hop : op ∈ operators)
    (ht : ∀ k ∈ t, k ∈ operators) :
    g.cell g.follow number (g.stateAfter (before ++ (g.binary tag op).rhs)) t =
      g.place t (g.opening number (g.stateAfter (before ++ (g.binary tag op).rhs)) t)
        (g.binary tag op) := by
  obtain ⟨i, hi, hwalk⟩ := h.viable_walk hbefore (h.binary_mem hop)
  have hviable := hwalk 3 (Nat.le_refl _)
  refine cell_eq_place (mem_complete.mpr ⟨i, 3, ?_, hi, Nat.le_refl _⟩) (fun q hq => ?_)
    (h.mem_follow ht)
  · exact mem_stateAfter_iff.mpr hviable
  · have hsplit : before ++ (g.binary tag op).rhs =
        (before ++ [.nonterminal g.start, .terminal op]) ++ [.nonterminal g.start] := by
      rw [List.append_assoc]
      rfl
    rw [hsplit] at hq
    obtain ⟨op', front, rfl, hfront⟩ := h.complete_expression hq
    have hsame := List.append_inj_right' hfront rfl
    simp only [List.cons.injEq, Symbol.terminal.injEq, and_true, true_and] at hsame
    rw [hsame]

/-- At the end of the input, an operator between two expressions is put together with them. -/
theorem cell_between_end (number : State → Nat) (hbefore : g.Awaiting operators before)
    (hop : op ∈ operators) :
    g.cell g.follow number (g.stateAfter (before ++ (g.binary tag op).rhs)) none =
      some (.reduce (g.binary tag op)) := by
  have hopening :
      g.opening number (g.stateAfter (before ++ (g.binary tag op).rhs)) none = none := by
    refine if_neg fun hitem => ?_
    have hlength := congrArg List.length (eq_start_of_accept hitem)
    simp [binary] at hlength
  have ht : ∀ k ∈ (none : Option T), k ∈ operators := fun k hk =>
    (Option.not_mem_none k hk).elim
  rw [h.cell_eq_place_binary hbefore hop ht, hopening]
  rfl

/-- An operator between two expressions meets the next operator. -/
theorem cell_between (number : State → Nat) (hbefore : g.Awaiting operators before)
    (hp : p ∈ operators) (hq : q ∈ operators) :
    g.cell g.follow number (g.stateAfter (before ++ (g.binary tag p).rhs)) (some q) =
      some (g.preferred (g.binary tag p) (some q)
        (number (g.goto (g.stateAfter (before ++ (g.binary tag p).rhs)) (.terminal q)))) := by
  have hnext : .terminal q ∈ g.nextSymbols (g.stateAfter (before ++ (g.binary tag p).rhs)) := by
    have hbehind := h.operator_mem_nextSymbols (hbefore.concat hp) hq
    rw [List.append_assoc] at hbehind
    exact hbehind
  rw [h.cell_eq_place_binary hbefore hp (fun k hk => Option.some.inj hk ▸ hq),
    opening_eq_shift hnext]
  rfl

end OfOperators

end Grammar

end SchemaBridge
