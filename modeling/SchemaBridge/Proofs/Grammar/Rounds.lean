/-
  First and follow sets by rounds over the rules. A round reads every rule from left to right and
  breaks off at the first symbol that is not known to vanish; a nonterminal at the end of one of its
  own rules is passed over. The rounds go over a grammar with one rule more, from a symbol above the
  grammar to its start symbol, and behind this symbol stands the end of the input.
  Main result: `rounds_exact`.
-/
import SchemaBridge.Proofs.Grammar.Augmented
import SchemaBridge.Proofs.Grammar.Saturation

namespace SchemaBridge.Grammar

variable {T N P : Type} {g : Grammar T N P}

/-! ## What there is to be found -/

/-- What can be found of beginnings. -/
def firstStock (g : Grammar T N P) : List (Fact T N) :=
  g.heads.map .vanishes ++ g.heads.flatMap fun n => g.terminals.map (.begins n)

theorem begins_mem_firstStock {n : N} {t : T} :
    .begins n t ∈ g.firstStock ↔ n ∈ g.heads ∧ t ∈ g.terminals := by
  simp [firstStock]

/-- The terminals that lead a part of a right-hand side are those of the grammar. -/
theorem mem_terminals_of_leads {known : Fact T N → Prop} {t : T}
    (hknown : ∀ n, known (.begins n t) → t ∈ g.terminals) {r : Rule T N P} (hr : r ∈ g.rules)
    {xs : List (Symbol T N)} (hxs : xs ⊆ r.rhs) (h : Leads known t xs) : t ∈ g.terminals := by
  induction xs with
  | nil => exact h.elim
  | cons x rest ih =>
    cases x with
    | terminal u =>
      obtain rfl : u = t := h
      exact List.mem_flatMap.mpr ⟨r, hr, List.mem_filterMap.mpr ⟨_, hxs List.mem_cons_self, rfl⟩⟩
    | nonterminal n =>
      rcases h with hn | ⟨-, hrest⟩
      · exact hknown n hn
      · exact ih (fun x hx => hxs (List.mem_cons_of_mem _ hx)) hrest

theorem mem_firstStock_of_beginning {f : Fact T N} (h : g.Beginning (· ∈ g.firstStock) f) :
    f ∈ g.firstStock := by
  cases f with
  | vanishes n =>
    obtain ⟨r, hr, rfl, -⟩ := h
    exact List.mem_append_left _ (List.mem_map_of_mem (List.mem_map_of_mem hr))
  | begins n t =>
    obtain ⟨r, hr, rfl, hrhs⟩ := h
    have ht := mem_terminals_of_leads (fun _ hn => (begins_mem_firstStock.mp hn).2) hr
      (List.Subset.refl _) hrhs
    exact begins_mem_firstStock.mpr ⟨List.mem_map_of_mem hr, ht⟩

/-- What a rule shows to stand behind a nonterminal before some of its symbols. -/
def ShownBehind (known : Fact T N → Prop) (lhs : N) (after : List (Symbol T N))
    (seen : N × Option T → Prop) (u : Option T) : Prop :=
  (∃ t, u = some t ∧ Leads known t after) ∨ (Vanish known after ∧ seen (lhs, u))

/-- What can be found to stand behind. -/
def followStock (g : Grammar T N P) : List (N × Option T) :=
  (g.start :: g.used).product (none :: g.terminals.map some)

theorem mem_followStock {p : N × Option T} : p ∈ g.followStock ↔
    (p.1 = g.start ∨ p.1 ∈ g.used) ∧ ∀ t, p.2 = some t → t ∈ g.terminals := by
  obtain ⟨n, u⟩ := p
  unfold followStock
  rw [List.pair_mem_product, List.mem_cons]
  cases u <;> simp

theorem mem_terminals_of_begun {n : N} {t : T} (h : g.Begun (.begins n t)) : t ∈ g.terminals :=
  (begins_mem_firstStock.mp (known_of_begun (fun _ => mem_firstStock_of_beginning) h)).2

theorem following_iff {seen : N × Option T → Prop} {p : N × Option T} :
    g.Following seen p ↔ p = (g.start, none) ∨ ∃ r ∈ g.rules, ∃ before after,
      r.rhs = before ++ .nonterminal p.1 :: after ∧ ShownBehind g.Begun r.lhs after seen p.2 :=
  Iff.rfl

theorem mem_followStock_of_following {p : N × Option T}
    (h : g.Following (· ∈ g.followStock) p) : p ∈ g.followStock := by
  rcases h with rfl | ⟨r, hr, before, after, hrhs, hshown⟩
  · exact mem_followStock.mpr ⟨.inl rfl, nofun⟩
  · have hin : .nonterminal p.1 ∈ r.rhs := hrhs ▸ List.mem_append_right _ List.mem_cons_self
    have hafter : after ⊆ r.rhs := fun x hx =>
      hrhs ▸ List.mem_append_right _ (List.mem_cons_of_mem _ hx)
    refine mem_followStock.mpr ⟨.inr ?_, fun u hu => ?_⟩
    · exact List.mem_flatMap.mpr ⟨r, hr, List.mem_filterMap.mpr ⟨_, hin, rfl⟩⟩
    · rcases hshown with ⟨t, ht, hleads⟩ | ⟨-, hseen⟩
      · obtain rfl := Option.some.inj (hu.symm.trans ht)
        exact mem_terminals_of_leads (fun _ => mem_terminals_of_begun) hr hafter hleads
      · exact (mem_followStock.mp hseen).2 u hu

/-! ## Rounds -/

variable [DecidableEq T] [DecidableEq N]

/-- A terminal that the nonterminal is said to begin with. -/
def Fact.begins? (n : N) : Fact T N → Option T
  | .vanishes _ => none
  | .begins m t => if m = n then some t else none

/-- Enters for the head of a rule what its right-hand side shows. -/
def scan (lhs : N) : List (Symbol T N) → Finds (Fact T N) → Finds (Fact T N)
  | [], s => s.add (.vanishes lhs)
  | .terminal t :: _, s => s.add (.begins lhs t)
  | .nonterminal n :: rest, s =>
    let s := s.addAll (s.found.filterMap fun f => (f.begins? n).map (.begins lhs))
    if .vanishes n ∈ s.found then scan lhs rest s else s

def firstRound (g : Grammar T N P) (s : Finds (Fact T N)) : Finds (Fact T N) :=
  g.rules.foldl (fun s r => scan r.lhs r.rhs s) s

/-- What begins with what, and what vanishes. `none` if that takes more than `limit` rounds. -/
def firstByRounds (g : Grammar T N P) (limit : Nat) : Option (Finds (Fact T N)) :=
  Finds.settle g.firstRound limit ⟨[], List.nodup_nil, true⟩

/-- Enters what can come behind `n` in a rule, from the symbols behind it. -/
def behind (known : List (Fact T N)) (lhs n : N) :
    List (Symbol T N) → Finds (N × Option T) → Finds (N × Option T)
  | [], s =>
    if n = lhs then s
    else s.addAll (s.found.filterMap fun p => if p.1 = lhs then some (n, p.2) else none)
  | .terminal t :: _, s => s.add (n, some t)
  | .nonterminal m :: rest, s =>
    let s := s.addAll (known.filterMap fun f => (f.begins? m).map fun t => (n, some t))
    if .vanishes m ∈ known then behind known lhs n rest s else s

/-- Looks behind each nonterminal of a right-hand side. -/
def lookBehind (known : List (Fact T N)) (lhs : N) :
    List (Symbol T N) → Finds (N × Option T) → Finds (N × Option T)
  | [], s => s
  | .terminal _ :: rest, s => lookBehind known lhs rest s
  | .nonterminal n :: rest, s => lookBehind known lhs rest (behind known lhs n rest s)

def followRound (g : Grammar T N P) (known : List (Fact T N)) (s : Finds (N × Option T)) :
    Finds (N × Option T) :=
  g.rules.foldl (fun s r => lookBehind known r.lhs r.rhs s) s

/-- What stands behind what, from what is known of beginnings. -/
def followByRounds (g : Grammar T N P) (limit : Nat) (known : List (Fact T N)) :
    Option (Finds (N × Option T)) :=
  Finds.settle (g.followRound known) limit ⟨[(g.start, none)], List.nodup_singleton _, true⟩

/-! ## Beginnings -/

omit [DecidableEq T] in
theorem begins?_eq_some {f : Fact T N} {n : N} {t : T} :
    f.begins? n = some t ↔ f = .begins n t := by
  cases f with
  | vanishes m => simp [Fact.begins?]
  | begins m u => simp [Fact.begins?]

theorem pass_scan (lhs : N) (xs : List (Symbol T N)) :
    Pass (fun known f => (f = .vanishes lhs ∧ Vanish known xs) ∨
      ∃ t, f = .begins lhs t ∧ Leads known t xs) (scan lhs xs) := by
  induction xs with
  | nil =>
    refine (Pass.enter_one _).congr fun known f => ?_
    simp [Vanish, Leads]
  | cons x rest ih =>
    cases x with
    | terminal u =>
      refine (Pass.enter_one _).congr fun known f => ?_
      simp [Vanish, Leads]
    | nonterminal n =>
      have hcarry := Pass.carry fun f : Fact T N => (f.begins? n).map (.begins lhs)
      have hrest := Pass.guard (fun known => known (.vanishes n)) (fun _ _ h => h _) ih
      refine (hcarry.seq hrest).congr fun known f => ?_
      simp only [Option.map_eq_some_iff, begins?_eq_some, Vanish, Leads]
      constructor
      · rintro (⟨_, hn, t, rfl, rfl⟩ | ⟨hn, ⟨hf, hvanish⟩ | ⟨t, hf, ht⟩⟩)
        · exact .inr ⟨t, rfl, .inl hn⟩
        · exact .inl ⟨hf, hn, hvanish⟩
        · exact .inr ⟨t, hf, .inr ⟨hn, ht⟩⟩
      · rintro (⟨hf, hn, hvanish⟩ | ⟨t, hf, ht | ⟨hn, ht⟩⟩)
        · exact .inr ⟨hn, .inl ⟨hf, hvanish⟩⟩
        · exact .inl ⟨_, ht, t, rfl, hf.symm⟩
        · exact .inr ⟨hn, .inr ⟨t, hf, ht⟩⟩

theorem pass_firstRound : Pass g.Beginning g.firstRound := by
  refine (Pass.each (fun r => pass_scan r.lhs r.rhs) g.rules).congr fun known f => ?_
  cases f with
  | vanishes n => simp [Beginning, eq_comm]
  | begins n t => simp [Beginning, eq_comm]

theorem firstByRounds_eq :
    ∃ s, (∀ limit, g.firstStock.length < limit → g.firstByRounds limit = some s) ∧
      ∀ f, f ∈ s.found ↔ g.Begun f := by
  obtain ⟨s, hs, hleast⟩ := pass_firstRound.settle_eq (fun _ => mem_firstStock_of_beginning)
    (⟨[], List.nodup_nil, true⟩ : Finds (Fact T N)) (fun _ hf => absurd hf List.not_mem_nil) rfl
  refine ⟨s, hs, fun f => iff_of_eq (congrFun (hleast.unique ?_) f)⟩
  simpa using isLeast_begun

/-! ## What stands behind -/

theorem pass_behind (known : List (Fact T N)) (lhs n : N) (xs : List (Symbol T N)) :
    Pass (fun seen p => p.1 = n ∧ ShownBehind (· ∈ known) lhs xs seen p.2)
      (behind known lhs n xs) := by
  unfold ShownBehind
  induction xs with
  | nil =>
    by_cases hn : n = lhs
    · -- what stands behind the rule stands behind its head already
      have hskip : behind known lhs n [] = id := funext fun s => if_pos hn
      rw [hskip]
      subst hn
      refine Pass.skip ?_
      rintro seen ⟨m, u⟩ ⟨rfl, h⟩
      simpa [Vanish, Leads] using h
    · have hpass : behind known lhs n [] = fun s => s.addAll (s.found.filterMap fun p =>
          if p.1 = lhs then some (n, p.2) else none) := funext fun s => if_neg hn
      rw [hpass]
      refine (Pass.carry _).congr ?_
      rintro seen ⟨m, u⟩
      simp [Vanish, Leads, and_comm, eq_comm]
  | cons x rest ih =>
    cases x with
    | terminal u =>
      refine (Pass.enter_one _).congr ?_
      rintro seen ⟨m, v⟩
      simp [Vanish, Leads]
    | nonterminal k =>
      have henter := Pass.enter_all
        (known.filterMap fun f => (f.begins? k).map fun t => (n, some t))
      have hrest := Pass.guard (fun _ => .vanishes k ∈ known) (fun _ _ _ => id) ih
      refine (henter.seq hrest).congr ?_
      rintro seen ⟨m, u⟩
      simp only [List.mem_filterMap, Option.map_eq_some_iff, begins?_eq_some, Prod.mk.injEq,
        Vanish, Leads]
      constructor
      · rintro (⟨_, hk, t, rfl, rfl, rfl⟩ | ⟨hk, hm, ⟨t, hu, ht⟩ | ⟨hvanish, hseen⟩⟩)
        · exact ⟨rfl, .inl ⟨t, rfl, .inl hk⟩⟩
        · exact ⟨hm, .inl ⟨t, hu, .inr ⟨hk, ht⟩⟩⟩
        · exact ⟨hm, .inr ⟨⟨hk, hvanish⟩, hseen⟩⟩
      · rintro ⟨hm, ⟨t, hu, ht | ⟨hk, ht⟩⟩ | ⟨⟨hk, hvanish⟩, hseen⟩⟩
        · exact .inl ⟨_, ht, t, rfl, hm.symm, hu.symm⟩
        · exact .inr ⟨hk, hm, .inl ⟨t, hu, ht⟩⟩
        · exact .inr ⟨hk, hm, .inr ⟨hvanish, hseen⟩⟩

theorem pass_lookBehind (known : List (Fact T N)) (lhs : N) (xs : List (Symbol T N)) :
    Pass (fun seen p => ∃ before after, xs = before ++ .nonterminal p.1 :: after ∧
      ShownBehind (· ∈ known) lhs after seen p.2) (lookBehind known lhs xs) := by
  induction xs with
  | nil => exact Pass.skip fun _ _ ⟨before, _, hnil, _⟩ => by simp at hnil
  | cons x rest ih =>
    cases x with
    | terminal u =>
      refine ih.congr fun seen p => ?_
      constructor
      · rintro ⟨before, after, rfl, h⟩
        exact ⟨.terminal u :: before, after, rfl, h⟩
      · rintro ⟨before, after, hsplit, h⟩
        cases before with
        | nil => cases hsplit
        | cons b before => exact ⟨before, after, (List.cons.inj hsplit).2, h⟩
    | nonterminal n =>
      refine ((pass_behind known lhs n rest).seq ih).congr fun seen p => ?_
      constructor
      · rintro (⟨rfl, h⟩ | ⟨before, after, rfl, h⟩)
        · exact ⟨[], rest, rfl, h⟩
        · exact ⟨.nonterminal n :: before, after, rfl, h⟩
      · rintro ⟨before, after, hsplit, h⟩
        cases before with
        | nil =>
          obtain ⟨hn, rfl⟩ := List.cons.inj hsplit
          exact .inl ⟨(Symbol.nonterminal.inj hn).symm, h⟩
        | cons b before => exact .inr ⟨before, after, (List.cons.inj hsplit).2, h⟩

theorem pass_followRound (known : List (Fact T N)) :
    Pass (fun seen p => ∃ r ∈ g.rules, ∃ before after,
      r.rhs = before ++ .nonterminal p.1 :: after ∧
        ShownBehind (· ∈ known) r.lhs after seen p.2) (g.followRound known) :=
  Pass.each (fun r => pass_lookBehind known r.lhs r.rhs) g.rules

theorem followByRounds_eq {known : List (Fact T N)} (hknown : ∀ f, f ∈ known ↔ g.Begun f) :
    ∃ s, (∀ limit, g.followStock.length ≤ limit → g.followByRounds limit known = some s) ∧
      IsLeast {seen | ∀ p, g.Following seen p → seen p} (· ∈ s.found) := by
  have hbegun : (· ∈ known) = g.Begun := funext fun f => propext (hknown f)
  have hpass := pass_followRound (g := g) known
  rw [hbegun] at hpass
  have hseed : ∀ p ∈ [(g.start, none)], p ∈ g.followStock := fun p hp =>
    mem_followStock_of_following (.inl (List.mem_singleton.mp hp))
  obtain ⟨s, hs, hleast⟩ := hpass.settle_eq
    (fun p hp => mem_followStock_of_following (following_iff.mpr (.inr hp)))
    ⟨[(g.start, none)], List.nodup_singleton _, true⟩ hseed rfl
  refine ⟨s, fun limit hlimit => hs limit (Nat.lt_succ_of_le hlimit), ?_⟩
  convert hleast using 3 with seen
  simp [following_iff, or_imp, forall_and]

/-! ## The outcome of the rounds -/

/-- The rounds come to an end for every grammar, with no more of them than there are things to be
found, and one. What they find to vanish and to begin with a terminal is what derivations show. They
find whatever can stand behind a nonterminal, and nothing else where every nonterminal occurs below
the start symbol. And these are the sets behind the tables. -/
theorem rounds_exact (g : Grammar T N P) :
    ∃ begun follow,
      (∀ limit, g.augmented.firstStock.length < limit →
        g.augmented.firstByRounds limit = some begun) ∧
      (∀ limit, g.augmented.followStock.length ≤ limit →
        g.augmented.followByRounds limit begun.found = some follow) ∧
      (∀ n, .vanishes n ∈ begun.found ↔ g.augmented.Derives [.nonterminal n] []) ∧
      (∀ n t, .begins n t ∈ begun.found ↔
        ∃ rest, g.augmented.Derives [.nonterminal n] (.terminal t :: rest)) ∧
      (∀ n u, g.augmented.StandsBehind (n, u) → (n, u) ∈ follow.found) ∧
      ((∀ n ∈ g.heads, g.Occurs n) →
        ∀ n u, (n, u) ∈ follow.found → g.augmented.StandsBehind (n, u)) ∧
      ∀ n, (.vanishes (some n) ∈ begun.found ↔ n ∈ g.nullable) ∧
        (∀ t, .begins (some n) t ∈ begun.found ↔ t ∈ g.first n) ∧
        ∀ u, (some n, u) ∈ follow.found ↔ u ∈ g.follow n := by
  obtain ⟨begun, hbegun, hmem⟩ := g.augmented.firstByRounds_eq
  obtain ⟨follow, hfollow, hleast⟩ := g.augmented.followByRounds_eq hmem
  have htabled : ∀ f : Fact T N, f.rename some ∈ begun.found ↔ g.Tabled f := fun f =>
    (hmem _).trans (iff_of_eq (congrFun (begun_rename_some.trans tabled_eq_begun.symm) f))
  refine ⟨begun, follow, hbegun, hfollow, fun n => hmem (.vanishes n),
    fun n t => hmem (.begins n t), fun n u => known_of_standsBehind hleast.1,
    fun hoccurs n u => ?_, fun n => ⟨?_, ?_, ?_⟩⟩
  · have hall : ∀ r ∈ g.augmented.rules, g.augmented.Occurs r.lhs := by
      intro r hr
      rcases List.mem_cons.mp hr with rfl | hr
      · exact ⟨[], [], .refl⟩
      · obtain ⟨below, hbelow, rfl⟩ := List.mem_map.mp hr
        exact (hoccurs _ (List.mem_map_of_mem hbelow)).lift
    exact hleast.2 (isLeast_standsBehind hall).1 (n, u)
  · exact htabled (.vanishes n)
  · exact fun t => htabled (.begins n t)
  · exact fun u => mem_follow_iff_of_isLeast hleast

/-- Any number of words, each a letter or nothing. -/
def wordy : Grammar Char Bool Unit where
  start := true
  rules := [⟨true, [.nonterminal false, .nonterminal true], ()⟩, ⟨true, [], ()⟩,
    ⟨false, [.terminal 'a'], ()⟩, ⟨false, [], ()⟩]

theorem occurs_wordy : ∀ n ∈ wordy.heads, wordy.Occurs n := by
  intro n _
  cases n with
  | true => exact ⟨[], [], .refl⟩
  | false =>
    have hmore : ⟨true, [.nonterminal false, .nonterminal true], ()⟩ ∈ wordy.rules := by decide
    exact ⟨[], [.nonterminal true], derives_of_rule hmore .refl⟩

/-- A letter or the end of the input stands behind a word, and nothing else. -/
theorem rounds_exact_wordy : ∃ begun follow, wordy.augmented.firstByRounds 20 = some begun ∧
    wordy.augmented.followByRounds 20 begun.found = some follow ∧ .vanishes none ∈ begun.found ∧
    .begins none 'a' ∈ begun.found ∧
    ∀ u, wordy.augmented.StandsBehind (some false, u) ↔ u = none ∨ u = some 'a' := by
  obtain ⟨begun, follow, hbegun, hfollow, hvanishes, hbegins, hfound, honly, htables⟩ :=
    rounds_exact wordy
  have htop : ⟨none, [.nonterminal (some true)], none⟩ ∈ wordy.augmented.rules := by decide
  have hstop : ⟨some true, [], some ()⟩ ∈ wordy.augmented.rules := by decide
  have hmore : ⟨some true, [.nonterminal (some false), .nonterminal (some true)], some ()⟩ ∈
      wordy.augmented.rules := by decide
  have hword : ⟨some false, [.terminal 'a'], some ()⟩ ∈ wordy.augmented.rules := by decide
  have hfollowWord : wordy.follow false = [none, some 'a'] := by decide
  refine ⟨begun, follow, hbegun 20 (by decide), hfollow 20 (by decide), ?_, ?_, fun u => ?_⟩
  · exact (hvanishes none).mpr (derives_of_rule htop (derives_of_rule hstop .refl))
  · have hletter := (derives_of_rule hword .refl).append (.refl (a := [.nonterminal (some true)]))
    exact (hbegins none 'a').mpr ⟨_, derives_of_rule htop (derives_of_rule hmore hletter)⟩
  · have htable : (some false, u) ∈ follow.found ↔ u = none ∨ u = some 'a' := by
      simpa [hfollowWord] using (htables false).2.2 u
    exact ⟨fun h => htable.mp (hfound _ _ h), fun h => honly occurs_wordy _ _ (htable.mpr h)⟩

end SchemaBridge.Grammar
