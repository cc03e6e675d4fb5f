/-
  A grammar with a symbol above it. A rule more leads from this symbol to the start symbol, and
  what derivations show of the nonterminals below stays the same.
  Main results: `begun_rename_some` and `mem_follow_iff_of_isLeast`.
-/
import SchemaBridge.Proofs.Grammar.Sentential

namespace SchemaBridge.Grammar

variable {T N M P : Type}

def renameSymbol (φ : N → M) : Symbol T N → Symbol T M
  | .terminal t => .terminal t
  | .nonterminal n => .nonterminal (φ n)

def Fact.rename (φ : N → M) : Fact T N → Fact T M
  | .vanishes n => .vanishes (φ n)
  | .begins n t => .begins (φ n) t

def liftRule (r : Rule T N P) : Rule T (Option N) (Option P) :=
  ⟨some r.lhs, r.rhs.map (renameSymbol some), some r.tag⟩

/-- The grammar with a symbol above it, that leads to its start symbol. -/
def augmented (g : Grammar T N P) : Grammar T (Option N) (Option P) where
  start := none
  rules := ⟨none, [.nonterminal (some g.start)], none⟩ :: g.rules.map liftRule
  levels := g.levels

variable {g : Grammar T N P} {xs ys : List (Symbol T N)} {known : Fact T M → Prop} {t : T}

theorem vanish_rename (φ : N → M) :
    Vanish known (xs.map (renameSymbol φ)) ↔ Vanish (fun f => known (f.rename φ)) xs := by
  induction xs with
  | nil => rfl
  | cons x rest ih => cases x <;> simp [renameSymbol, Fact.rename, Vanish, ih]

theorem leads_rename (φ : N → M) :
    Leads known t (xs.map (renameSymbol φ)) ↔ Leads (fun f => known (f.rename φ)) t xs := by
  induction xs with
  | nil => rfl
  | cons x rest ih => cases x <;> simp [renameSymbol, Fact.rename, Leads, ih]

theorem liftRule_mem {r : Rule T N P} (hr : r ∈ g.rules) : liftRule r ∈ g.augmented.rules :=
  List.mem_cons_of_mem _ (List.mem_map_of_mem hr)

theorem Derives.lift (h : g.Derives xs ys) :
    g.augmented.Derives (xs.map (renameSymbol some)) (ys.map (renameSymbol some)) := by
  induction h with
  | refl => exact .refl
  | tail _ hstep ih =>
    refine ih.tail ?_
    cases hstep with
    | rule hr before after =>
      rw [List.map_append, List.map_cons, List.map_append, List.map_append]
      exact .rule (liftRule_mem hr) _ _

/-- Every nonterminal that occurs below the start symbol occurs below the one above it. -/
theorem Occurs.lift {n : N} (h : g.Occurs n) : g.augmented.Occurs (some n) := by
  obtain ⟨before, after, hform⟩ := h
  have htop : ⟨none, [.nonterminal (some g.start)], none⟩ ∈ g.augmented.rules :=
    List.mem_cons_self
  have hlift := hform.lift
  rw [List.map_append] at hlift
  exact ⟨_, _, derives_of_rule htop hlift⟩

theorem rename_some_getD (f : Fact T N) (n : N) : (f.rename some).rename (·.getD n) = f := by
  cases f <;> rfl

/-- Read with the start symbol in the place of the symbol above it, the rules of both say the
same. -/
theorem begun_of_beginning_augmented {f : Fact T (Option N)}
    (h : g.augmented.Beginning (fun f => g.Begun (f.rename (·.getD g.start))) f) :
    g.Begun (f.rename (·.getD g.start)) := by
  cases f with
  | vanishes m =>
    obtain ⟨r, hr, rfl, hrhs⟩ := h
    rcases List.mem_cons.mp hr with rfl | hr
    · exact hrhs.1
    · obtain ⟨below, hbelow, rfl⟩ := List.mem_map.mp hr
      rw [liftRule, vanish_rename] at hrhs
      simp only [rename_some_getD] at hrhs
      exact begun_of_beginning ⟨below, hbelow, rfl, hrhs⟩
  | begins m t =>
    obtain ⟨r, hr, rfl, hrhs⟩ := h
    rcases List.mem_cons.mp hr with rfl | hr
    · exact hrhs.resolve_right fun hnil => hnil.2
    · obtain ⟨below, hbelow, rfl⟩ := List.mem_map.mp hr
      rw [liftRule, leads_rename] at hrhs
      simp only [rename_some_getD] at hrhs
      exact begun_of_beginning ⟨below, hbelow, rfl, hrhs⟩

theorem begun_lift_of_beginning {f : Fact T N}
    (h : g.Beginning (fun f => g.augmented.Begun (f.rename some)) f) :
    g.augmented.Begun (f.rename some) := by
  apply begun_of_beginning
  cases f with
  | vanishes n =>
    obtain ⟨r, hr, rfl, hrhs⟩ := h
    exact ⟨liftRule r, liftRule_mem hr, rfl, (vanish_rename some).mpr hrhs⟩
  | begins n t =>
    obtain ⟨r, hr, rfl, hrhs⟩ := h
    exact ⟨liftRule r, liftRule_mem hr, rfl, (leads_rename some).mpr hrhs⟩

/-- Nothing more can be said of the nonterminals of the grammar. -/
theorem begun_rename_some : (fun f => g.augmented.Begun (f.rename some)) = g.Begun := by
  funext f
  refine propext ⟨fun h => ?_, known_of_begun fun _ => begun_lift_of_beginning⟩
  have hlower := known_of_begun (fun _ => begun_of_beginning_augmented) h
  rwa [rename_some_getD] at hlower

theorem vanish_lift :
    Vanish g.augmented.Begun (xs.map (renameSymbol some)) ↔ Vanish g.Begun xs := by
  rw [vanish_rename, begun_rename_some]

theorem leads_lift :
    Leads g.augmented.Begun t (xs.map (renameSymbol some)) ↔ Leads g.Begun t xs := by
  rw [leads_rename, begun_rename_some]

/-- What keeps to the rules with the symbol above the grammar holds what stands below it. -/
theorem known_lift_of_following {known : Option N × Option T → Prop}
    (hclosed : ∀ p, g.augmented.Following known p → known p) {p : N × Option T}
    (h : g.Following (fun p => known (some p.1, p.2)) p) : known (some p.1, p.2) := by
  rcases h with rfl | ⟨r, hr, before, after, hrhs, hshown⟩
  · exact hclosed _ (.inr ⟨_, List.mem_cons_self, [], [], rfl,
      .inr ⟨trivial, hclosed _ (.inl rfl)⟩⟩)
  · refine hclosed _ (.inr ⟨liftRule r, liftRule_mem hr, before.map (renameSymbol some),
      after.map (renameSymbol some), ?_, ?_⟩)
    · rw [liftRule, hrhs, List.map_append, List.map_cons]
      rfl
    · rwa [vanish_lift, exists_congr fun t => and_congr_right fun _ => leads_lift]

variable [DecidableEq T] [DecidableEq N]

/-- The sets behind the tables, with the end of the input behind the symbol above the grammar. -/
def Follows (g : Grammar T N P) : Option N × Option T → Prop
  | (none, u) => u = none
  | (some n, u) => u ∈ g.follow n

theorem follows_of_following {p : Option N × Option T} (h : g.augmented.Following g.Follows p) :
    g.Follows p := by
  obtain ⟨m, u⟩ := p
  rcases h with hstart | ⟨r, hr, before, after, hrhs, hshown⟩
  · obtain ⟨rfl, rfl⟩ := Prod.mk.inj hstart
    rfl
  rcases List.mem_cons.mp hr with rfl | hr
  · -- the start symbol stands below the symbol above it, and nothing behind it
    cases before with
    | cons b before => cases before <;> cases hrhs
    | nil =>
      obtain ⟨hm, rfl⟩ := List.cons.inj hrhs
      obtain rfl := Symbol.nonterminal.inj hm
      rcases hshown with ⟨t, -, hleads⟩ | ⟨-, hend⟩
      · exact hleads.elim
      · obtain rfl : u = none := hend
        exact none_mem_follow_start
  · obtain ⟨below, hbelow, rfl⟩ := List.mem_map.mp hr
    obtain ⟨front, back, hsplit, rfl, hback⟩ := List.map_eq_append_iff.mp hrhs
    obtain ⟨x, rest, rfl, hx, rfl⟩ := List.map_eq_cons_iff.mp hback
    cases x with
    | terminal t => cases hx
    | nonterminal n =>
      obtain rfl := Symbol.nonterminal.inj hx
      refine mem_follow_of_following (p := (n, u)) (.inr ⟨below, hbelow, front, rest, hsplit, ?_⟩)
      rwa [vanish_lift, exists_congr fun t => and_congr_right fun _ => leads_lift] at hshown

/-- The sets behind the tables hold what the least set with the symbol above the grammar holds. -/
theorem mem_follow_iff_of_isLeast {seen : Option N × Option T → Prop}
    (h : IsLeast {known | ∀ p, g.augmented.Following known p → known p} seen) {n : N}
    {u : Option T} : seen (some n, u) ↔ u ∈ g.follow n := by
  have hle : seen ≤ g.Follows := h.2 fun _ => follows_of_following
  exact ⟨hle (some n, u), known_of_mem_follow fun _ => known_lift_of_following h.1⟩

end SchemaBridge.Grammar
