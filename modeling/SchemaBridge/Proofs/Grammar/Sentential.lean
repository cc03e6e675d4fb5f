/-
  What the sets of a grammar say of its sentential forms. What vanishes, what begins with which
  terminal and what stands behind what are each the least answers that the rules allow: an answer
  that keeps to the rules one at a time holds whatever a derivation shows, and what derivations show
  keeps to the rules.
  Main results: `mem_nullable_iff`, `mem_first_iff`, `mem_follow_of_standsBehind` and
  `mem_follow_iff`.
-/
import SchemaBridge.Proofs.Grammar.Language
import Mathlib.Order.Bounds.Basic

namespace SchemaBridge.Grammar

variable {T N P : Type} {g : Grammar T N P} {xs ys : List (Symbol T N)} {n : N} {t : T}

/-! ## Beginnings -/

/-- Something that can be said of a nonterminal. -/
inductive Fact (T N : Type)
  | /-- It derives the empty text. -/ vanishes (n : N)
  | /-- It derives a form that begins with this terminal. -/ begins (n : N) (t : T)
  deriving DecidableEq

/-- All symbols vanish, by what is known. -/
def Vanish (known : Fact T N → Prop) : List (Symbol T N) → Prop
  | [] => True
  | .terminal _ :: _ => False
  | .nonterminal n :: rest => known (.vanishes n) ∧ Vanish known rest

/-- The terminal can lead the symbols, by what is known: it begins one of them, and those before
vanish. -/
def Leads (known : Fact T N → Prop) (t : T) : List (Symbol T N) → Prop
  | [] => False
  | .terminal u :: _ => u = t
  | .nonterminal n :: rest =>
    known (.begins n t) ∨ (known (.vanishes n) ∧ Leads known t rest)

/-- What a rule adds to what is known. -/
def Beginning (g : Grammar T N P) (known : Fact T N → Prop) : Fact T N → Prop
  | .vanishes n => ∃ r ∈ g.rules, r.lhs = n ∧ Vanish known r.rhs
  | .begins n t => ∃ r ∈ g.rules, r.lhs = n ∧ Leads known t r.rhs

/-- What derivations show. -/
def Begun (g : Grammar T N P) : Fact T N → Prop
  | .vanishes n => g.Derives [.nonterminal n] []
  | .begins n t => ∃ rest, g.Derives [.nonterminal n] (.terminal t :: rest)

variable {known known' : Fact T N → Prop}

theorem vanish_append : Vanish known (xs ++ ys) ↔ Vanish known xs ∧ Vanish known ys := by
  induction xs with
  | nil => simp [Vanish]
  | cons x rest ih => cases x <;> simp [Vanish, ih, and_assoc]

theorem leads_append :
    Leads known t (xs ++ ys) ↔ Leads known t xs ∨ (Vanish known xs ∧ Leads known t ys) := by
  induction xs with
  | nil => simp [Leads, Vanish]
  | cons x rest ih =>
    cases x with
    | terminal u => simp [Leads, Vanish]
    | nonterminal n => simp [Leads, Vanish, ih, and_or_left, or_assoc, and_assoc]

theorem Vanish.mono (h : ∀ f, known f → known' f) (hxs : Vanish known xs) : Vanish known' xs := by
  induction xs with
  | nil => trivial
  | cons x rest ih =>
    cases x with
    | terminal u => exact hxs
    | nonterminal n => exact ⟨h _ hxs.1, ih hxs.2⟩

theorem derives_nil_of_vanish (h : Vanish g.Begun xs) : g.Derives xs [] := by
  induction xs with
  | nil => exact .refl
  | cons x rest ih =>
    cases x with
    | terminal u => exact h.elim
    | nonterminal n => exact Derives.append h.1 (ih h.2)

theorem exists_of_leads (h : Leads g.Begun t xs) : ∃ rest, g.Derives xs (.terminal t :: rest) := by
  induction xs with
  | nil => exact h.elim
  | cons x more ih =>
    cases x with
    | terminal u =>
      obtain rfl : u = t := h
      exact ⟨more, .refl⟩
    | nonterminal n =>
      rcases h with ⟨rest, hrest⟩ | ⟨hn, hmore⟩
      · exact ⟨rest ++ more, hrest.append .refl⟩
      · obtain ⟨rest, hrest⟩ := ih hmore
        exact ⟨rest, Derives.append hn hrest⟩

theorem derives_of_rule {r : Rule T N P} (hr : r ∈ g.rules) (h : g.Derives r.rhs ys) :
    g.Derives [.nonterminal r.lhs] ys := by
  have hstep := Rewrites.rule hr [] []
  rw [List.append_nil] at hstep
  exact .head hstep h

/-- What derivations show keeps to the rules. -/
theorem begun_of_beginning {f : Fact T N} (h : g.Beginning g.Begun f) : g.Begun f := by
  cases f with
  | vanishes n =>
    obtain ⟨r, hr, rfl, hrhs⟩ := h
    exact derives_of_rule hr (derives_nil_of_vanish hrhs)
  | begins n t =>
    obtain ⟨r, hr, rfl, hrhs⟩ := h
    obtain ⟨rest, hrest⟩ := exists_of_leads hrhs
    exact ⟨rest, derives_of_rule hr hrest⟩

section Closed

variable (hclosed : ∀ f, g.Beginning known f → known f)

include hclosed

/-- What a form does by what is known, it did before the last step. -/
theorem Rewrites.back (h : g.Rewrites xs ys) :
    (Vanish known ys → Vanish known xs) ∧ ∀ t, Leads known t ys → Leads known t xs := by
  cases h with
  | @rule r hr before after =>
    have hvanishes : Vanish known r.rhs → known (.vanishes r.lhs) :=
      fun hrhs => hclosed _ ⟨r, hr, rfl, hrhs⟩
    have hbegins : ∀ t, Leads known t r.rhs → known (.begins r.lhs t) :=
      fun t hrhs => hclosed _ ⟨r, hr, rfl, hrhs⟩
    simp only [vanish_append, leads_append, Vanish, Leads]
    refine ⟨fun ⟨hbefore, hrhs, hafter⟩ => ⟨hbefore, hvanishes hrhs, hafter⟩, fun t ht => ?_⟩
    rcases ht with ht | ⟨hbefore, ht | ⟨hrhs, ht⟩⟩
    · exact .inl ht
    · exact .inr ⟨hbefore, .inl (hbegins t ht)⟩
    · exact .inr ⟨hbefore, .inr ⟨hvanishes hrhs, ht⟩⟩

theorem Derives.back (h : g.Derives xs ys) :
    (Vanish known ys → Vanish known xs) ∧ ∀ t, Leads known t ys → Leads known t xs := by
  induction h using Relation.ReflTransGen.head_induction_on with
  | refl => exact ⟨id, fun _ => id⟩
  | head hstep _ ih =>
    obtain ⟨hvanish, hleads⟩ := hstep.back hclosed
    exact ⟨fun h => hvanish (ih.1 h), fun t h => hleads t (ih.2 t h)⟩

/-- Whatever keeps to the rules holds what derivations show. -/
theorem known_of_begun {f : Fact T N} (h : g.Begun f) : known f := by
  cases f with
  | vanishes n => exact ((Derives.back hclosed h).1 trivial).1
  | begins n t =>
    obtain ⟨rest, hrest⟩ := h
    exact ((hrest.back hclosed).2 t rfl).resolve_right fun hnil => hnil.2

end Closed

/-! ## What stands behind -/

/-- What a rule adds to what is known to stand behind nonterminals, `none` being the end of the
input: what can lead the symbols behind one, and if these vanish, what stands behind the rule. -/
def Following (g : Grammar T N P) (known : N × Option T → Prop) (p : N × Option T) : Prop :=
  p = (g.start, none) ∨ ∃ r ∈ g.rules, ∃ before after,
    r.rhs = before ++ .nonterminal p.1 :: after ∧
      ((∃ t, p.2 = some t ∧ Leads g.Begun t after) ∨ (Vanish g.Begun after ∧ known (r.lhs, p.2)))

/-- In a form that is derived from the start symbol, with the end of the input behind it, this
stands directly behind the nonterminal. -/
def StandsBehind (g : Grammar T N P) (p : N × Option T) : Prop :=
  ∃ before after, g.Derives [.nonterminal g.start] (before ++ .nonterminal p.1 :: after) ∧
    after.head? = p.2.map .terminal

/-- The nonterminal occurs in a form that is derived from the start symbol. -/
def Occurs (g : Grammar T N P) (n : N) : Prop :=
  ∃ before after, g.Derives [.nonterminal g.start] (before ++ .nonterminal n :: after)

/-- What can come next behind a nonterminal with these symbols behind it in a form. -/
def Next (g : Grammar T N P) (after : List (Symbol T N)) (u : Option T) : Prop :=
  match u with
  | none => Vanish g.Begun after
  | some t => Leads g.Begun t after

theorem next_append {after more : List (Symbol T N)} {u : Option T}
    (h : g.Next (after ++ more) u) :
    (∃ t, u = some t ∧ Leads g.Begun t after) ∨ (Vanish g.Begun after ∧ g.Next more u) := by
  cases u with
  | none => exact .inr (vanish_append.mp h)
  | some t => exact (leads_append.mp h).imp_left fun hafter => ⟨t, rfl, hafter⟩

theorem next_of_rewrites (h : g.Rewrites xs ys) {u : Option T} (hy : g.Next ys u) :
    g.Next xs u := by
  obtain ⟨hvanish, hleads⟩ := h.back fun _ => begun_of_beginning
  cases u with
  | none => exact hvanish hy
  | some t => exact hleads t hy

theorem isLeast_begun : IsLeast {known | ∀ f, g.Beginning known f → known f} g.Begun :=
  ⟨fun _ => begun_of_beginning, fun _ hclosed _ => known_of_begun hclosed⟩

theorem split_append {α : Type} {x : α} {before after front back : List α}
    (h : front ++ back = before ++ x :: after) :
    (∃ between, front = before ++ x :: between ∧ after = between ++ back) ∨
      ∃ between, before = front ++ between ∧ back = between ++ x :: after := by
  rcases List.append_eq_append_iff.mp h with ⟨between, rfl, hback⟩ | ⟨between, rfl, hrest⟩
  · exact .inr ⟨between, rfl, hback⟩
  · cases between with
    | nil => exact .inr ⟨[], by simp, by simpa using hrest.symm⟩
    | cons y between =>
      obtain ⟨rfl, rfl⟩ := List.cons.inj hrest
      exact .inl ⟨between, rfl, rfl⟩

section Following

variable {known : N × Option T → Prop} (hclosed : ∀ p, g.Following known p → known p)

include hclosed

/-- Whatever keeps to the rules holds what can come next in any form. -/
theorem known_of_next {form : List (Symbol T N)} (h : g.Derives [.nonterminal g.start] form) :
    ∀ before n after u, form = before ++ .nonterminal n :: after → g.Next after u →
      known (n, u) := by
  induction h with
  | refl =>
    intro before n after u hform hnext
    cases before with
    | nil =>
      obtain ⟨hn, rfl⟩ := List.cons.inj hform
      obtain rfl := Symbol.nonterminal.inj hn
      cases u with
      | none => exact hclosed _ (.inl rfl)
      | some t => exact hnext.elim
    | cons b before => cases before <;> cases hform
  | tail _ hstep ih =>
    intro before n after u hform hnext
    cases hstep with
    | @rule r hr left right =>
      rcases split_append hform with ⟨between, rfl, rfl⟩ | ⟨between, rfl, hright⟩
      · -- left of the rule
        rw [List.append_assoc] at ih
        exact ih before n _ u rfl (next_of_rewrites (.rule hr between right) hnext)
      · rcases split_append hright with ⟨more, hrhs, rfl⟩ | ⟨more, rfl, rfl⟩
        · -- in the rule
          refine hclosed _ (.inr ⟨r, hr, between, more, hrhs, ?_⟩)
          exact (next_append hnext).imp_right fun ⟨hmore, hnext⟩ =>
            ⟨hmore, ih left r.lhs right u rfl hnext⟩
        · -- right of the rule
          exact ih (left ++ .nonterminal r.lhs :: more) n after u (by simp) hnext

/-- Whatever keeps to the rules holds what stands behind a nonterminal. -/
theorem known_of_standsBehind {p : N × Option T} (h : g.StandsBehind p) : known p := by
  obtain ⟨before, after, hform, hhead⟩ := h
  obtain ⟨n, u⟩ := p
  refine known_of_next hclosed hform before n after u rfl ?_
  cases u with
  | none =>
    obtain rfl : after = [] := by simpa using hhead
    trivial
  | some t =>
    obtain ⟨rest, rfl⟩ : ∃ rest, after = .terminal t :: rest := by
      simpa [List.head?_eq_some_iff] using hhead
    rfl

end Following

/-- A rule takes the place of its head, and what stands in it behind some symbol is derived on. -/
theorem Derives.through {r : Rule T N P} (hr : r ∈ g.rules) {x : Symbol T N}
    {before after left right : List (Symbol T N)} (hrhs : r.rhs = before ++ x :: after)
    (h : g.Derives xs (left ++ .nonterminal r.lhs :: right)) (hafter : g.Derives after ys) :
    g.Derives xs (left ++ before ++ x :: (ys ++ right)) := by
  have hstep : g.Derives xs (left ++ (before ++ x :: after ++ right)) :=
    hrhs ▸ h.tail (.rule hr left right)
  have hwider := hafter.around (left ++ before ++ [x]) right
  simp only [List.append_assoc, List.cons_append, List.nil_append] at hstep hwider ⊢
  exact hstep.trans hwider

/-- What stands behind keeps to the rules, as long as their heads occur. -/
theorem standsBehind_of_following (hoccurs : ∀ r ∈ g.rules, g.Occurs r.lhs) {p : N × Option T}
    (h : g.Following g.StandsBehind p) : g.StandsBehind p := by
  obtain ⟨n, u⟩ := p
  rcases h with hstart | ⟨r, hr, before, after, hrhs, ⟨t, rfl, hleads⟩ | ⟨hvanish, hbehind⟩⟩
  · obtain ⟨rfl, rfl⟩ := Prod.mk.inj hstart
    exact ⟨[], [], .refl, rfl⟩
  · obtain ⟨left, right, hform⟩ := hoccurs r hr
    obtain ⟨rest, hrest⟩ := exists_of_leads hleads
    exact ⟨left ++ before, .terminal t :: rest ++ right, hform.through hr hrhs hrest, rfl⟩
  · obtain ⟨left, right, hform, hhead⟩ := hbehind
    exact ⟨left ++ before, right, hform.through hr hrhs (derives_nil_of_vanish hvanish), hhead⟩

theorem isLeast_standsBehind (hoccurs : ∀ r ∈ g.rules, g.Occurs r.lhs) :
    IsLeast {known | ∀ p, g.Following known p → known p} g.StandsBehind :=
  ⟨fun _ => standsBehind_of_following hoccurs, fun _ hclosed _ => known_of_standsBehind hclosed⟩

/-! ## The sets behind the tables -/

variable [DecidableEq N]

theorem vanish_iff {empty : List N} (hempty : ∀ n, n ∈ empty ↔ known (.vanishes n)) :
    Vanish known xs ↔ ∀ x ∈ xs, vanishes empty x = true := by
  induction xs with
  | nil => simp [Vanish]
  | cons x rest ih => cases x <;> simp [Vanish, vanishes, ih, hempty]

/-- A leading symbol that begins with the terminal has it lead all symbols. -/
theorem leads_of_mem_leading {empty : List N} (hempty : ∀ n ∈ empty, known (.vanishes n))
    {x : Symbol T N} (hx : x ∈ leading empty xs) (h : Leads known t [x]) : Leads known t xs := by
  induction xs with
  | nil => exact absurd hx List.not_mem_nil
  | cons y rest ih =>
    rw [leading, List.mem_cons] at hx
    rcases hx with rfl | hx
    · cases x with
      | terminal u => exact h
      | nonterminal n => exact .inl (h.resolve_right fun hnil => hnil.2)
    · split at hx
      · rename_i hy
        cases y with
        | terminal u => cases hy
        | nonterminal n => exact .inr ⟨hempty n (of_decide_eq_true hy), ih hx⟩
      · exact absurd hx List.not_mem_nil

theorem mem_leading_of_leads {empty : List N} (hempty : ∀ n, known (.vanishes n) → n ∈ empty)
    (h : Leads known t xs) : ∃ x ∈ leading empty xs, Leads known t [x] := by
  induction xs with
  | nil => exact h.elim
  | cons y rest ih =>
    rw [leading]
    cases y with
    | terminal u => exact ⟨_, List.mem_cons_self, h⟩
    | nonterminal n =>
      rcases h with h | ⟨hn, h⟩
      · exact ⟨_, List.mem_cons_self, .inl h⟩
      · obtain ⟨x, hx, hlead⟩ := ih h
        have hvanishes : vanishes (T := T) empty (.nonterminal n) = true :=
          decide_eq_true (hempty n hn)
        rw [if_pos hvanishes]
        exact ⟨x, List.mem_cons_of_mem _ hx, hlead⟩

theorem known_of_mem_nullable (hclosed : ∀ f, g.Beginning known f → known f)
    (h : n ∈ g.nullable) : known (.vanishes n) := by
  have hheight : ∀ height, ∀ n ∈ g.nullableUpTo height, known (.vanishes n) := by
    intro height
    induction height with
    | zero => exact fun n hn => absurd hn List.not_mem_nil
    | succ height ih =>
      intro n hn
      obtain ⟨r, hr, hall, rfl⟩ := mem_nullableUpTo_succ.mp hn
      have hrhs : Vanish (fun f => ∃ n ∈ g.nullableUpTo height, f = .vanishes n) r.rhs :=
        (vanish_iff fun n => by simp).mpr hall
      refine hclosed _ ⟨r, hr, rfl, hrhs.mono ?_⟩
      rintro f ⟨n, hn, rfl⟩
      exact ih n hn
  exact hheight _ n h

/-- A symbol begins with the terminals that corners lead to. -/
theorem leads_of_edges (hclosed : ∀ f, g.Beginning known f → known f) {x : Symbol T N}
    (h : Relation.ReflTransGen (Edge (g.corners g.nullable)) x (.terminal t)) :
    Leads known t [x] := by
  induction h using Relation.ReflTransGen.head_induction_on with
  | refl => rfl
  | @head x y hedge _ ih =>
    cases x with
    | terminal u => exact absurd hedge List.not_mem_nil
    | nonterminal n =>
      obtain ⟨r, hr, hy⟩ := List.mem_flatMap.mp hedge
      obtain ⟨hrule, hn⟩ := List.mem_filter.mp hr
      have hrhs := leads_of_mem_leading (fun n => known_of_mem_nullable hclosed) hy ih
      exact .inl (hclosed _ ⟨r, hrule, beq_iff_eq.mp hn, hrhs⟩)

variable [DecidableEq T]

/-- What the sets behind the tables say. -/
def Tabled (g : Grammar T N P) : Fact T N → Prop
  | .vanishes n => n ∈ g.nullable
  | .begins n t => t ∈ g.first n

theorem mem_first_iff_edges : t ∈ g.first n ↔
    Relation.ReflTransGen (Edge (g.corners g.nullable)) (.nonterminal n) (.terminal t) := by
  unfold first
  rw [mem_firstOf_iff]
  simp [leading]

theorem leads_tabled_iff : Leads g.Tabled t xs ↔ t ∈ g.firstOf g.nullable xs := by
  have hone : ∀ x : Symbol T N, Leads g.Tabled t [x] ↔
      Relation.ReflTransGen (Edge (g.corners g.nullable)) x (.terminal t) := by
    intro x
    cases x with
    | terminal u =>
      have hnone : ∀ y, ¬Edge (g.corners g.nullable) (.terminal u) y := fun y =>
        List.not_mem_nil
      rw [Relation.reflTransGen_iff_eq hnone, Symbol.terminal.injEq]
      exact eq_comm
    | nonterminal n =>
      rw [← mem_first_iff_edges]
      simp [Leads, Tabled]
  rw [mem_firstOf_iff]
  constructor
  · intro h
    obtain ⟨x, hx, hlead⟩ := mem_leading_of_leads (fun _ => id) h
    exact ⟨x, hx, (hone x).mp hlead⟩
  · rintro ⟨x, hx, hpath⟩
    exact leads_of_mem_leading (fun _ => id) hx ((hone x).mpr hpath)

theorem tabled_of_beginning {f : Fact T N} (h : g.Beginning g.Tabled f) : g.Tabled f := by
  cases f with
  | vanishes n =>
    obtain ⟨r, hr, rfl, hrhs⟩ := h
    exact mem_nullable hr ((vanish_iff fun _ => Iff.rfl).mp hrhs)
  | begins n t =>
    obtain ⟨r, hr, rfl, hrhs⟩ := h
    obtain ⟨x, hx, hpath⟩ := mem_firstOf_iff.mp (leads_tabled_iff.mp hrhs)
    refine mem_first_iff_edges.mpr (.head ?_ hpath)
    exact List.mem_flatMap.mpr ⟨r, List.mem_filter.mpr ⟨hr, beq_self_eq_true _⟩, hx⟩

theorem known_of_tabled (hclosed : ∀ f, g.Beginning known f → known f) {f : Fact T N}
    (h : g.Tabled f) : known f := by
  cases f with
  | vanishes n => exact known_of_mem_nullable hclosed h
  | begins n t =>
    have hleads := leads_of_edges hclosed (mem_first_iff_edges.mp h)
    exact hleads.resolve_right fun hnil => hnil.2

theorem isLeast_tabled : IsLeast {known | ∀ f, g.Beginning known f → known f} g.Tabled :=
  ⟨fun _ => tabled_of_beginning, fun _ hclosed _ => known_of_tabled hclosed⟩

theorem tabled_eq_begun : g.Tabled = g.Begun :=
  isLeast_tabled.unique isLeast_begun

/-- The nonterminals that vanish are those that derive the empty text. -/
theorem mem_nullable_iff : n ∈ g.nullable ↔ g.Derives [.nonterminal n] [] :=
  iff_of_eq (congrFun tabled_eq_begun (.vanishes n))

/-- The first terminals of a nonterminal are those that forms derived from it begin with. -/
theorem mem_first_iff :
    t ∈ g.first n ↔ ∃ rest, g.Derives [.nonterminal n] (.terminal t :: rest) :=
  iff_of_eq (congrFun tabled_eq_begun (.begins n t))

theorem mem_follow_of_following {p : N × Option T}
    (h : g.Following (fun p => p.2 ∈ g.follow p.1) p) : p.2 ∈ g.follow p.1 := by
  obtain ⟨n, u⟩ := p
  rcases h with hstart | ⟨r, hr, before, after, hrhs, ⟨t, rfl, hleads⟩ | ⟨hvanish, hbehind⟩⟩
  · obtain ⟨rfl, rfl⟩ := Prod.mk.inj hstart
    exact none_mem_follow_start
  · rw [← tabled_eq_begun, leads_tabled_iff] at hleads
    exact mem_follow_of_rests hr (mem_rests.mpr ⟨before, hrhs⟩) hleads
  · rw [← tabled_eq_begun, vanish_iff fun _ => Iff.rfl] at hvanish
    refine follow_subset_of_endedBy (List.mem_flatMap.mpr ⟨r, hr, List.mem_map.mpr ?_⟩) hbehind
    exact ⟨after, List.mem_filter.mpr ⟨mem_rests.mpr ⟨before, hrhs⟩,
      List.all_eq_true.mpr hvanish⟩, rfl⟩

/-- What follows a whole is passed down to the nonterminals that can end it. -/
theorem known_of_mem_enders {known : N × Option T → Prop}
    (hclosed : ∀ p, g.Following known p → known p) {m : N} {u : Option T}
    (hm : m ∈ g.enders g.nullable n) (h : known (m, u)) : known (n, u) := by
  have hpath := mem_enders_iff.mp hm
  induction hpath using Relation.ReflTransGen.head_induction_on with
  | refl => exact h
  | @head n k hedge hpath ih =>
    obtain ⟨r, hr, hk⟩ := List.mem_flatMap.mp hedge
    obtain ⟨rest, hrest, rfl⟩ := List.mem_map.mp hk
    obtain ⟨hrest, hall⟩ := List.mem_filter.mp hrest
    obtain ⟨before, hrhs⟩ := mem_rests.mp hrest
    have hvanish : Vanish g.Begun rest := by
      rw [← tabled_eq_begun, vanish_iff fun _ => Iff.rfl]
      exact List.all_eq_true.mp hall
    have habove := ih (mem_enders_iff.mpr hpath)
    exact hclosed _ (.inr ⟨r, hr, before, rest, hrhs, .inr ⟨hvanish, habove⟩⟩)

theorem known_of_mem_follow {known : N × Option T → Prop}
    (hclosed : ∀ p, g.Following known p → known p) {u : Option T} (h : u ∈ g.follow n) :
    known (n, u) := by
  unfold follow followWith at h
  dsimp only at h
  rcases List.mem_append.mp h with h | h
  · split at h
    · rename_i hstart
      rw [List.mem_singleton.mp h]
      exact known_of_mem_enders hclosed hstart (hclosed _ (.inl rfl))
    · exact absurd h List.not_mem_nil
  · obtain ⟨t, ht, rfl⟩ := List.mem_map.mp h
    obtain ⟨m, hm, ht⟩ := List.mem_flatMap.mp ht
    obtain ⟨r, hr, ht⟩ := List.mem_flatMap.mp ht
    obtain ⟨rest, hrest, ht⟩ := List.mem_flatMap.mp ht
    obtain ⟨before, hrhs⟩ := mem_rests.mp hrest
    rw [← leads_tabled_iff, tabled_eq_begun] at ht
    exact known_of_mem_enders hclosed hm
      (hclosed _ (.inr ⟨r, hr, before, rest, hrhs, .inl ⟨t, rfl, ht⟩⟩))

theorem isLeast_follow :
    IsLeast {known | ∀ p, g.Following known p → known p} fun p => p.2 ∈ g.follow p.1 :=
  ⟨fun _ => mem_follow_of_following, fun _ hclosed _ => known_of_mem_follow hclosed⟩

/-- What stands behind a nonterminal follows it. -/
theorem mem_follow_of_standsBehind {u : Option T} (h : g.StandsBehind (n, u)) : u ∈ g.follow n :=
  known_of_standsBehind isLeast_follow.1 h

/-- Where the heads of all rules occur, nothing else follows it. -/
theorem mem_follow_iff (hoccurs : ∀ r ∈ g.rules, g.Occurs r.lhs) {u : Option T} :
    u ∈ g.follow n ↔ g.StandsBehind (n, u) :=
  iff_of_eq (congrFun (isLeast_follow.unique (isLeast_standsBehind hoccurs)) (n, u))

end SchemaBridge.Grammar
