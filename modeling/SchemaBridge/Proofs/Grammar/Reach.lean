/-
  Reaching is complete. `reach` stops when its fuel is spent, so that what it lists is closed
  under the edges only if there is fuel enough. One unit is spent on each entry of the queue, and
  an entry comes from the seeds or from a node that is visited for the first time: the number of
  seeds and of all edges out of distinct nodes is enough.
  Main result: `mem_reach_iff`.
-/
import SchemaBridge.Grammar.Reach
import Mathlib.Algebra.GroupWithZero.Nat
import Mathlib.Data.List.Nodup
import Mathlib.Logic.Relation

namespace SchemaBridge

variable {α : Type} {next : α → List α}

/-- The number of edges that leave the nodes of a list. -/
def degree (next : α → List α) (l : List α) : Nat :=
  (l.map fun x => (next x).length).sum

theorem degree_append_singleton (l : List α) (x : α) :
    degree next (l ++ [x]) = degree next l + (next x).length := by
  unfold degree
  rw [List.map_append, List.sum_append, List.map_singleton, List.sum_singleton]

/-- A walk under way: `seen` was visited, `todo` waits. Every edge out of a visited node leads to
a visited or a waiting one. -/
structure Walk (next : α → List α) (P : α → Prop) (fuel bound : Nat) (seen todo : List α) :
    Prop where
  nodup : seen.Nodup
  seen_all : ∀ x ∈ seen, P x
  todo_all : ∀ x ∈ todo, P x
  edges : ∀ x ∈ seen, ∀ y ∈ next x, y ∈ seen ∨ y ∈ todo
  fuel_le : todo.length + bound ≤ fuel + degree next seen

variable {P : α → Prop} {fuel bound : Nat} {seen todo rest : List α} {x : α}

theorem Walk.skip (h : Walk next P (fuel + 1) bound seen (x :: rest)) (hx : x ∈ seen) :
    Walk next P fuel bound seen rest := by
  refine ⟨h.nodup, h.seen_all, fun y hy => h.todo_all y (List.mem_cons_of_mem _ hy), ?_, ?_⟩
  · intro y hy z hz
    rcases h.edges y hy z hz with hs | ht
    · exact .inl hs
    · rcases List.mem_cons.mp ht with rfl | hr
      · exact .inl hx
      · exact .inr hr
  · have hle := h.fuel_le
    rw [List.length_cons] at hle
    omega

theorem Walk.visit (h : Walk next P (fuel + 1) bound seen (x :: rest)) (hx : x ∉ seen)
    (hP : ∀ a, P a → ∀ b ∈ next a, P b) :
    Walk next P fuel bound (seen ++ [x]) (rest ++ next x) := by
  have hPx : P x := h.todo_all x List.mem_cons_self
  refine ⟨?_, ?_, ?_, ?_, ?_⟩
  · rw [List.nodup_append]
    refine ⟨h.nodup, List.nodup_singleton x, ?_⟩
    rintro a ha b hb rfl
    exact hx (List.mem_singleton.mp hb ▸ ha)
  · intro y hy
    rcases List.mem_append.mp hy with hy | hy
    · exact h.seen_all y hy
    · rw [List.mem_singleton.mp hy]
      exact hPx
  · intro y hy
    rcases List.mem_append.mp hy with hy | hy
    · exact h.todo_all y (List.mem_cons_of_mem _ hy)
    · exact hP x hPx y hy
  · intro y hy z hz
    rw [List.mem_append, List.mem_append]
    rcases List.mem_append.mp hy with hy | hy
    · rcases h.edges y hy z hz with hs | ht
      · exact .inl (.inl hs)
      · rcases List.mem_cons.mp ht with rfl | hr
        · exact .inl (.inr (List.mem_singleton.mpr rfl))
        · exact .inr (.inl hr)
    · rw [List.mem_singleton.mp hy] at hz
      exact .inr (.inr hz)
  · have hle := h.fuel_le
    rw [List.length_cons] at hle
    rw [degree_append_singleton, List.length_append]
    omega

variable [DecidableEq α]

/-- What was visited or waits is listed in the end, and the list is closed under the edges. -/
theorem Walk.complete (h : Walk next P fuel bound seen todo)
    (hP : ∀ a, P a → ∀ b ∈ next a, P b)
    (hbound : ∀ l : List α, l.Nodup → (∀ a ∈ l, P a) → degree next l ≤ bound) :
    (∀ a, a ∈ seen ∨ a ∈ todo → a ∈ reachFrom next fuel seen todo) ∧
      ∀ a ∈ reachFrom next fuel seen todo, ∀ b ∈ next a, b ∈ reachFrom next fuel seen todo := by
  induction fuel generalizing seen todo with
  | zero =>
    have hle := h.fuel_le
    have hdeg := hbound seen h.nodup h.seen_all
    have htodo : todo = [] := List.length_eq_zero_iff.mp (by omega)
    subst htodo
    unfold reachFrom
    refine ⟨fun a ha => ha.resolve_right List.not_mem_nil, fun a ha b hb => ?_⟩
    exact (h.edges a ha b hb).resolve_right List.not_mem_nil
  | succ fuel ih =>
    cases todo with
    | nil =>
      unfold reachFrom
      refine ⟨fun a ha => ha.resolve_right List.not_mem_nil, fun a ha b hb => ?_⟩
      exact (h.edges a ha b hb).resolve_right List.not_mem_nil
    | cons x rest =>
      unfold reachFrom
      split
      · rename_i hx
        obtain ⟨hmem, hclosed⟩ := ih (h.skip hx)
        refine ⟨fun a ha => hmem a ?_, hclosed⟩
        rcases ha with ha | ha
        · exact .inl ha
        · rcases List.mem_cons.mp ha with rfl | ha
          · exact .inl hx
          · exact .inr ha
      · rename_i hx
        obtain ⟨hmem, hclosed⟩ := ih (h.visit hx hP)
        refine ⟨fun a ha => hmem a ?_, hclosed⟩
        rw [List.mem_append, List.mem_append]
        rcases ha with ha | ha
        · exact .inl (.inl ha)
        · rcases List.mem_cons.mp ha with rfl | ha
          · exact .inl (.inr (List.mem_singleton.mpr rfl))
          · exact .inr (.inl ha)

/-- A property of the seeds that the edges keep is one of everything listed. -/
theorem forall_mem_reachFrom {Q : α → Prop} (hQ : ∀ a, Q a → ∀ b ∈ next a, Q b)
    (hseen : ∀ a ∈ seen, Q a) (htodo : ∀ a ∈ todo, Q a) :
    ∀ a ∈ reachFrom next fuel seen todo, Q a := by
  induction fuel generalizing seen todo with
  | zero => exact hseen
  | succ fuel ih =>
    cases todo with
    | nil => exact hseen
    | cons x rest =>
      have hx : Q x := htodo x List.mem_cons_self
      have hrest : ∀ a ∈ rest, Q a := fun a ha => htodo a (List.mem_cons_of_mem _ ha)
      unfold reachFrom
      split
      · exact ih hseen hrest
      · refine ih ?_ ?_
        · intro a ha
          rcases List.mem_append.mp ha with ha | ha
          · exact hseen a ha
          · exact List.mem_singleton.mp ha ▸ hx
        · intro a ha
          rcases List.mem_append.mp ha with ha | ha
          · exact hrest a ha
          · exact hQ x hx a ha

/-- One edge. -/
def Edge (next : α → List α) (a b : α) : Prop :=
  b ∈ next a

section Reach

variable {seeds : List α} (hseeds : ∀ a ∈ seeds, P a) (hP : ∀ a, P a → ∀ b ∈ next a, P b)
  (hbound : ∀ l : List α, l.Nodup → (∀ a ∈ l, P a) → degree next l ≤ bound)
  (hfuel : seeds.length + bound ≤ fuel)

include hseeds hP hbound hfuel

theorem reach_complete : (∀ a ∈ seeds, a ∈ reach next fuel seeds) ∧
    ∀ a ∈ reach next fuel seeds, ∀ b ∈ next a, b ∈ reach next fuel seeds := by
  have hwalk : Walk next P fuel bound [] seeds :=
    ⟨List.nodup_nil, fun a ha => absurd ha List.not_mem_nil, hseeds,
      fun a ha => absurd ha List.not_mem_nil, hfuel⟩
  obtain ⟨hmem, hclosed⟩ := hwalk.complete hP hbound
  exact ⟨fun a ha => hmem a (.inr ha), hclosed⟩

/-- With fuel enough, what is listed is what paths lead to. -/
theorem mem_reach_iff : x ∈ reach next fuel seeds ↔
    ∃ a ∈ seeds, Relation.ReflTransGen (Edge next) a x := by
  obtain ⟨hmem, hclosed⟩ := reach_complete hseeds hP hbound hfuel
  constructor
  · apply forall_mem_reachFrom (Q := fun x => ∃ a ∈ seeds, Relation.ReflTransGen (Edge next) a x)
    · rintro b ⟨a, ha, hab⟩ c hc
      exact ⟨a, ha, hab.tail hc⟩
    · exact fun a ha => absurd ha List.not_mem_nil
    · exact fun a ha => ⟨a, ha, .refl⟩
  · rintro ⟨a, ha, hpath⟩
    induction hpath with
    | refl => exact hmem a ha
    | tail _ hedge ih => exact hclosed _ ih _ hedge

end Reach

end SchemaBridge
