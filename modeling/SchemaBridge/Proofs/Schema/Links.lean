/-
  Links as finite maps. `Links.get` is the view: links that are in canonical form are determined by
  it, `add` appends to one value of it, `remove` takes one number out of one value, and both keep
  the canonical form. Nothing after this file looks into the list behind a `Links`.
-/
import SchemaBridge.Schema.Links
import Mathlib.Data.String.Basic
import Mathlib.Data.List.Sort

namespace SchemaBridge.Links

/-- The names ascend, and no class is listed without a relation. -/
structure Canonical (links : Links) : Prop where
  ascending : links.Pairwise fun a b => a.1 < b.1
  filled : ∀ entry ∈ links, entry.2 ≠ []

theorem canonical_nil : Canonical [] :=
  ⟨List.Pairwise.nil, fun _ h => absurd h List.not_mem_nil⟩

theorem Canonical.tail {entry : String × List RelationId} {rest : Links}
    (h : Canonical (entry :: rest)) : Canonical rest :=
  ⟨(List.pairwise_cons.mp h.ascending).2, fun e he => h.filled e (List.mem_cons_of_mem _ he)⟩

theorem Canonical.head_lt {entry : String × List RelationId} {rest : Links}
    (h : Canonical (entry :: rest)) : ∀ e ∈ rest, entry.1 < e.1 :=
  (List.pairwise_cons.mp h.ascending).1

/-! ## The view -/

@[simp] theorem get_nil (other : String) : get [] other = [] := rfl

theorem get_cons (name : String) (ids : List RelationId) (rest : Links) (other : String) :
    get ((name, ids) :: rest) other = if other = name then ids else get rest other := by
  unfold get
  rw [List.lookup_cons]
  by_cases h : other = name
  · simp [h]
  · rw [if_neg h, beq_false_of_ne h]

/-- A name below all names listed has no relations. -/
theorem get_eq_nil_of_lt {links : Links} {other : String} (h : ∀ e ∈ links, other < e.1) :
    links.get other = [] := by
  induction links with
  | nil => rfl
  | cons entry rest ih =>
    obtain ⟨name, ids⟩ := entry
    have hlt : other < name := h (name, ids) List.mem_cons_self
    rw [get_cons, if_neg (ne_of_lt hlt)]
    exact ih fun e he => h e (List.mem_cons_of_mem _ he)

/-- An entry holds what the view gives for its name. -/
theorem Canonical.get_of_mem {links : Links} (h : links.Canonical)
    {entry : String × List RelationId} (he : entry ∈ links) : links.get entry.1 = entry.2 := by
  induction links with
  | nil => exact absurd he List.not_mem_nil
  | cons first rest ih =>
    obtain ⟨name, ids⟩ := first
    rw [get_cons]
    rcases List.mem_cons.mp he with rfl | he
    · rw [if_pos rfl]
    · have hne : entry.1 ≠ name := ne_of_gt (h.head_lt entry he)
      rw [if_neg hne]
      exact ih h.tail he

/-- A name with relations is listed. -/
theorem mem_of_get_ne_nil {links : Links} {other : String} (h : links.get other ≠ []) :
    (other, links.get other) ∈ links := by
  induction links with
  | nil => exact absurd rfl h
  | cons first rest ih =>
    obtain ⟨name, ids⟩ := first
    rw [get_cons] at h ⊢
    by_cases hn : other = name
    · rw [if_pos hn] at h ⊢
      rw [hn]
      exact List.mem_cons_self
    · rw [if_neg hn] at h ⊢
      exact List.mem_cons_of_mem _ (ih h)

theorem Canonical.get_of_lt_head {name name' : String} {ids : List RelationId} {rest : Links}
    (h : Canonical ((name', ids) :: rest)) (hlt : name < name') :
    get ((name', ids) :: rest) name = [] := by
  apply get_eq_nil_of_lt
  intro e he
  rcases List.mem_cons.mp he with rfl | he
  · exact hlt
  · exact lt_trans hlt (h.head_lt e he)

/-- The first name is not below that of links with the same numbers under it. -/
theorem Canonical.not_head_lt {name name' : String} {ids ids' : List RelationId}
    {rest rest' : Links} (ha : Canonical ((name, ids) :: rest))
    (hb : Canonical ((name', ids') :: rest'))
    (h : get ((name, ids) :: rest) name = get ((name', ids') :: rest') name) : ¬name < name' := by
  intro hlt
  rw [hb.get_of_lt_head hlt, get_cons, if_pos rfl] at h
  exact ha.filled _ List.mem_cons_self h

/-- Two canonical lists of links with the same view are the same. -/
theorem Canonical.ext {a b : Links} (ha : a.Canonical) (hb : b.Canonical)
    (h : ∀ other, a.get other = b.get other) : a = b := by
  induction a generalizing b with
  | nil =>
    cases b with
    | nil => rfl
    | cons entry rest =>
      have hget := hb.get_of_mem (List.mem_cons_self (a := entry) (l := rest))
      rw [← h, get_nil] at hget
      exact absurd hget.symm (hb.filled entry List.mem_cons_self)
  | cons first rest ih =>
    obtain ⟨name, ids⟩ := first
    cases b with
    | nil =>
      have hget := ha.get_of_mem (List.mem_cons_self (a := (name, ids)) (l := rest))
      rw [h, get_nil] at hget
      exact absurd hget.symm (ha.filled _ List.mem_cons_self)
    | cons second rest' =>
      obtain ⟨name', ids'⟩ := second
      have hname : name = name' := by
        rcases lt_trichotomy name name' with hlt | heq | hgt
        · exact absurd hlt (ha.not_head_lt hb (h name))
        · exact heq
        · exact absurd hgt (hb.not_head_lt ha (h name').symm)
      subst hname
      have hsame := h name
      rw [get_cons, get_cons, if_pos rfl, if_pos rfl] at hsame
      rw [hsame]
      congr 1
      apply ih ha.tail hb.tail
      intro other
      by_cases hn : other = name
      · rw [hn, get_eq_nil_of_lt ha.head_lt, get_eq_nil_of_lt hb.head_lt]
      · have := h other
        rwa [get_cons, get_cons, if_neg hn, if_neg hn] at this

/-! ## Adding and removing -/

theorem mem_add {links : Links} {other : String} {id : RelationId}
    {entry : String × List RelationId} (h : entry ∈ links.add other id) :
    entry.1 = other ∨ entry ∈ links := by
  fun_induction add links other id with
  | case1 => exact .inl (by rw [List.mem_singleton.mp h])
  | case2 ids rest =>
    rcases List.mem_cons.mp h with rfl | h
    · exact .inl rfl
    · exact .inr (List.mem_cons_of_mem _ h)
  | case3 name ids rest _ _ =>
    rcases List.mem_cons.mp h with rfl | h
    · exact .inl rfl
    · exact .inr h
  | case4 name ids rest _ _ ih =>
    rcases List.mem_cons.mp h with rfl | h
    · exact .inr List.mem_cons_self
    · exact (ih h).imp_right (List.mem_cons_of_mem _)

theorem Canonical.add {links : Links} (h : links.Canonical) (other : String) (id : RelationId) :
    (links.add other id).Canonical := by
  induction links with
  | nil => exact ⟨List.pairwise_singleton _ _, by simp [Links.add]⟩
  | cons entry rest ih =>
    obtain ⟨name, ids⟩ := entry
    unfold Links.add
    split
    · refine ⟨List.pairwise_cons.mpr ⟨h.head_lt, h.tail.ascending⟩, fun e he => ?_⟩
      rcases List.mem_cons.mp he with rfl | he
      · simp
      · exact h.tail.filled e he
    · split
      · rename_i hlt
        refine ⟨List.pairwise_cons.mpr ⟨fun e he => ?_, h.ascending⟩, fun e he => ?_⟩
        · rcases List.mem_cons.mp he with rfl | he
          · exact hlt
          · exact lt_trans hlt (h.head_lt e he)
        · rcases List.mem_cons.mp he with rfl | he
          · simp
          · exact h.filled e he
      · rename_i hne hlt
        have hgt : name < other := lt_of_le_of_ne (not_lt.mp hlt) hne
        refine ⟨List.pairwise_cons.mpr ⟨fun e he => ?_, (ih h.tail).ascending⟩, fun e he => ?_⟩
        · rcases mem_add he with he | he
          · rwa [he]
          · exact h.head_lt e he
        · rcases List.mem_cons.mp he with rfl | he
          · exact h.filled _ List.mem_cons_self
          · exact (ih h.tail).filled e he

/-- Adding appends to the relations of one class and leaves the others. -/
theorem Canonical.get_add {links : Links} (h : links.Canonical) (other : String) (id : RelationId)
    (name : String) :
    (links.add other id).get name = if name = other then links.get name ++ [id]
      else links.get name := by
  induction links with
  | nil =>
    unfold Links.add
    rw [get_cons]
    rfl
  | cons entry rest ih =>
    obtain ⟨first, ids⟩ := entry
    unfold Links.add
    split
    · rename_i heq
      subst heq
      rw [get_cons, get_cons]
      by_cases hn : name = first <;> simp [hn]
    · split
      · rename_i hlt
        rw [get_cons]
        by_cases hn : name = other
        · have hnil : get ((first, ids) :: rest) name = [] := by
            apply get_eq_nil_of_lt
            intro e he
            rw [hn]
            rcases List.mem_cons.mp he with rfl | he
            · exact hlt
            · exact lt_trans hlt (h.head_lt e he)
          rw [if_pos hn, if_pos hn, hnil]
          rfl
        · rw [if_neg hn, if_neg hn]
      · rename_i hne _
        rw [get_cons, get_cons, ih h.tail]
        by_cases hn : name = first
        · rw [if_pos hn, if_pos hn, if_neg (hn ▸ hne)]
        · rw [if_neg hn, if_neg hn]

theorem mem_remove {links : Links} {other : String} {id : RelationId}
    {entry : String × List RelationId} (h : entry ∈ links.remove other id) :
    ∃ e ∈ links, e.1 = entry.1 := by
  fun_induction remove links other id with
  | case1 => exact absurd h List.not_mem_nil
  | case2 ids rest left hempty => exact ⟨entry, List.mem_cons_of_mem _ h, rfl⟩
  | case3 ids rest left hempty =>
    rcases List.mem_cons.mp h with rfl | h
    · exact ⟨_, List.mem_cons_self, rfl⟩
    · exact ⟨entry, List.mem_cons_of_mem _ h, rfl⟩
  | case4 name ids rest _ ih =>
    rcases List.mem_cons.mp h with rfl | h
    · exact ⟨_, List.mem_cons_self, rfl⟩
    · obtain ⟨e, he, heq⟩ := ih h
      exact ⟨e, List.mem_cons_of_mem _ he, heq⟩

theorem Canonical.remove {links : Links} (h : links.Canonical) (other : String)
    (id : RelationId) : (links.remove other id).Canonical := by
  induction links with
  | nil => exact canonical_nil
  | cons entry rest ih =>
    obtain ⟨name, ids⟩ := entry
    unfold Links.remove
    dsimp only
    split
    · split
      · exact h.tail
      · rename_i hleft
        refine ⟨List.pairwise_cons.mpr ⟨h.head_lt, h.tail.ascending⟩, fun e he => ?_⟩
        rcases List.mem_cons.mp he with rfl | he
        · rwa [List.isEmpty_iff] at hleft
        · exact h.tail.filled e he
    · refine ⟨List.pairwise_cons.mpr ⟨fun e he => ?_, (ih h.tail).ascending⟩, fun e he => ?_⟩
      · obtain ⟨e', he', heq⟩ := mem_remove he
        rw [← heq]
        exact h.head_lt e' he'
      · rcases List.mem_cons.mp he with rfl | he
        · exact h.filled _ List.mem_cons_self
        · exact (ih h.tail).filled e he

/-- Removing takes one number from the relations of one class. -/
theorem Canonical.get_remove {links : Links} (h : links.Canonical) (other : String)
    (id : RelationId) (name : String) :
    (links.remove other id).get name =
      if name = other then (links.get name).filter (· != id) else links.get name := by
  induction links with
  | nil => simp [Links.remove]
  | cons entry rest ih =>
    obtain ⟨first, ids⟩ := entry
    unfold Links.remove
    dsimp only
    split
    · rename_i heq
      subst heq
      split
      · rename_i hleft
        rw [List.isEmpty_iff] at hleft
        rw [get_cons]
        by_cases hn : name = first
        · rw [if_pos hn, if_pos hn, hleft, hn, get_eq_nil_of_lt h.head_lt]
        · rw [if_neg hn, if_neg hn]
      · rw [get_cons, get_cons]
        by_cases hn : name = first <;> simp [hn]
    · rename_i hne
      rw [get_cons, get_cons, ih h.tail]
      by_cases hn : name = first
      · rw [if_pos hn, if_pos hn, if_neg (hn ▸ hne)]
      · rw [if_neg hn, if_neg hn]

end SchemaBridge.Links
