/-
  Every relation that is no junction has exactly one owner, the class that stores its key.
-/
import SchemaBridge.Proofs.Schema.Consistency
import SchemaBridge.Plan.Build

namespace SchemaBridge.Relation

variable {r : Relation} {cls : String}

/-- Seen from the other end, the two ends of a relation change places. -/
theorem ends_swap {mine theirs : End} (h : r.ends cls = some (mine, theirs))
    (hne : cls ≠ theirs.cls) : r.ends theirs.cls = some (theirs, mine) := by
  unfold ends at h
  split at h
  · cases h
    rename_i hs
    exact ends_of_target rfl (hs ▸ hne)
  · split at h
    · cases h
      exact ends_of_source rfl
    · cases h

/-- Both ends are those of the source and the target, in one order or the other. -/
theorem ends_cases {mine theirs : End} (h : r.ends cls = some (mine, theirs)) :
    (mine = r.source ∧ theirs = r.target) ∨ (mine = r.target ∧ theirs = r.source) := by
  unfold ends at h
  split at h
  · cases h
    exact .inl ⟨rfl, rfl⟩
  · split at h <;> cases h
    exact .inr ⟨rfl, rfl⟩

theorem isJunction_iff {mine theirs : End} (h : r.ends cls = some (mine, theirs)) :
    r.isJunction = true ↔ mine.multiplicity.isMany = true ∧ theirs.multiplicity.isMany = true := by
  unfold isJunction
  rw [Bool.and_eq_true]
  rcases ends_cases h with ⟨rfl, rfl⟩ | ⟨rfl, rfl⟩
  · exact Iff.rfl
  · exact And.comm

theorem ownership_eq_own_iff {r : Relation} {c : String} : r.ownership c = some .own ↔
    ∃ mine theirs, r.ends c = some (mine, theirs) ∧ r.isJunction = false ∧
      (r.isSelf = true ∨ storesKey mine theirs = true) := by
  unfold ownership
  cases he : r.ends c with
  | none => simp
  | some e =>
    obtain ⟨mine, theirs⟩ := e
    have hj := isJunction_iff he
    dsimp only
    by_cases hmany : mine.multiplicity.isMany = true ∧ theirs.multiplicity.isMany = true
    · have hjunction := hj.mpr hmany
      simp [hmany, hjunction]
    · have hjunction : r.isJunction = false := by
        rw [Bool.eq_false_iff]
        exact fun h => hmany (hj.mp h)
      rw [if_neg (by simpa using hmany)]
      by_cases hkey : r.isSelf = true ∨ storesKey mine theirs = true
      · rw [if_pos (by simpa using hkey)]
        simp [hjunction, hkey]
      · rw [if_neg (by simpa using hkey)]
        simp [hjunction, hkey]

/-- The owner is one of the ends. -/
theorem ends_of_owner (h : r.ownership cls = some .own) :
    ∃ mine theirs, r.ends cls = some (mine, theirs) := by
  obtain ⟨mine, theirs, he, -⟩ := ownership_eq_own_iff.mp h
  exact ⟨mine, theirs, he⟩

theorem not_isJunction_of_owner (h : r.ownership cls = some .own) : r.isJunction = false := by
  obtain ⟨_, _, -, hj, -⟩ := ownership_eq_own_iff.mp h
  exact hj

theorem isSelf_iff_of_ends {mine theirs : End} (h : r.ends cls = some (mine, theirs)) :
    r.isSelf = true ↔ theirs.cls = cls := by
  have hmine := cls_of_ends h
  unfold isSelf
  rw [beq_iff_eq]
  rcases ends_cases h with ⟨rfl, rfl⟩ | ⟨rfl, rfl⟩
  · rw [← hmine]
    exact eq_comm
  · rw [← hmine]

/-- If an end does not own a relation that is no junction, the other end does. -/
theorem owner_of_other {mine theirs : End} (he : r.ends cls = some (mine, theirs))
    (hj : r.isJunction = false) (hself : r.isSelf = false) :
    r.ownership theirs.cls = some .own ↔ r.ownership cls ≠ some .own := by
  have hne : cls ≠ theirs.cls := by
    intro heq
    rw [(isSelf_iff_of_ends he).mpr heq.symm] at hself
    cases hself
  have hmany : ¬(mine.multiplicity.isMany = true ∧ theirs.multiplicity.isMany = true) := by
    rw [← isJunction_iff he, hj]
    exact Bool.false_ne_true
  have hswap := storesKey_swap (a := mine) (b := theirs) (cls_of_ends he ▸ hne) hmany
  have howner := ownership_eq_own_iff (r := r) (c := cls)
  have hother := ownership_eq_own_iff (r := r) (c := theirs.cls)
  rw [he] at howner
  rw [ends_swap he hne] at hother
  rw [hother, Ne, howner]
  simp [hj, hself, hswap]

/-- The key of a relation is stored at one end or at the other, unless there is a junction. -/
theorem ownership_of_not_isJunction {mine theirs : End} (he : r.ends cls = some (mine, theirs))
    (hj : r.isJunction = false) :
    r.ownership cls = some .own ∨ r.ownership cls = some .other := by
  have hmany : ¬(mine.multiplicity.isMany && theirs.multiplicity.isMany) = true := by
    intro hboth
    rw [(isJunction_iff he).mpr (Bool.and_eq_true_iff.mp hboth)] at hj
    cases hj
  unfold ownership
  rw [he]
  dsimp only
  rw [if_neg hmany]
  split
  · exact .inl rfl
  · exact .inr rfl

/-- No two classes own the same relation. -/
theorem owner_unique {other : String} (h : r.ownership cls = some .own)
    (h' : r.ownership other = some .own) : cls = other := by
  obtain ⟨mine, theirs, he, hj, -⟩ := ownership_eq_own_iff.mp h
  obtain ⟨mine', theirs', he'⟩ := ends_of_owner h'
  have hcls := cls_of_ends he
  have hother := cls_of_ends he'
  dsimp only at hcls hother
  cases hself : r.isSelf with
  | true =>
    have h1 := (isSelf_iff_of_ends he).mp hself
    have h2 := (isSelf_iff_of_ends he').mp hself
    rcases ends_cases he with ⟨rfl, rfl⟩ | ⟨rfl, rfl⟩ <;>
      rcases ends_cases he' with ⟨rfl, rfl⟩ | ⟨rfl, rfl⟩
    · exact hcls.symm.trans hother
    · exact h1.symm.trans hother
    · exact h1.symm.trans hother
    · exact hcls.symm.trans hother
  | false =>
    by_contra hne
    have htheirs : theirs.cls = other := by
      rcases ends_cases he with ⟨rfl, rfl⟩ | ⟨rfl, rfl⟩ <;>
        rcases ends_cases he' with ⟨rfl, rfl⟩ | ⟨rfl, rfl⟩
      · exact absurd (hcls.symm.trans hother) hne
      · exact hother
      · exact hother
      · exact absurd (hcls.symm.trans hother) hne
    rw [← htheirs] at h'
    exact (owner_of_other he hj hself).mp h' h

end SchemaBridge.Relation

namespace SchemaBridge.Plan

/-- The class that a key is planned for is the owner. -/
theorem ownerOf_eq {r : Relation} {cls : String} (h : r.ownership cls = some .own) :
    ownerOf r = cls := by
  have hends : r.ends r.source.cls = some (r.source, r.target) := Relation.ends_of_source rfl
  have hj := Relation.not_isJunction_of_owner h
  unfold ownerOf
  rcases Relation.ownership_of_not_isJunction hends hj with hown | hother
  · have hnot : r.ownership r.source.cls ≠ some .other := by
      rw [hown]
      decide
    rw [if_neg hnot]
    exact Relation.owner_unique hown h
  · have hself : r.isSelf = false := by
      rw [Bool.eq_false_iff]
      intro hs
      have hown := Relation.ownership_eq_own_iff.mpr ⟨_, _, hends, hj, .inl hs⟩
      rw [hother] at hown
      cases hown
    rw [if_pos hother]
    refine Relation.owner_unique ((Relation.owner_of_other hends hj hself).mpr ?_) h
    rw [hother]
    decide

theorem owns_iff {r : Relation} {cls : String} :
    owns r cls = true ↔ r.ownership cls = some .own := by
  simp [owns]

end SchemaBridge.Plan
