/-
  Taking a known text off the end of another, and cutting a text at a separator.
-/

namespace SchemaBridge.Text

/-- What stands before `tail`, if the text ends in it. -/
def dropSuffix? (tail s : List Char) : Option (List Char) :=
  if tail.isSuffixOf s then some (s.take (s.length - tail.length)) else none

theorem dropSuffix?_eq_some_iff {tail s t : List Char} :
    dropSuffix? tail s = some t ↔ s = t ++ tail := by
  unfold dropSuffix?
  constructor
  · intro h
    split at h <;> rename_i hs
    · obtain ⟨u, rfl⟩ := List.isSuffixOf_iff_suffix.mp hs
      simp at h
      exact h ▸ rfl
    · simp at h
  · rintro rfl
    simp

/-- The parts of a text between the places where `sep` stands; always at least one. -/
def splitAt (sep : Char) : List Char → List (List Char)
  | [] => [[]]
  | c :: rest =>
    if c = sep then [] :: splitAt sep rest
    else match splitAt sep rest with
      | [] => [[c]]
      | part :: parts => (c :: part) :: parts

theorem splitAt_ne_nil (sep : Char) (s : List Char) : splitAt sep s ≠ [] := by
  cases s with
  | nil => simp [splitAt]
  | cons c rest =>
    simp only [splitAt]
    split
    · simp
    · split <;> simp

/-- A text without the separator is one part. -/
theorem splitAt_of_not_mem {sep : Char} {s : List Char} (h : sep ∉ s) :
    splitAt sep s = [s] := by
  induction s with
  | nil => rfl
  | cons c rest ih =>
    have hc : c ≠ sep := fun e => h (e ▸ List.mem_cons_self)
    have hr : sep ∉ rest := fun e => h (List.mem_cons_of_mem _ e)
    simp [splitAt, hc, ih hr]

end SchemaBridge.Text
