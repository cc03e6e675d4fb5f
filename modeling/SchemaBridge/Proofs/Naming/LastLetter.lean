/-
  The last letter of a name. A small letter at the end of a name is still there when the name is
  turned into a class and back into snake case: it ends the last cluster, that ends the last word,
  and a word ends as before, but for capitals.
  Main result: `getLast?_snake_pascal`.
-/
import SchemaBridge.Naming.Words

namespace SchemaBridge.Naming

open Text

variable {s : List Char} {c : Char}

/-! ## Letters -/

/-- A letter of ASCII. It makes up no separator, and its case is changed to one letter. -/
structure IsLetter (c : Char) : Prop where
  upper : upperChar c = [c.toUpper]
  lower : lowerChar c = [c.toLower]
  sigma : c ≠ 'Σ'
  separator : c ∉ ['_', '-', ' ']

instance (c : Char) : Decidable (IsLetter c) :=
  decidable_of_iff (upperChar c = [c.toUpper] ∧ lowerChar c = [c.toLower] ∧ c ≠ 'Σ' ∧
      c ∉ ['_', '-', ' '])
    ⟨fun ⟨h1, h2, h3, h4⟩ => ⟨h1, h2, h3, h4⟩, fun ⟨h1, h2, h3, h4⟩ => ⟨h1, h2, h3, h4⟩⟩

/-- A small letter, and the capital of it. -/
theorem isLetter_of_isLower (h : c.isLower = true) :
    IsLetter c ∧ IsLetter c.toUpper ∧ c.toLower = c ∧ c.toUpper.toLower = c := by
  have hall : ∀ n < 128, (Char.ofNat n).isLower = true → IsLetter (Char.ofNat n) ∧
      IsLetter (Char.ofNat n).toUpper ∧ (Char.ofNat n).toLower = Char.ofNat n ∧
        (Char.ofNat n).toUpper.toLower = Char.ofNat n := by
    decide
  have hlt : c.toNat < 128 := by
    have hle := (Bool.and_eq_true_iff.mp h).2
    rw [decide_eq_true_eq, UInt32.le_iff_toNat_le] at hle
    exact Nat.lt_of_le_of_lt hle (by decide)
  have hspec := hall c.toNat hlt
  rw [Char.ofNat_toNat] at hspec
  exact hspec h

theorem getLast?_lowerFrom (hc : IsLetter c) (before s : List Char) :
    (lowerFrom before (s ++ [c])).getLast? = some c.toLower := by
  induction s generalizing before with
  | nil =>
    rw [List.nil_append, lowerFrom, lowerFrom, if_neg hc.sigma, hc.lower]
    rfl
  | cons d rest ih =>
    rw [List.cons_append, lowerFrom, List.getLast?_append, ih]
    rfl

theorem getLast?_toLower (hc : IsLetter c) (hs : s.getLast? = some c) :
    (toLower s).getLast? = some c.toLower := by
  obtain ⟨front, rfl⟩ := List.getLast?_eq_some_iff.mp hs
  exact getLast?_lowerFrom hc [] front

/-- The first letter of a word becomes a capital, the last of several a small one. -/
theorem getLast?_capitalize (hc : IsLetter c) (hs : s.getLast? = some c) :
    (capitalize s).getLast? = some c.toUpper ∨ (capitalize s).getLast? = some c.toLower := by
  cases s with
  | nil => cases hs
  | cons d rest =>
    cases rest with
    | nil =>
      obtain rfl : d = c := Option.some.inj hs
      left
      rw [capitalize, hc.upper]
      rfl
    | cons e more =>
      right
      rw [List.getLast?_cons_cons] at hs
      rw [capitalize, List.getLast?_append, getLast?_toLower hc hs]
      rfl

/-! ## Words -/

theorem exists_last_cluster (pending s : List Char) (c : Char) :
    ∃ front k, clustersFrom pending (s ++ [c]) = front ++ [k] ∧ k.getLast? = some c := by
  induction s generalizing pending with
  | nil =>
    rw [List.nil_append, clustersFrom]
    split
    · refine ⟨[], (c :: pending).reverse, rfl, ?_⟩
      rw [List.reverse_cons, List.getLast?_concat]
    · exact ⟨[pending.reverse], [c], rfl, rfl⟩
  | cons d rest ih =>
    rw [List.cons_append, clustersFrom]
    split
    · exact ih (d :: pending)
    · obtain ⟨front, k, hclusters, hk⟩ := ih [d]
      exact ⟨pending.reverse :: front, k, by rw [hclusters, List.cons_append], hk⟩

/-- The last word ends in the last cluster. -/
theorem exists_last_word (front : List (List Char)) {k : List Char}
    (hk : isSeparator k = false) :
    ∃ ws w, wordsOfClusters (front ++ [k]) = ws ++ [w ++ k] := by
  have hkind : Glyph.ofCluster k ≠ .separator := by
    unfold Glyph.ofCluster
    rw [if_neg (by rw [hk]; exact Bool.false_ne_true)]
    repeat' split
    all_goals exact Glyph.noConfusion
  have hjoin : ∀ d words ws w, words = ws ++ [w ++ k] →
      ∃ ws w, joinFirst d words = ws ++ [w ++ k] := by
    rintro d words ws w rfl
    cases ws with
    | nil => exact ⟨[], d ++ w, by rw [List.nil_append, joinFirst, List.append_assoc]; rfl⟩
    | cons v ws => exact ⟨(d ++ v) :: ws, w, rfl⟩
  induction front with
  | nil =>
    refine ⟨[], [], ?_⟩
    rw [List.nil_append, wordsOfClusters, if_neg hkind, wordsOfClusters, joinFirst,
      List.append_nil]
    rfl
  | cons d rest ih =>
    obtain ⟨ws, w, hwords⟩ := ih
    rw [List.cons_append, wordsOfClusters.eq_def]
    dsimp only
    split
    · exact ⟨[] :: ws, w, by rw [hwords, List.cons_append]⟩
    · split
      · exact hjoin d _ ws w hwords
      · split
        · exact ⟨d :: ws, w, by rw [hwords, List.cons_append]⟩
        · exact hjoin d _ ws w hwords

theorem exists_words {name : String} (hc : IsLetter c) (hname : name.toList.getLast? = some c) :
    ∃ ws w, words name = ws ++ [w] ∧ w.getLast? = some c := by
  obtain ⟨s, hs⟩ := List.getLast?_eq_some_iff.mp hname
  obtain ⟨front, k, hclusters, hk⟩ := exists_last_cluster [] s c
  have hseparator : isSeparator k = false := by
    have hne : ∀ d ∈ ['_', '-', ' '], k ≠ [d] := by
      rintro d hd rfl
      cases hk
      exact hc.separator hd
    unfold isSeparator
    rw [Bool.or_eq_false_iff, Bool.or_eq_false_iff, beq_eq_false_iff_ne, beq_eq_false_iff_ne,
      beq_eq_false_iff_ne]
    exact ⟨⟨hne '_' (by decide), hne '-' (by decide)⟩, hne ' ' (by decide)⟩
  obtain ⟨ws, w, hwords⟩ := exists_last_word front hseparator
  refine ⟨ws, w ++ k, ?_, ?_⟩
  · unfold words clusters
    rw [hs, hclusters, hwords]
  · rw [List.getLast?_append, hk]
    rfl

theorem getLast?_intercalate (sep : List Char) (ws : List (List Char)) {w : List Char}
    (hw : w.getLast? = some c) : (sep.intercalate (ws ++ [w])).getLast? = some c := by
  induction ws with
  | nil => rwa [List.nil_append, List.intercalate_singleton]
  | cons v rest ih =>
    obtain ⟨u, more, hmore⟩ : ∃ u more, rest ++ [w] = u :: more :=
      List.exists_cons_of_ne_nil (by simp)
    rw [hmore] at ih
    rw [List.cons_append, hmore, List.intercalate_cons_cons, List.getLast?_append, ih]
    rfl

/-! ## Names -/

theorem getLast?_snake {name : String} (hc : IsLetter c) (hname : name.toList.getLast? = some c) :
    (snake name).toList.getLast? = some c.toLower := by
  obtain ⟨ws, w, hwords, hw⟩ := exists_words hc hname
  unfold snake
  rw [String.toList_ofList, hwords, List.map_append, List.map_singleton]
  exact getLast?_intercalate _ _ (getLast?_toLower hc hw)

theorem getLast?_pascal {name : String} (hc : IsLetter c)
    (hname : name.toList.getLast? = some c) :
    (pascal name).toList.getLast? = some c.toUpper ∨
      (pascal name).toList.getLast? = some c.toLower := by
  obtain ⟨ws, w, hwords, hw⟩ := exists_words hc hname
  unfold pascal
  rw [String.toList_ofList, hwords, List.flatMap_append, List.flatMap_singleton,
    List.getLast?_append]
  rcases getLast?_capitalize hc hw with h | h
  · exact .inl (by rw [h]; rfl)
  · exact .inr (by rw [h]; rfl)

/-- A small letter at the end of a name stays, whatever comes before it. -/
theorem getLast?_snake_pascal {name : String} (hc : c.isLower = true)
    (hname : name.toList.getLast? = some c) :
    (snake (pascal name)).toList.getLast? = some c := by
  obtain ⟨hsmall, hcapital, hlower, hupper⟩ := isLetter_of_isLower hc
  rcases getLast?_pascal hsmall hname with h | h
  · rw [getLast?_snake hcapital h, hupper]
  · rw [hlower] at h
    rw [getLast?_snake hsmall h, hlower]

end SchemaBridge.Naming
