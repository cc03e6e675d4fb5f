/-
  Which nouns come back from their plural. Each rule for plurals is followed through the rules for
  singulars: some endings meet the rule that takes the plural off again, the others meet an earlier
  one and come back as another noun. Such a noun ends in another letter, and so does the class that
  is named after it.
  Main result: `singular_of_plural_iff`.
-/
import SchemaBridge.Naming.Convention
import SchemaBridge.Proofs.Naming.LastLetter
import Mathlib.Data.List.DropRight
import Mathlib.Tactic.FinCases

namespace SchemaBridge.Naming

open Text

variable {word stem : List Char}

/-! ## Endings -/

theorem endsInOneOf_iff {endings : List (List Char)} :
    endsInOneOf endings word = true ↔ ∃ e ∈ endings, ∃ t, word = t ++ e := by
  unfold endsInOneOf
  rw [List.any_eq_true]
  refine exists_congr fun e => and_congr_right fun _ => ?_
  rw [List.isSuffixOf_iff_suffix]
  exact exists_congr fun t => eq_comm

theorem dropSuffix?_eq_none {tail : List Char} (h : tail.isSuffixOf word = false) :
    dropSuffix? tail word = none := by
  unfold dropSuffix?
  rw [h]
  rfl

/-- The ending of a plural belongs to its last segment. -/
theorem lastSegment_append {tail : List Char} (h : '_' ∉ tail) :
    lastSegment (word ++ tail) = lastSegment word ++ tail := by
  unfold lastSegment
  rw [List.reverse_append, List.takeWhile_append_of_pos, List.reverse_append, List.reverse_reverse]
  intro c hc
  rw [bne_iff_ne]
  rintro rfl
  exact h (List.mem_reverse.mp hc)

/-! ## Plurals -/

theorem pluralOf_of_hissing (h : endsInOneOf hissingEndings word = true) :
    pluralOf word = word ++ ['e', 's'] := by
  unfold pluralOf
  rw [if_pos h]

theorem pluralOf_y (stem : List Char) : pluralOf (stem ++ ['y']) =
    if endsInVowel stem then stem ++ ['y', 's'] else stem ++ ['i', 'e', 's'] := by
  have hhissing : endsInOneOf hissingEndings (stem ++ ['y']) = false := by
    simp [endsInOneOf, hissingEndings, List.isSuffixOf, List.isPrefixOf]
  unfold pluralOf
  rw [hhissing, dropSuffix?_eq_some_iff.mpr rfl]
  simp only [Bool.false_eq_true, if_false, List.append_assoc]
  rfl

theorem pluralOf_of_plain (hhissing : endsInOneOf hissingEndings word = false)
    (hy : ['y'].isSuffixOf word = false) : pluralOf word = word ++ ['s'] := by
  unfold pluralOf
  rw [hhissing, dropSuffix?_eq_none hy]
  rfl

/-! ## Their singulars -/

/-- Endings in one hiss that is no mere `s`. -/
def fullHisses : List (List Char) :=
  [['s', 's'], ['s', 'h'], ['c', 'h'], ['x'], ['z']]

/-- Endings that make an added `s` look like a part of something else. -/
def misleadingEndings : List (List Char) :=
  [['i', 'e'], ['s', 's', 'e'], ['s', 'h', 'e'], ['c', 'h', 'e'], ['x', 'e'], ['z', 'e'],
    ['u', 's', 'e'], ['u'], ['i']]

theorem singularOf_ies (stem : List Char) :
    singularOf (stem ++ ['i', 'e', 's']) = stem ++ ['y'] := by
  unfold singularOf
  rw [if_neg (by simp), dropSuffix?_eq_some_iff.mpr rfl]

theorem singularOf_es (h : endsInOneOf fullHisses word = true) :
    singularOf (word ++ ['e', 's']) = word := by
  obtain ⟨e, he, t, rfl⟩ := endsInOneOf_iff.mp h
  have hies : dropSuffix? ['i', 'e', 's'] (t ++ e ++ ['e', 's']) = none := by
    apply dropSuffix?_eq_none
    fin_cases he <;> simp [List.isSuffixOf, List.isPrefixOf]
  have hhissing : endsInOneOf hissingPlurals (t ++ e ++ ['e', 's']) = true := by
    fin_cases he <;> simp [endsInOneOf, hissingPlurals, List.isSuffixOf]
  unfold singularOf
  rw [if_neg (by simp; omega), hies]
  dsimp only
  rw [if_pos hhissing, List.length_append, List.length_cons, List.length_singleton,
    Nat.add_sub_cancel, List.take_left']
  rfl

/-- The nouns in `us` and those in `use` have the same plural. -/
theorem singularOf_uses (stem : List Char) : singularOf (stem ++ ['u', 's', 'e', 's']) =
    if endsInVowel stem || usePlurals.contains (lastSegment (stem ++ ['u', 's', 'e', 's'])) then
      stem ++ ['u', 's', 'e']
    else stem ++ ['u', 's'] := by
  have hies : dropSuffix? ['i', 'e', 's'] (stem ++ ['u', 's', 'e', 's']) = none := by
    apply dropSuffix?_eq_none
    simp [List.isSuffixOf, List.isPrefixOf]
  have hhissing : endsInOneOf hissingPlurals (stem ++ ['u', 's', 'e', 's']) = false := by
    simp [endsInOneOf, hissingPlurals, List.isSuffixOf, List.isPrefixOf]
  have hkept : endsInOneOf singularEndings (stem ++ ['u', 's', 'e', 's']) = false := by
    simp [endsInOneOf, singularEndings, List.isSuffixOf, List.isPrefixOf]
  have hs : dropSuffix? ['s'] (stem ++ ['u', 's', 'e', 's']) = some (stem ++ ['u', 's', 'e']) :=
    dropSuffix?_eq_some_iff.mpr (by simp)
  have hstem : usStem? (stem ++ ['u', 's', 'e', 's']) =
      if endsInVowel stem || usePlurals.contains (lastSegment (stem ++ ['u', 's', 'e', 's'])) then
        none
      else some stem := by
    unfold usStem?
    rw [dropSuffix?_eq_some_iff.mpr rfl]
  unfold singularOf
  rw [if_neg (by simp), hies, hhissing, hstem, hkept, hs]
  by_cases hbound : (endsInVowel stem ||
      usePlurals.contains (lastSegment (stem ++ ['u', 's', 'e', 's']))) = true
  · rw [if_pos hbound, if_pos hbound]
    rfl
  · rw [if_neg hbound, if_neg hbound]
    rfl

/-- A noun in `us` or `is` is no plural. -/
theorem singularOf_kept (h : endsInOneOf [['u'], ['i']] word = true) :
    singularOf (word ++ ['s']) = word ++ ['s'] := by
  obtain ⟨e, he, t, rfl⟩ := endsInOneOf_iff.mp h
  have hies : dropSuffix? ['i', 'e', 's'] (t ++ e ++ ['s']) = none := by
    apply dropSuffix?_eq_none
    fin_cases he <;> simp [List.isSuffixOf, List.isPrefixOf]
  have hhissing : endsInOneOf hissingPlurals (t ++ e ++ ['s']) = false := by
    fin_cases he <;> simp [endsInOneOf, hissingPlurals, List.isSuffixOf, List.isPrefixOf]
  have huses : dropSuffix? ['u', 's', 'e', 's'] (t ++ e ++ ['s']) = none := by
    apply dropSuffix?_eq_none
    fin_cases he <;> simp [List.isSuffixOf, List.isPrefixOf]
  have hkept : endsInOneOf singularEndings (t ++ e ++ ['s']) = true := by
    fin_cases he <;> simp [endsInOneOf, singularEndings, List.isSuffixOf]
  unfold singularOf usStem?
  rw [if_neg (by fin_cases he <;> simp), hies]
  dsimp only
  rw [hhissing, huses, hkept]
  rfl

/-- An `s` that belongs to nothing else comes off. -/
theorem singularOf_s (hne : word ≠ []) (hs : ['s'].isSuffixOf word = false)
    (h : endsInOneOf misleadingEndings word = false) : singularOf (word ++ ['s']) = word := by
  have hlength : ¬(word ++ ['s']).length < 2 := by
    have := List.length_pos_iff.mpr hne
    rw [List.length_append, List.length_singleton]
    omega
  simp only [List.isSuffixOf, List.reverse_cons, List.reverse_nil, List.nil_append,
    endsInOneOf, misleadingEndings, List.any_cons, List.any_nil, Bool.or_false,
    Bool.or_eq_false_iff, List.cons_append] at hs h
  have hies : dropSuffix? ['i', 'e', 's'] (word ++ ['s']) = none := by
    apply dropSuffix?_eq_none
    simp [List.isSuffixOf, h]
  have hhissing : endsInOneOf hissingPlurals (word ++ ['s']) = false := by
    simp [endsInOneOf, hissingPlurals, List.isSuffixOf, h]
  have huses : dropSuffix? ['u', 's', 'e', 's'] (word ++ ['s']) = none := by
    apply dropSuffix?_eq_none
    simp [List.isSuffixOf, h]
  have hkept : endsInOneOf singularEndings (word ++ ['s']) = false := by
    simp [endsInOneOf, singularEndings, List.isSuffixOf, hs, h]
  unfold singularOf usStem?
  rw [if_neg hlength, hies]
  dsimp only
  rw [hhissing, huses, hkept, dropSuffix?_eq_some_iff.mpr rfl]
  rfl

/-! ## Nouns that come back -/

/-- The nouns that come back from their plural, by their endings. -/
def ComesBack (word : List Char) : Prop :=
  word ≠ [] ∧
    (endsInOneOf fullHisses word = true ∨
      (['u', 's'].isSuffixOf word = true ∧ endsInVowel (word.rdrop 2) = false ∧
        lastSegment word ++ ['e', 's'] ∉ usePlurals) ∨
      ['y'].isSuffixOf word = true ∨
      (['u', 's', 'e'].isSuffixOf word = true ∧
        (endsInVowel (word.rdrop 3) = true ∨ lastSegment word ++ ['s'] ∈ usePlurals)) ∨
      (endsInOneOf hissingEndings word = false ∧ ['y'].isSuffixOf word = false ∧
        endsInOneOf misleadingEndings word = false))

instance (word : List Char) : Decidable (ComesBack word) :=
  inferInstanceAs (Decidable (_ ∧ _))

/-- Another noun comes back, with a small letter at its end that is not the last one of this. -/
def LeavesBy (word back : List Char) : Prop :=
  ∃ c, c.isLower = true ∧ back.getLast? = some c ∧ word.getLast? ≠ some c

theorem LeavesBy.ne {back : List Char} (h : LeavesBy word back) : back ≠ word := by
  rintro rfl
  obtain ⟨c, -, hlast, hne⟩ := h
  exact hne hlast

/-- What becomes of a noun that is put into the plural and back. -/
def Settles (word : List Char) : Prop :=
  (ComesBack word ∧ singularOf (pluralOf word) = word) ∨
    (¬ComesBack word ∧ LeavesBy word (singularOf (pluralOf word)))

theorem comesBack_us_iff (stem : List Char) : ComesBack (stem ++ ['u', 's']) ↔
    endsInVowel stem = false ∧ lastSegment (stem ++ ['u', 's']) ++ ['e', 's'] ∉ usePlurals := by
  have hstem : (stem ++ ['u', 's']).rdrop 2 = stem := List.rdrop_append_length
  unfold ComesBack
  rw [hstem]
  simp [endsInOneOf, fullHisses, hissingEndings, List.isSuffixOf, List.isPrefixOf]

theorem comesBack_use_iff (stem : List Char) : ComesBack (stem ++ ['u', 's', 'e']) ↔
    endsInVowel stem = true ∨ lastSegment (stem ++ ['u', 's', 'e']) ++ ['s'] ∈ usePlurals := by
  have hstem : (stem ++ ['u', 's', 'e']).rdrop 3 = stem := List.rdrop_append_length
  unfold ComesBack
  rw [hstem]
  simp [endsInOneOf, fullHisses, misleadingEndings, List.isSuffixOf, List.isPrefixOf]

theorem settles_nil : Settles [] :=
  .inr ⟨fun h => h.1 rfl, 's', by decide, by decide, by decide⟩

theorem settles_of_fullHisses (h : endsInOneOf fullHisses word = true) : Settles word := by
  have hhissing : endsInOneOf hissingEndings word = true := by
    obtain ⟨e, he, t, rfl⟩ := endsInOneOf_iff.mp h
    fin_cases he <;> simp [endsInOneOf, hissingEndings, List.isSuffixOf, List.isPrefixOf]
  have hne : word ≠ [] := by
    rintro rfl
    exact absurd h (by decide)
  refine .inl ⟨⟨hne, .inl h⟩, ?_⟩
  rw [pluralOf_of_hissing hhissing, singularOf_es h]

theorem settles_us (stem : List Char) : Settles (stem ++ ['u', 's']) := by
  have hhissing : endsInOneOf hissingEndings (stem ++ ['u', 's']) = true := by
    simp [endsInOneOf, hissingEndings, List.isSuffixOf]
  have hsegment : lastSegment (stem ++ ['u', 's', 'e', 's']) =
      lastSegment (stem ++ ['u', 's']) ++ ['e', 's'] := by
    rw [← lastSegment_append (by decide), List.append_assoc]
    rfl
  unfold Settles
  rw [comesBack_us_iff, pluralOf_of_hissing hhissing, List.append_assoc, List.cons_append,
    List.cons_append, List.nil_append, singularOf_uses, hsegment]
  split
  · rename_i hbound
    refine .inr ⟨?_, 'e', by decide, by simp, by simp⟩
    rintro ⟨hvowel, hword⟩
    simp [hvowel, hword] at hbound
  · rename_i hbound
    rw [Bool.or_eq_true, not_or, List.contains_iff_mem, Bool.not_eq_true] at hbound
    exact .inl ⟨hbound, rfl⟩

/-- An `s` that is part of the noun takes an `e` along. -/
theorem settles_s (hs : ['s'].isSuffixOf stem = false) (hu : ['u'].isSuffixOf stem = false) :
    Settles (stem ++ ['s']) := by
  simp only [List.isSuffixOf, List.reverse_cons, List.reverse_nil, List.nil_append] at hs hu
  have hhissing : endsInOneOf hissingEndings (stem ++ ['s']) = true := by
    simp [endsInOneOf, hissingEndings, List.isSuffixOf]
  have hnone : ¬ComesBack (stem ++ ['s']) := by
    unfold ComesBack
    simp [endsInOneOf, fullHisses, hissingEndings, List.isSuffixOf, List.isPrefixOf, hs, hu]
  have hback : singularOf (stem ++ ['s', 'e'] ++ ['s']) = stem ++ ['s', 'e'] := by
    refine singularOf_s (by simp) ?_ ?_
    · simp [List.isSuffixOf, List.isPrefixOf]
    · simp [endsInOneOf, misleadingEndings, List.isSuffixOf, List.isPrefixOf, hs, hu]
  refine .inr ⟨hnone, 'e', by decide, ?_, by simp⟩
  rw [pluralOf_of_hissing hhissing]
  simp only [List.append_assoc, List.cons_append, List.nil_append] at hback ⊢
  rw [hback]
  simp

theorem settles_y (stem : List Char) : Settles (stem ++ ['y']) := by
  have hback : ComesBack (stem ++ ['y']) :=
    ⟨by simp, .inr (.inr (.inl (by simp)))⟩
  refine .inl ⟨hback, ?_⟩
  rw [pluralOf_y]
  split
  · have hs : singularOf (stem ++ ['y'] ++ ['s']) = stem ++ ['y'] := by
      refine singularOf_s (by simp) ?_ ?_
      · simp [List.isSuffixOf, List.isPrefixOf]
      · simp [endsInOneOf, misleadingEndings, List.isSuffixOf, List.isPrefixOf]
    rwa [List.append_assoc] at hs
  · exact singularOf_ies stem

/-- The nouns that take a mere `s`. -/
structure TakesS (word : List Char) : Prop where
  hissing : endsInOneOf hissingEndings word = false
  y : ['y'].isSuffixOf word = false

theorem TakesS.pluralOf_eq (h : TakesS word) : pluralOf word = word ++ ['s'] :=
  pluralOf_of_plain h.hissing h.y

theorem takesS_e (stem : List Char) : TakesS (stem ++ ['e']) where
  hissing := by simp [endsInOneOf, hissingEndings, List.isSuffixOf, List.isPrefixOf]
  y := by simp [List.isSuffixOf, List.isPrefixOf]

theorem settles_ie (stem : List Char) : Settles (stem ++ ['i', 'e']) := by
  have htakes : TakesS (stem ++ ['i', 'e']) := by
    rw [List.append_cons]
    exact takesS_e _
  have hplural : pluralOf (stem ++ ['i', 'e']) = stem ++ ['i', 'e', 's'] := by
    rw [htakes.pluralOf_eq, List.append_assoc]
    rfl
  have hnone : ¬ComesBack (stem ++ ['i', 'e']) := by
    unfold ComesBack
    simp [endsInOneOf, fullHisses, misleadingEndings, List.isSuffixOf, List.isPrefixOf]
  refine .inr ⟨hnone, 'y', by decide, ?_, by simp⟩
  rw [hplural, singularOf_ies]
  simp

theorem settles_hiss_e (h : endsInOneOf fullHisses stem = true) : Settles (stem ++ ['e']) := by
  have hplural : pluralOf (stem ++ ['e']) = stem ++ ['e', 's'] := by
    rw [(takesS_e stem).pluralOf_eq, List.append_assoc]
    rfl
  refine .inr ⟨?_, ?_⟩
  · unfold ComesBack
    obtain ⟨e, he, t, rfl⟩ := endsInOneOf_iff.mp h
    fin_cases he <;>
      simp [endsInOneOf, fullHisses, misleadingEndings, List.isSuffixOf, List.isPrefixOf]
  · rw [hplural, singularOf_es h]
    obtain ⟨e, he, t, rfl⟩ := endsInOneOf_iff.mp h
    fin_cases he
    · exact ⟨'s', by decide, by simp, by simp⟩
    · exact ⟨'h', by decide, by simp, by simp⟩
    · exact ⟨'h', by decide, by simp, by simp⟩
    · exact ⟨'x', by decide, by simp, by simp⟩
    · exact ⟨'z', by decide, by simp, by simp⟩

theorem settles_use (stem : List Char) : Settles (stem ++ ['u', 's', 'e']) := by
  have htakes : TakesS (stem ++ ['u', 's', 'e']) := by
    rw [List.append_cons, List.append_cons]
    exact takesS_e _
  have hplural : pluralOf (stem ++ ['u', 's', 'e']) = stem ++ ['u', 's', 'e', 's'] := by
    rw [htakes.pluralOf_eq, List.append_assoc]
    rfl
  have hsegment : lastSegment (stem ++ ['u', 's', 'e', 's']) =
      lastSegment (stem ++ ['u', 's', 'e']) ++ ['s'] := by
    rw [← lastSegment_append (by decide), List.append_assoc]
    rfl
  unfold Settles
  rw [comesBack_use_iff, hplural, singularOf_uses, hsegment]
  split
  · rename_i hbound
    rw [Bool.or_eq_true, List.contains_iff_mem] at hbound
    exact .inl ⟨hbound, rfl⟩
  · rename_i hbound
    rw [Bool.or_eq_true, List.contains_iff_mem] at hbound
    exact .inr ⟨hbound, 's', by decide, by simp, by simp⟩

theorem settles_of_kept (h : endsInOneOf [['u'], ['i']] word = true) : Settles word := by
  have hback := singularOf_kept h
  obtain ⟨e, he, t, rfl⟩ := endsInOneOf_iff.mp h
  have htakes : TakesS (t ++ e) := by
    fin_cases he <;> constructor <;>
      simp [endsInOneOf, hissingEndings, List.isSuffixOf, List.isPrefixOf]
  have hnone : ¬ComesBack (t ++ e) := by
    unfold ComesBack
    fin_cases he <;>
      simp [endsInOneOf, fullHisses, misleadingEndings, List.isSuffixOf, List.isPrefixOf]
  refine .inr ⟨hnone, 's', by decide, ?_, ?_⟩
  · rw [htakes.pluralOf_eq, hback, List.getLast?_concat]
  · fin_cases he <;> simp

theorem settles_of_misleading (h : endsInOneOf misleadingEndings word = true) : Settles word := by
  obtain ⟨e, he, t, rfl⟩ := endsInOneOf_iff.mp h
  have hhiss : ∀ e ∈ fullHisses, Settles (t ++ (e ++ ['e'])) := by
    intro e he
    rw [← List.append_assoc]
    exact settles_hiss_e (endsInOneOf_iff.mpr ⟨e, he, t, rfl⟩)
  fin_cases he
  · exact settles_ie t
  · exact hhiss ['s', 's'] (by decide)
  · exact hhiss ['s', 'h'] (by decide)
  · exact hhiss ['c', 'h'] (by decide)
  · exact hhiss ['x'] (by decide)
  · exact hhiss ['z'] (by decide)
  · exact settles_use t
  · exact settles_of_kept (endsInOneOf_iff.mpr ⟨['u'], by decide, t, rfl⟩)
  · exact settles_of_kept (endsInOneOf_iff.mpr ⟨['i'], by decide, t, rfl⟩)

theorem settles (word : List Char) : Settles word := by
  by_cases hnil : word = []
  · rw [hnil]
    exact settles_nil
  by_cases hfull : endsInOneOf fullHisses word = true
  · exact settles_of_fullHisses hfull
  rw [Bool.not_eq_true] at hfull
  by_cases hs : ['s'].isSuffixOf word = true
  · obtain ⟨stem, rfl⟩ := List.isSuffixOf_iff_suffix.mp hs
    have hss : ['s'].isSuffixOf stem = false := by
      simp only [endsInOneOf, fullHisses, List.any_cons, Bool.or_eq_false_iff] at hfull
      simpa [List.isSuffixOf, List.isPrefixOf] using hfull.1
    by_cases hu : ['u'].isSuffixOf stem = true
    · obtain ⟨t, rfl⟩ := List.isSuffixOf_iff_suffix.mp hu
      rw [List.append_assoc]
      exact settles_us t
    · exact settles_s hss (Bool.not_eq_true _ ▸ hu)
  rw [Bool.not_eq_true] at hs
  have hhissing : endsInOneOf hissingEndings word = false := by
    simp only [endsInOneOf, fullHisses, hissingEndings, List.any_cons, Bool.or_eq_false_iff]
      at hfull ⊢
    exact ⟨hs, hfull.2⟩
  by_cases hy : ['y'].isSuffixOf word = true
  · obtain ⟨stem, rfl⟩ := List.isSuffixOf_iff_suffix.mp hy
    exact settles_y stem
  rw [Bool.not_eq_true] at hy
  by_cases hmisleading : endsInOneOf misleadingEndings word = true
  · exact settles_of_misleading hmisleading
  rw [Bool.not_eq_true] at hmisleading
  refine .inl ⟨⟨hnil, .inr (.inr (.inr (.inr ⟨hhissing, hy, hmisleading⟩)))⟩, ?_⟩
  rw [pluralOf_of_plain hhissing hy, singularOf_s hnil hs hmisleading]

theorem singularOf_pluralOf_iff (word : List Char) :
    singularOf (pluralOf word) = word ↔ ComesBack word := by
  rcases settles word with ⟨hback, heq⟩ | ⟨hnone, hleaves⟩
  · exact ⟨fun _ => hback, fun _ => heq⟩
  · exact ⟨fun heq => absurd heq hleaves.ne, fun hback => absurd hback hnone⟩

/-! ## Classes -/

/-- A class is not named after another noun than its own. -/
theorem className_tableName_ne {cls : String} (h : ¬ComesBack (snake cls).toList) :
    className (tableName cls) ≠ cls := by
  intro hsame
  obtain ⟨hback, -⟩ | ⟨-, c, hlower, hlast, hne⟩ := settles (snake cls).toList
  · exact h hback
  have hletter : (singularize (tableName cls)).toList.getLast? = some c := by
    unfold singularize tableName pluralize
    rwa [String.toList_ofList, String.toList_ofList]
  have hsnake := getLast?_snake_pascal hlower hletter
  have hclass : pascal (singularize (tableName cls)) = cls := hsame
  rw [hclass] at hsnake
  exact hne hsnake

/-- Just the nouns with these endings come back from their plural, and a class that is named after
any other noun comes back from its table under another name. -/
theorem singular_of_plural_iff :
    (∀ word : String, singularize (pluralize word) = word ↔ ComesBack word.toList) ∧
      ∀ cls : String, ¬ComesBack (snake cls).toList → className (tableName cls) ≠ cls := by
  refine ⟨fun word => ?_, fun cls h => className_tableName_ne h⟩
  rw [← singularOf_pluralOf_iff]
  unfold singularize pluralize
  rw [String.toList_ofList, ← String.toList_inj, String.toList_ofList]

theorem singular_of_plural_movie :
    singularize (pluralize "order_status") = "order_status" ∧
    ¬ComesBack (snake "Movie").toList ∧ className (tableName "Movie") ≠ "Movie" := by
  obtain ⟨hword, hclass⟩ := singular_of_plural_iff
  have hmovie : ¬ComesBack (snake "Movie").toList := by decide +kernel
  exact ⟨(hword "order_status").mpr (by decide +kernel), hmovie, hclass "Movie" hmovie⟩

end SchemaBridge.Naming
