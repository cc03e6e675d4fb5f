/-
  Names that can stand in single quotes and close no body. The characters of names in diagrams are
  such, and neither lower case nor the plural brings in others: every mapping to lower case leads
  to a letter.
  Main results: `harmless_snake`, `harmless_tableName` and `harmless_junctionTable`.
-/
import SchemaBridge.Naming.Convention
import SchemaBridge.Text.Letter

namespace SchemaBridge

/-- The character ends no text in single quotes, escapes nothing and closes no body. -/
def isHarmless (c : Char) : Bool :=
  c != '\'' && c != '\\' && c != '\x7d'

/-- A text of harmless characters. -/
def Harmless (s : String) : Prop :=
  ∀ c ∈ s.toList, isHarmless c = true

instance (s : String) : Decidable (Harmless s) :=
  List.decidableBAll _ s.toList

/-- A name: letters, numbers and underscores. -/
structure IsName (s : String) : Prop where
  nonempty : s ≠ ""
  chars : ∀ c ∈ s.toList, (Text.isAlphanumeric c || c == '_') = true

theorem isName_iff {s : String} :
    IsName s ↔ s ≠ "" ∧ s.toList.all (fun c => Text.isAlphanumeric c || c == '_') = true := by
  rw [List.all_eq_true]
  exact ⟨fun h => ⟨h.nonempty, h.chars⟩, fun h => ⟨h.1, h.2⟩⟩

instance (s : String) : Decidable (IsName s) :=
  decidable_of_iff _ isName_iff.symm

theorem ne_of_isHarmless {c d : Char} (hc : isHarmless c = true) (hd : isHarmless d = false) :
    c ≠ d := by
  rintro rfl
  rw [hc] at hd
  cases hd

theorem Harmless.append {a b : String} (ha : Harmless a) (hb : Harmless b) : Harmless (a ++ b) := by
  intro c hc
  rw [String.toList_append] at hc
  exact (List.mem_append.mp hc).elim (ha c) (hb c)

theorem IsName.harmless {s : String} (h : IsName s) : Harmless s := by
  intro c hc
  have hname := h.chars c hc
  have hne : ∀ d : Char, (Text.isAlphanumeric d || d == '_') = false → c ≠ d := by
    rintro d hd rfl
    rw [hname] at hd
    cases hd
  unfold isHarmless
  rw [Bool.and_eq_true, Bool.and_eq_true, bne_iff_ne, bne_iff_ne, bne_iff_ne]
  exact ⟨⟨hne '\'' (by decide), hne '\\' (by decide)⟩, hne '\x7d' (by decide)⟩

theorem harmless_repr (n : Nat) : Harmless (toString n) := by
  intro c hc
  have hdigits : (toString n).toList = Nat.toDigits 10 n := String.toList_ofList
  rw [hdigits] at hc
  have hdigit := Nat.isDigit_of_mem_toDigits (by decide) (by decide) hc
  unfold isHarmless
  rw [Bool.and_eq_true, Bool.and_eq_true, bne_iff_ne, bne_iff_ne, bne_iff_ne]
  refine ⟨⟨?_, ?_⟩, ?_⟩ <;> (rintro rfl; exact absurd hdigit (by decide))

namespace Text

/-! ## Lower case -/

/-- A character is harmless if its code point lies above those that are not. -/
theorem isHarmless_ofNat {n : Nat} (h : 125 < n) : isHarmless (Char.ofNat n) = true := by
  unfold isHarmless
  rw [Bool.and_eq_true, Bool.and_eq_true, bne_iff_ne, bne_iff_ne, bne_iff_ne]
  have hcode : (Char.ofNat n).toNat = n ∨ (Char.ofNat n).toNat = 0 := by
    by_cases hvalid : n.isValidChar
    · have heq : Char.ofNat n = Char.ofNatAux n hvalid := dif_pos hvalid
      rw [heq]
      exact .inl rfl
    · have heq : Char.ofNat n = Char.ofNat 0 := dif_neg hvalid
      rw [heq]
      exact .inr rfl
  have hne : ∀ d : Char, 0 < d.toNat → d.toNat ≤ 125 → Char.ofNat n ≠ d := by
    intro d hpos hle heq
    rw [heq] at hcode
    omega
  exact ⟨⟨hne _ (by decide) (by decide), hne _ (by decide) (by decide)⟩,
    hne _ (by decide) (by decide)⟩

theorem exists_of_mappedBy {runs : List CaseRun} {n m : Nat} (h : mappedBy runs n = some m) :
    ∃ r ∈ runs, r.first ≤ n ∧ n ≤ r.last ∧ m = r.target + (n - r.first) := by
  induction runs with
  | nil => cases h
  | cons r rest ih =>
    rw [mappedBy] at h
    split at h
    · rename_i hin
      rw [Bool.and_eq_true, Bool.and_eq_true, decide_eq_true_eq, decide_eq_true_eq] at hin
      cases h
      exact ⟨r, List.mem_cons_self, hin.1.1, hin.1.2, rfl⟩
    · obtain ⟨q, hq, hrest⟩ := ih h
      exact ⟨q, List.mem_cons_of_mem _ hq, hrest⟩

/-- Every run of small letters lies above the signs, but for the `k` of the Kelvin sign. -/
theorem lowerRuns_above :
    ∀ r ∈ lowerRuns, 125 < r.target ∨ (r.first = r.last ∧ r.target = 107) := by
  decide +kernel

theorem isHarmless_mappedBy {n m : Nat} (h : mappedBy lowerRuns n = some m) :
    isHarmless (Char.ofNat m) = true := by
  obtain ⟨r, hr, hfirst, hlast, rfl⟩ := exists_of_mappedBy h
  rcases lowerRuns_above r hr with habove | ⟨hone, hk⟩
  · exact isHarmless_ofNat (by omega)
  · rw [show r.target + (n - r.first) = 107 by omega]
    decide

theorem isHarmless_lowerChar {c d : Char} (hc : isHarmless c = true) (hd : d ∈ lowerChar c) :
    isHarmless d = true := by
  unfold lowerChar at hd
  split at hd
  · rename_i hlt
    have hascii : ∀ n < 128, isHarmless (Char.ofNat n) = true →
        isHarmless (Char.ofNat n).toLower = true := by
      decide
    have hlower := hascii c.toNat hlt
    rw [Char.ofNat_toNat] at hlower
    rw [List.mem_singleton.mp hd]
    exact hlower hc
  split at hd
  · rcases List.mem_cons.mp hd with rfl | hd
    · decide
    · rw [List.mem_singleton.mp hd]
      decide
  · rw [List.mem_singleton.mp hd]
    cases hm : mappedBy lowerRuns c.toNat with
    | none => exact hc
    | some m => exact isHarmless_mappedBy hm

theorem isHarmless_lowerFrom {s : List Char} (before : List Char)
    (hs : ∀ c ∈ s, isHarmless c = true) : ∀ c ∈ lowerFrom before s, isHarmless c = true := by
  induction s generalizing before with
  | nil => exact fun c hc => absurd hc List.not_mem_nil
  | cons d rest ih =>
    intro c hc
    rw [lowerFrom] at hc
    rcases List.mem_append.mp hc with hc | hc
    · split at hc
      · split at hc
        · rw [List.mem_singleton.mp hc]
          decide
        · rw [List.mem_singleton.mp hc]
          decide
      · exact isHarmless_lowerChar (hs d List.mem_cons_self) hc
    · exact ih (d :: before) (fun e he => hs e (List.mem_cons_of_mem _ he)) c hc

end Text

namespace Naming

open Text

/-! ## Words -/

theorem mem_joinFirst {cluster : List Char} {words : List (List Char)} {w : List Char}
    (h : w ∈ joinFirst cluster words) {c : Char} (hc : c ∈ w) :
    c ∈ cluster ∨ ∃ v ∈ words, c ∈ v := by
  cases words with
  | nil =>
    rw [joinFirst, List.mem_singleton] at h
    exact .inl (h ▸ hc)
  | cons v rest =>
    rw [joinFirst] at h
    rcases List.mem_cons.mp h with rfl | h
    · rcases List.mem_append.mp hc with hc | hc
      · exact .inl hc
      · exact .inr ⟨v, List.mem_cons_self, hc⟩
    · exact .inr ⟨w, List.mem_cons_of_mem _ h, hc⟩

/-- The characters of words are those of the clusters. -/
theorem mem_wordsOfClusters {cs : List (List Char)} {w : List Char} (h : w ∈ wordsOfClusters cs)
    {c : Char} (hc : c ∈ w) : c ∈ cs.flatten := by
  induction cs generalizing w with
  | nil =>
    rw [wordsOfClusters, List.mem_singleton] at h
    subst h
    exact absurd hc List.not_mem_nil
  | cons d rest ih =>
    have hjoin : ∀ v ∈ joinFirst d (wordsOfClusters rest), c ∈ v → c ∈ (d :: rest).flatten := by
      intro v hv hcv
      rw [List.flatten_cons, List.mem_append]
      rcases mem_joinFirst hv hcv with hd | ⟨u, hu, hcu⟩
      · exact .inl hd
      · exact .inr (ih hu hcu)
    have hapart : ∀ v, v ∈ wordsOfClusters rest → c ∈ v → c ∈ (d :: rest).flatten := by
      intro v hv hcv
      rw [List.flatten_cons, List.mem_append]
      exact .inr (ih hv hcv)
    rw [wordsOfClusters.eq_def] at h
    dsimp only at h
    split at h
    · rcases List.mem_cons.mp h with rfl | h
      · exact absurd hc List.not_mem_nil
      · exact hapart w h hc
    · split at h
      · exact hjoin w h hc
      · split at h
        · rcases List.mem_cons.mp h with rfl | h
          · rw [List.flatten_cons, List.mem_append]
            exact .inl hc
          · exact hapart w h hc
        · exact hjoin w h hc

theorem mem_words {name : String} {w : List Char} (h : w ∈ words name) {c : Char} (hc : c ∈ w) :
    c ∈ name.toList := by
  have hmem := mem_wordsOfClusters h hc
  rwa [clusters_flatten] at hmem

theorem mem_intercalate {α : Type} {sep : List α} {parts : List (List α)} {a : α}
    (h : a ∈ sep.intercalate parts) : a ∈ sep ∨ ∃ p ∈ parts, a ∈ p := by
  induction parts with
  | nil => exact absurd h List.not_mem_nil
  | cons p rest ih =>
    cases rest with
    | nil =>
      rw [List.intercalate_singleton] at h
      exact .inr ⟨p, List.mem_cons_self, h⟩
    | cons q rest =>
      rw [List.intercalate_cons_cons, List.mem_append, List.mem_append] at h
      rcases h with (h | h) | h
      · exact .inr ⟨p, List.mem_cons_self, h⟩
      · exact .inl h
      · rcases ih h with hs | ⟨r, hr, ha⟩
        · exact .inl hs
        · exact .inr ⟨r, List.mem_cons_of_mem _ hr, ha⟩

/-- Snake case brings in no sign but the underscore. -/
theorem harmless_snake {name : String} (h : Harmless name) : Harmless (snake name) := by
  intro c hc
  unfold snake at hc
  rw [String.toList_ofList] at hc
  rcases mem_intercalate hc with hc | ⟨p, hp, hc⟩
  · rw [List.mem_singleton.mp hc]
    decide
  · obtain ⟨w, hw, rfl⟩ := List.mem_map.mp hp
    exact isHarmless_lowerFrom [] (fun d hd => h d (mem_words hw hd)) c hc

/-! ## Plurals -/

theorem mem_pluralOf {word : List Char} {c : Char} (h : c ∈ pluralOf word) :
    c ∈ word ∨ c ∈ ['i', 'e', 's'] := by
  unfold pluralOf at h
  split at h
  · rcases List.mem_append.mp h with h | h
    · exact .inl h
    · exact .inr (List.mem_cons_of_mem _ h)
  · split at h
    · rename_i stem hstem
      rw [dropSuffix?_eq_some_iff] at hstem
      split at h
      · rcases List.mem_append.mp h with h | h
        · exact .inl h
        · exact .inr (List.mem_cons_of_mem _ (List.mem_cons_of_mem _ h))
      · rcases List.mem_append.mp h with h | h
        · exact .inl (hstem ▸ List.mem_append_left _ h)
        · exact .inr h
    · rcases List.mem_append.mp h with h | h
      · exact .inl h
      · exact .inr (List.mem_cons_of_mem _ (List.mem_cons_of_mem _ h))

theorem harmless_pluralize {word : String} (h : Harmless word) : Harmless (pluralize word) := by
  intro c hc
  unfold pluralize at hc
  rw [String.toList_ofList] at hc
  rcases mem_pluralOf hc with hc | hc
  · exact h c hc
  · have hall : ['i', 'e', 's'].all isHarmless = true := by decide
    exact List.all_eq_true.mp hall c hc

theorem harmless_tableName {cls : String} (h : Harmless cls) : Harmless (tableName cls) :=
  harmless_pluralize (harmless_snake h)

theorem harmless_junctionTable {a b : String} (ha : Harmless a) (hb : Harmless b) :
    Harmless (junctionTable a b) := by
  have hdash : Harmless "_" := by decide
  unfold junctionTable
  split
  · exact ((harmless_snake ha).append hdash).append (harmless_snake hb)
  · exact ((harmless_snake hb).append hdash).append (harmless_snake ha)

end Naming

end SchemaBridge
