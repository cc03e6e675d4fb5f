/-
  Where a statement ends in the text of a migration. It is found by a mark, `\x7d);` or `;`, that is
  searched for as mere characters, while the statement is read token by token. The two agree just
  when the mark stands nowhere but at the end. They do if the signs of the mark stand together at the
  end and the mark begins in nothing that its author is free to write: no text in quotes, no comment
  and no call that is left out.
  Main result: `definition_iff`.
-/
import SchemaBridge.Proofs.Statement.Acceptance
import SchemaBridge.Proofs.Statement.Layout
import SchemaBridge.Proofs.Statement.Search

namespace SchemaBridge.Statement

/-! ## The end of a statement -/

/-- The letters of a regular expression. -/
def letters {α : Type} : RegularExpression α → List α
  | .zero => []
  | .epsilon => []
  | .char a => [a]
  | .plus p q => letters p ++ letters q
  | .comp p q => letters p ++ letters q
  | .star p => letters p

theorem mem_letters {α : Type} {r : RegularExpression α} {w : List α} (h : w ∈ r.matches') :
    ∀ a ∈ w, a ∈ letters r := by
  induction r generalizing w with
  | zero => cases h
  | epsilon =>
    cases h
    exact fun a ha => ha
  | char b =>
    cases h
    exact fun a ha => ha
  | plus p q ihp ihq =>
    intro a ha
    rcases h with h | h
    · exact List.mem_append_left _ (ihp h a ha)
    · exact List.mem_append_right _ (ihq h a ha)
  | comp p q ihp ihq =>
    obtain ⟨u, hu, v, hv, rfl⟩ := h
    intro a ha
    rcases List.mem_append.mp ha with ha | ha
    · exact List.mem_append_left _ (ihp hu a ha)
    · exact List.mem_append_right _ (ihq hv a ha)
  | star p ih =>
    obtain ⟨ws, rfl, hws⟩ := h
    intro a ha
    obtain ⟨u, hu, hau⟩ := List.mem_flatten.mp ha
    exact ih (hws u hu) a hau

theorem eq_of_mem_spelled {kinds w : List Kind} (h : w ∈ (Form.spelled kinds).matches') :
    w = kinds := by
  induction kinds generalizing w with
  | nil =>
    cases h
    rfl
  | cons k kinds ih =>
    rw [matches_spelled_cons] at h
    obtain ⟨u, hu, v, hv, rfl⟩ := h
    cases hu
    rw [ih hv]
    rfl

/-- A statement is closed at its end and nowhere before. Its closing signs tell whether it drops a
table. -/
theorem closes_of_mem_language {kinds : List Kind} (h : kinds ∈ language) :
    (∃ front, kinds = front ++ [.closeBrace, .closeParen, .semicolon] ∧ .closeBrace ∉ front ∧
        .drop ∉ kinds) ∨
      ∃ front, kinds = front ++ [.semicolon] ∧ .semicolon ∉ front ∧ .closeBrace ∉ kinds := by
  rcases h with h | h
  · obtain ⟨front, hfront, closing, hclosing, rfl⟩ := h
    have hletters := mem_letters hfront
    rw [eq_of_mem_spelled hclosing]
    refine .inl ⟨front, rfl, fun hmem => absurd (hletters _ hmem) (by decide), fun hmem => ?_⟩
    rcases List.mem_append.mp hmem with hmem | hmem
    · exact absurd (hletters _ hmem) (by decide)
    · exact absurd hmem (by decide)
  · rw [eq_of_mem_spelled h]
    exact .inr ⟨[.facade, .doubleColon, .drop, .openParen, .text, .closeParen], rfl, by decide,
      by decide⟩

/-- What stands in the stretch is up to its author: it is left out, or it is a text in quotes. -/
def Stretch.isFree : Stretch → Bool
  | gap _ => true
  | token kind _ => kind == .text

/-- The mark begins in no stretch that is up to its author. -/
def hides (mark : List Char) : List Stretch → Bool
  | [] => true
  | p :: rest =>
    !(p.isFree && beginsIn mark p.text (rest.flatMap Stretch.text)) && hides mark rest

/-- The signs of the mark, each a token. -/
def closing (mark : List Char) : List Stretch :=
  mark.filterMap fun c => (Kind.ofSign? c).map (.token · [c])

/-- The end of a statement shows in its text: the signs that close it stand together, with nothing
behind them, and their mark begins in nothing that is up to the author. If the text begins like one
that drops a table, it does. -/
structure ShowsEnd (s : List Char) : Prop where
  together : closing (endMark s) <:+ layout s
  hidden : hides (endMark s) (layout s) = true
  drops : dropHead.isPrefixOf s = true → .drop ∈ (layout s).filterMap Stretch.kind?

instance (s : List Char) : Decidable (ShowsEnd s) :=
  decidable_of_iff (closing (endMark s) <:+ layout s ∧ hides (endMark s) (layout s) = true ∧
      (dropHead.isPrefixOf s = true → .drop ∈ (layout s).filterMap Stretch.kind?))
    ⟨fun ⟨htogether, hhidden, hdrops⟩ => ⟨htogether, hhidden, hdrops⟩,
      fun h => ⟨h.together, h.hidden, h.drops⟩⟩

/-- A mark that begins neither in what is up to the author nor with a token begins nowhere. -/
theorem beginsIn_eq_false_of_hides {d : Char} {more : List Char} {front rest : List Stretch}
    (hhides : hides (d :: more) (front ++ rest) = true)
    (hfront : ∀ p ∈ front, p.isFree = false → d ∉ p.text) :
    beginsIn (d :: more) (front.flatMap Stretch.text) (rest.flatMap Stretch.text) = false := by
  induction front with
  | nil => rfl
  | cons p front ih =>
    obtain ⟨hp, hrest⟩ := Bool.and_eq_true_iff.mp hhides
    have hnot : beginsIn (d :: more) p.text ((front ++ rest).flatMap Stretch.text) = false := by
      cases hfree : p.isFree with
      | true =>
        rw [hfree, Bool.true_and, Bool.not_eq_true'] at hp
        exact hp
      | false => exact beginsIn_of_not_mem (hfront p List.mem_cons_self hfree) _
    rw [List.flatMap_cons, beginsIn_append, ← List.flatMap_append, hnot,
      ih hrest fun q hq => hfront q (List.mem_cons_of_mem _ hq)]
    rfl

/-- Where the first sign of the mark is a token at the end only, a mark that its author hides
nowhere is at the end only. -/
theorem endsAtFirst_of_layout {s more : List Char} {d : Char} {k : Kind} {front : List Stretch}
    (hsign : Kind.ofSign? d = some k) (htext : (closing (d :: more)).flatMap Stretch.text = d :: more)
    (hlayout : layout s = front ++ closing (d :: more))
    (hhides : hides (d :: more) (layout s) = true) (hk : k ∉ front.filterMap Stretch.kind?) :
    EndsAtFirst (d :: more) s := by
  have hs := text_layout s
  rw [hlayout, List.flatMap_append, htext] at hs
  refine ⟨front.flatMap Stretch.text, hs.symm, ?_⟩
  rw [hlayout] at hhides
  have hbegins := beginsIn_eq_false_of_hides hhides ?_
  · rw [htext] at hbegins
    exact hbegins
  · intro p hp hfree hd
    cases p with
    | gap text => cases hfree
    | token kind chars =>
      have hmem : .token kind chars ∈ layout s := by
        rw [hlayout]
        exact List.mem_append_left _ hp
      have hsame := (sign_of_mem_layout hmem (ne_of_beq_false hfree) d hd k hsign).1
      exact hk (List.mem_filterMap.mpr ⟨_, hp, congrArg some hsame⟩)

/-- A statement whose end shows is found whole. -/
theorem ShowsEnd.endsAtFirst {s : List Char} (h : ShowsEnd s)
    (hlanguage : (layout s).filterMap Stretch.kind? ∈ language) : EndsAtFirst (endMark s) s := by
  obtain ⟨⟨front, hlayout⟩, hhides, hdrops⟩ := h
  have hkinds : (layout s).filterMap Stretch.kind? =
      front.filterMap Stretch.kind? ++ (closing (endMark s)).filterMap Stretch.kind? := by
    rw [← hlayout, List.filterMap_append]
  unfold endMark at hlayout hhides hkinds ⊢
  by_cases hdrop : dropHead.isPrefixOf s = true
  · rw [if_pos hdrop] at hlayout hhides hkinds ⊢
    obtain ⟨other, -, -, hnone⟩ | ⟨other, heq, hother, -⟩ := closes_of_mem_language hlanguage
    · exact absurd (hdrops hdrop) hnone
    · rw [hkinds] at heq
      exact endsAtFirst_of_layout rfl rfl hlayout.symm hhides
        (List.append_cancel_right heq ▸ hother)
  · rw [if_neg hdrop] at hlayout hhides hkinds ⊢
    obtain ⟨other, heq, hother, -⟩ | ⟨other, -, -, hnone⟩ := closes_of_mem_language hlanguage
    · rw [hkinds] at heq
      exact endsAtFirst_of_layout rfl rfl hlayout.symm hhides
        (List.append_cancel_right heq ▸ hother)
    · rw [hkinds] at hnone
      exact absurd (List.mem_append_right _ (by decide)) hnone

/-! ## Statements in migrations -/

/-- A text that is read as a statement is found whole in a migration, whatever stands around it, just
when the mark of its end stands nowhere before. It is if its end shows. -/
theorem definition_iff {text : String} {statement : SchemaBridge.Statement}
    (hread : read text = .ok statement) (hbegins : beginsStatement text.toList = true)
    {before : String} (hbefore : beginsIn facade before.toList text.toList = false)
    (after : String) :
    (definition (before ++ text ++ after) = some text ↔
        EndsAtFirst (endMark text.toList) text.toList) ∧
      (ShowsEnd text.toList → definition (before ++ text ++ after) = some text) := by
  have hiff : definition (before ++ text ++ after) = some text ↔
      EndsAtFirst (endMark text.toList) text.toList := by
    rw [← definitionIn_eq_some_iff hbegins hbefore after.toList]
    unfold definition
    rw [String.toList_append, String.toList_append, List.append_assoc]
    constructor
    · intro h
      obtain ⟨found, hfound, heq⟩ := Option.map_eq_some_iff.mp h
      rw [hfound, ← heq, String.toList_ofList]
    · intro h
      rw [h, Option.map_some, String.ofList_toList]
  refine ⟨hiff, fun hshows => hiff.mpr (hshows.endsAtFirst ?_)⟩
  rcases read_cases text with ⟨-, hmem, -⟩ | ⟨e, -, hfails⟩
  · rw [kinds_layout]
    exact hmem
  · rw [hread] at hfails
    cases hfails

/-- A default in quotes that has braces in it. -/
def bracedText : String :=
  "Schema::create('a', function ($t) \x7b$t->string('b')->default('\x7b\x7d');\x7d);"

theorem definition_braced : definition ("up() \x7b " ++ bracedText ++ " \x7d") = some bracedText := by
  obtain ⟨statement, hread⟩ : ∃ statement, read bracedText = .ok statement :=
    exists_read (by decide +kernel) (by decide +kernel)
  exact (definition_iff hread (by decide +kernel) (by decide +kernel) _).2 (by decide +kernel)

/-- A default in quotes that has the mark in it. -/
def markedText : String :=
  "Schema::create('a', function ($t) \x7b$t->string('b')->default('\x7d);');\x7d);"

/-- The statement can be read, but what is found in its text is cut off in the quotes. -/
theorem definition_marked : (∃ statement, read markedText = .ok statement) ∧
    beginsStatement markedText.toList = true ∧
    definition ("" ++ markedText ++ "") =
      some "Schema::create('a', function ($t) \x7b$t->string('b')->default('\x7d);" ∧
    definition ("" ++ markedText ++ "") ≠ some markedText :=
  ⟨exists_read (by decide +kernel) (by decide +kernel), by decide +kernel, by decide +kernel,
    by decide +kernel⟩

end SchemaBridge.Statement
