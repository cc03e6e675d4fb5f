/-
  What is left out, and nothing else. A gap is a row of pieces of trivia, each of them whole; only
  behind the last token may a comment be left open, and then it goes on to the end of the text.
  What the reader passes over is a gap, and it stops where neither a piece of trivia begins nor a
  comment that is left open: a text is bare there.
  Main results: `bare_iff`, `exists_gap`, `Gap.skipTrivia_append` and `LastGap.skipTrivia_eq`.
-/
import SchemaBridge.Proofs.Statement.Trivia

namespace SchemaBridge.Statement

open Text

/-- Pieces of trivia, any number of them. -/
inductive Gap : List Char → Prop
  | nil : Gap []
  | piece {s t : List Char} (h : Trivium s) (ht : Gap t) : Gap (s ++ t)

/-- A comment that the text ends in. -/
inductive OpenComment : List Char → Prop
  | slashes {comment : List Char} (h : '\n' ∉ comment) : OpenComment ('/' :: '/' :: comment)
  | hash {comment : List Char} (h : '\n' ∉ comment) : OpenComment ('#' :: comment)
  | block {comment : List Char} (h : ¬ ['*', '/'] <:+: comment) :
      OpenComment ('/' :: '*' :: comment)

/-- What stands behind the last token. -/
inductive LastGap : List Char → Prop
  | closed {s : List Char} (h : Gap s) : LastGap s
  | opened {s t : List Char} (h : Gap s) (ht : OpenComment t) : LastGap (s ++ t)

/-- Nothing begins here that is left out. -/
structure Bare (s : List Char) : Prop where
  trivium : ∀ piece, Trivium piece → ¬ piece <+: s
  comment : ¬ OpenComment s

variable {quote : Char} {s t rest : List Char} {depth : Nat}

/-! ## Comments -/

theorem afterLine_cases (s : List Char) :
    (∃ comment, '\n' ∉ comment ∧ s = comment ++ '\n' :: afterLine s) ∨
      ('\n' ∉ s ∧ afterLine s = []) := by
  fun_induction afterLine s with
  | case1 => exact .inr ⟨List.not_mem_nil, rfl⟩
  | case2 rest => exact .inl ⟨[], List.not_mem_nil, rfl⟩
  | case3 c rest hc ih =>
    rcases ih with ⟨comment, hcomment, hrest⟩ | ⟨hnone, hnil⟩
    · refine .inl ⟨c :: comment, ?_, by rw [List.cons_append, ← hrest]⟩
      exact List.not_mem_cons_of_ne_of_not_mem (Ne.symm hc) hcomment
    · exact .inr ⟨List.not_mem_cons_of_ne_of_not_mem (Ne.symm hc) hnone, hnil⟩

/-- A mark that does not stand at the head of a text stands in it if it does in what follows. -/
theorem not_infix_cons {c : Char} (hhead : ∀ rest, c = '*' → s = '/' :: rest → False)
    (h : ¬ ['*', '/'] <:+: s) : ¬ ['*', '/'] <:+: c :: s := by
  rw [List.infix_cons_iff, not_or]
  refine ⟨?_, h⟩
  rintro ⟨rest, hrest⟩
  obtain ⟨hc, hs⟩ := List.cons.inj hrest
  exact hhead rest hc.symm hs.symm

theorem afterBlock_cases (s : List Char) :
    (∃ comment, ¬ ['*', '/'] <:+: comment ∧ s = comment ++ '*' :: '/' :: afterBlock s) ∨
      (¬ ['*', '/'] <:+: s ∧ afterBlock s = []) := by
  fun_induction afterBlock s with
  | case1 rest => exact .inl ⟨[], by simp, rfl⟩
  | case2 c rest hhead ih =>
    rcases ih with ⟨comment, hcomment, hrest⟩ | ⟨hnone, hnil⟩
    · refine .inl ⟨c :: comment, not_infix_cons ?_ hcomment, by rw [List.cons_append, ← hrest]⟩
      rintro more hc rfl
      exact hhead _ hc hrest
    · exact .inr ⟨not_infix_cons hhead hnone, hnil⟩
  | case3 => exact .inr ⟨by simp, rfl⟩

theorem afterLine_eq_nil (h : '\n' ∉ s) : afterLine s = [] := by
  rcases afterLine_cases s with ⟨comment, -, hs⟩ | ⟨-, hnil⟩
  · rw [hs] at h
    exact absurd (List.mem_append_right _ List.mem_cons_self) h
  · exact hnil

theorem afterBlock_eq_nil (h : ¬ ['*', '/'] <:+: s) : afterBlock s = [] := by
  rcases afterBlock_cases s with ⟨comment, -, hs⟩ | ⟨-, hnil⟩
  · exact absurd ⟨comment, afterBlock s, by rw [List.append_assoc]; exact hs.symm⟩ h
  · exact hnil

/-! ## Arguments -/

/-- Among arguments a text in quotes is passed over as it is read elsewhere. -/
theorem afterCall_inside (hquote : quote ≠ '\\') (depth : Nat) (s : List Char) :
    afterCall depth (.inside quote) s =
      (readQuoted quote s).bind fun p => afterCall depth .plain p.2 := by
  fun_induction readQuoted quote s with
  | case1 => rfl
  | case2 c rest ih =>
    rw [afterCall, if_pos rfl, afterCall, ih]
    cases readQuoted quote rest <;> rfl
  | case3 rest => rw [afterCall, if_neg hquote, if_pos rfl]; rfl
  | case4 c rest hescape hc ih =>
    by_cases hback : c = '\\'
    · -- a backslash at the end of the text
      subst hback
      cases rest with
      | nil => rfl
      | cons d rest => exact (hescape d rest rfl rfl).elim
    · rw [afterCall, if_neg hback, if_neg hc, ih]
      cases readQuoted quote rest <;> rfl

/-- Arguments are passed over up to a parenthesis that closes them, with all their own parentheses
and quotes. -/
theorem balanced_of_afterCall (h : afterCall depth .plain s = some t) :
    ∃ arguments rest, Balanced arguments ∧ s = arguments ++ ')' :: rest ∧
      afterCall depth .plain (')' :: rest) = some t := by
  -- The rest behind a quoted text or a nested call is shorter, but is no tail of the text.
  induction hlength : s.length using Nat.strong_induction_on generalizing s depth with
  | h n ih =>
    subst hlength
    cases s with
    | nil => cases h
    | cons c s =>
      by_cases hquote : c = '\'' ∨ c = '"'
      · rw [afterCall_quote hquote, afterCall_inside (not_escape_of_quote hquote)] at h
        obtain ⟨⟨contents, more⟩, hquoted, hmore⟩ := Option.bind_eq_some_iff.mp h
        obtain ⟨written, hwritten, rfl⟩ := escapes_of_readQuoted hquoted
        have hshorter : more.length < (c :: (written ++ c :: more)).length := by simp; omega
        obtain ⟨arguments, rest, harguments, rfl, hrest⟩ := ih more.length hshorter hmore rfl
        exact ⟨_, rest, .quoted hquote hwritten harguments, by simp, hrest⟩
      by_cases hopen : c = '('
      · subst hopen
        have hnested : afterCall (depth + 1) .plain s = some t := h
        obtain ⟨inner, more, hinner, rfl, hclosed⟩ := ih s.length (by simp) hnested rfl
        have hmore : afterCall depth .plain more = some t := hclosed
        have hshorter : more.length < ('(' :: (inner ++ ')' :: more)).length := by simp; omega
        obtain ⟨arguments, rest, harguments, rfl, hrest⟩ := ih more.length hshorter hmore rfl
        exact ⟨_, rest, .nested hinner harguments, by simp, hrest⟩
      by_cases hclose : c = ')'
      · subst hclose
        exact ⟨[], s, .nil, rfl, h⟩
      · have hc : c ∉ ['(', ')', '\'', '"'] := by
          simp only [List.mem_cons, List.not_mem_nil, or_false, not_or] at hquote ⊢
          exact ⟨hopen, hclose, hquote⟩
        rw [afterCall_char hc] at h
        obtain ⟨arguments, rest, harguments, rfl, hrest⟩ := ih s.length (by simp) h rfl
        exact ⟨c :: arguments, rest, .char hc harguments, rfl, hrest⟩

theorem trivium_of_afterIgnored? (h : afterIgnored? s = some t) :
    ∃ call, Trivium ('-' :: '>' :: call) ∧ s = call ++ t := by
  unfold afterIgnored? at h
  split at h
  · rename_i hname
    split at h
    · rename_i more hopen
      obtain ⟨arguments, rest, harguments, rfl, hrest⟩ := balanced_of_afterCall h
      cases hrest
      have hblanks : ∀ c ∈ (s.dropWhile isNameChar).takeWhile isWhiteSpace, isWhiteSpace c = true :=
        fun c hc => List.mem_takeWhile_imp hc
      refine ⟨_, .call hname hblanks harguments, ?_⟩
      calc
        s = s.takeWhile isNameChar ++ ((s.dropWhile isNameChar).takeWhile isWhiteSpace ++
            (s.dropWhile isNameChar).dropWhile isWhiteSpace) := by
          rw [List.takeWhile_append_dropWhile, List.takeWhile_append_dropWhile]
        _ = _ := by
          rw [hopen]
          simp
    · cases h
  · cases h

/-! ## One piece -/

/-- What is passed over in one go is a piece of trivia, or else a comment that the text ends in. -/
theorem trivium_of_afterTrivia? (h : afterTrivia? s = some t) :
    (∃ piece, Trivium piece ∧ s = piece ++ t) ∨ (OpenComment s ∧ t = []) := by
  unfold afterTrivia? at h
  split at h
  · rename_i rest
    cases h
    rcases afterLine_cases rest with ⟨comment, hcomment, hrest⟩ | ⟨hnone, hnil⟩
    · refine .inl ⟨_, .slashes hcomment, ?_⟩
      simpa using hrest
    · exact .inr ⟨.slashes hnone, hnil⟩
  · rename_i rest
    cases h
    rcases afterBlock_cases rest with ⟨comment, hcomment, hrest⟩ | ⟨hnone, hnil⟩
    · refine .inl ⟨_, .block hcomment, ?_⟩
      simpa using hrest
    · exact .inr ⟨.block hnone, hnil⟩
  · rename_i rest
    cases h
    rcases afterLine_cases rest with ⟨comment, hcomment, hrest⟩ | ⟨hnone, hnil⟩
    · refine .inl ⟨_, .hash hcomment, ?_⟩
      simpa using hrest
    · exact .inr ⟨.hash hnone, hnil⟩
  · obtain ⟨call, hcall, rfl⟩ := trivium_of_afterIgnored? h
    exact .inl ⟨_, hcall, rfl⟩
  · rename_i c rest _ _ _ _
    split at h
    · rename_i hblank
      cases h
      exact .inl ⟨[c], .blank hblank, rfl⟩
    · cases h
  · cases h

theorem OpenComment.afterTrivia?_eq (h : OpenComment s) : afterTrivia? s = some [] := by
  cases h with
  | slashes h | hash h => exact congrArg some (afterLine_eq_nil h)
  | block h => exact congrArg some (afterBlock_eq_nil h)

theorem bare_iff : Bare s ↔ afterTrivia? s = none := by
  constructor
  · intro h
    rw [Option.eq_none_iff_forall_ne_some]
    intro t ht
    rcases trivium_of_afterTrivia? ht with ⟨piece, hpiece, rfl⟩ | ⟨hcomment, -⟩
    · exact h.trivium piece hpiece (List.prefix_append _ _)
    · exact h.comment hcomment
  · intro h
    refine ⟨?_, fun hcomment => ?_⟩
    · rintro piece hpiece ⟨rest, rfl⟩
      rw [hpiece.afterTrivia?_append] at h
      cases h
    · rw [hcomment.afterTrivia?_eq] at h
      cases h

/-! ## Whole gaps -/

theorem LastGap.piece (h : Trivium s) (ht : LastGap t) : LastGap (s ++ t) := by
  cases ht with
  | closed ht => exact .closed (.piece h ht)
  | opened ht hcomment =>
    rw [← List.append_assoc]
    exact .opened (.piece h ht) hcomment

/-- What is passed over before a token is a gap. At the end of the text it may end in a comment. -/
theorem exists_gap (s : List Char) : ∃ gap, s = gap ++ skipTrivia s ∧
    (Gap gap ∨ skipTrivia s = [] ∧ LastGap gap) := by
  fun_induction skipTrivia s with
  | case1 s hbare => exact ⟨[], rfl, .inl .nil⟩
  | case2 s rest hskip ih =>
    obtain ⟨gap, hrest, hgap⟩ := ih
    rcases trivium_of_afterTrivia? hskip with ⟨piece, hpiece, rfl⟩ | ⟨hcomment, rfl⟩
    · refine ⟨piece ++ gap, by rw [List.append_assoc, ← hrest], ?_⟩
      exact hgap.imp (.piece hpiece) (.imp_right (.piece hpiece))
    · have hend : skipTrivia [] = [] := skipTrivia_of_none rfl
      refine ⟨s, by rw [hend, List.append_nil], .inr ⟨hend, ?_⟩⟩
      exact .opened .nil hcomment

theorem exists_gap_cons {c : Char} (hs : skipTrivia s = c :: rest) :
    ∃ gap, s = gap ++ c :: rest ∧ Gap gap ∧ Bare (c :: rest) := by
  obtain ⟨gap, hgap, hlast⟩ := exists_gap s
  rw [hs] at hgap hlast
  have hbare : afterTrivia? (c :: rest) = none := hs ▸ afterTrivia?_skipTrivia s
  exact ⟨gap, hgap, hlast.resolve_right fun hnil => List.cons_ne_nil _ _ hnil.1, bare_iff.mpr hbare⟩

/-- A gap is passed over whole, up to where the text is bare. -/
theorem Gap.skipTrivia_append (h : Gap s) (hrest : Bare rest) : skipTrivia (s ++ rest) = rest := by
  induction h with
  | nil => exact skipTrivia_of_none (bare_iff.mp hrest)
  | piece h _ ih => rw [List.append_assoc, skipTrivia_of_some (h.afterTrivia?_append _), ih]

theorem bare_nil : Bare [] :=
  bare_iff.mpr rfl

theorem LastGap.skipTrivia_eq (h : LastGap s) : skipTrivia s = [] := by
  cases h with
  | closed h =>
    rw [← List.append_nil s]
    exact h.skipTrivia_append bare_nil
  | opened h hcomment =>
    induction h with
    | nil =>
      rw [List.nil_append, skipTrivia_of_some hcomment.afterTrivia?_eq]
      exact skipTrivia_of_none rfl
    | piece h _ ih => rw [List.append_assoc, skipTrivia_of_some (h.afterTrivia?_append _), ih]

end SchemaBridge.Statement
