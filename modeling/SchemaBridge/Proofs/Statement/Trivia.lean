/-
  What stands between tokens does not count. A separator is a row of white space, comments and
  calls without effect. A piece of one is left out whole, whatever its comment or its arguments
  hold; and it begins with no character of a word or a number, so the token before it ends where
  it should.
  Main results: `Trivium.afterTrivia?_append`, `Writes.lexes` and `tokenize_laid`.
-/
import SchemaBridge.Proofs.Diagram.Lexer

namespace SchemaBridge.Statement

open Text

/-! ## Separators -/

/-- The arguments of a call: outside of quotes the parentheses balance, and all quotes close. -/
inductive Balanced : List Char → Prop
  | nil : Balanced []
  | char {c : Char} {s : List Char} (hc : c ∉ ['(', ')', '\'', '"']) (h : Balanced s) :
      Balanced (c :: s)
  | quoted {quote : Char} {contents written s : List Char} (hquote : quote = '\'' ∨ quote = '"')
      (hwritten : Escapes quote contents written) (h : Balanced s) :
      Balanced (quote :: (written ++ quote :: s))
  | nested {s t : List Char} (hs : Balanced s) (ht : Balanced t) :
      Balanced ('(' :: (s ++ ')' :: t))

/-- One piece of trivia. -/
inductive Trivium : List Char → Prop
  | blank {c : Char} (h : isWhiteSpace c = true) : Trivium [c]
  | slashes {comment : List Char} (h : '\n' ∉ comment) : Trivium ('/' :: '/' :: (comment ++ ['\n']))
  | hash {comment : List Char} (h : '\n' ∉ comment) : Trivium ('#' :: (comment ++ ['\n']))
  | block {comment : List Char} (h : ¬ ['*', '/'] <:+: comment) :
      Trivium ('/' :: '*' :: (comment ++ ['*', '/']))
  | call {name blanks arguments : List Char} (hname : name ∈ ignoredCalls)
      (hblanks : ∀ c ∈ blanks, isWhiteSpace c = true) (harguments : Balanced arguments) :
      Trivium ('-' :: '>' :: (name ++ (blanks ++ '(' :: (arguments ++ [')']))))

/-- Pieces of trivia, one or more. -/
inductive Separator : List Char → Prop
  | last {s : List Char} (h : Trivium s) : Separator s
  | more {s t : List Char} (h : Trivium s) (hs : Separator t) : Separator (s ++ t)

/-! ## Tokens with separators between them -/

/-- How a token of this kind and text may be written. A text in quotes stands for its contents, all
others for themselves. -/
inductive Writes : Kind → List Char → List Char → Prop
  | sign {kind : Kind} {c : Char} (h : Kind.ofSign? c = some kind) : Writes kind [c] [c]
  | doubleColon : Writes .doubleColon [':', ':'] [':', ':']
  | arrow : Writes .arrow ['-', '>'] ['-', '>']
  | word {c : Char} {more : List Char} (hc : beginsWord c = true)
      (hmore : ∀ d ∈ more, isWordChar d = true) :
      Writes (.ofWord (c :: more)) (c :: more) (c :: more)
  | name {name : List Char} (hne : name ≠ []) (hname : ∀ d ∈ name, isNameChar d = true) :
      Writes .tableVar ('$' :: name) ('$' :: name)
  | number {c : Char} {more : List Char} (hc : c.isDigit = true ∨ c = '-' ∧ more ≠ [])
      (hmore : ∀ d ∈ more, isNumberChar d = true) : Writes .number (c :: more) (c :: more)
  | text {quote : Char} {contents written : List Char} (hquote : quote = '\'' ∨ quote = '"')
      (hwritten : Escapes quote contents written) :
      Writes .text contents (quote :: (written ++ [quote]))

/-- These tokens, each by its kind and text, are written with a separator before the first, between
neighbours and behind the last. -/
inductive Laid : List (Kind × String) → List Char → Prop
  | nil {separator : List Char} (h : Separator separator) : Laid [] separator
  | cons {separator text written rest : List Char} {kind : Kind} {ts : List (Kind × String)}
      (h : Separator separator) (hwritten : Writes kind text written) (hrest : Laid ts rest) :
      Laid ((kind, String.ofList text) :: ts) (separator ++ (written ++ rest))

variable {c quote : Char} {s rest : List Char} {kind : Kind}

/-! ## Leaving separators out -/

theorem afterLine_append (h : '\n' ∉ s) (rest : List Char) :
    afterLine (s ++ '\n' :: rest) = rest := by
  induction s with
  | nil => exact if_pos rfl
  | cons c more ih =>
    have hc : c ≠ '\n' := fun hc => h (hc ▸ List.mem_cons_self)
    rw [List.cons_append, afterLine, if_neg hc, ih fun hmore => h (List.mem_cons_of_mem _ hmore)]

theorem afterBlock_append (h : ¬ ['*', '/'] <:+: s) (rest : List Char) :
    afterBlock (s ++ '*' :: '/' :: rest) = rest := by
  induction s with
  | nil => rw [List.nil_append, afterBlock]
  | cons c more ih =>
    have hmore : ¬ ['*', '/'] <:+: more := fun hmore => h (List.infix_cons hmore)
    rw [List.cons_append, afterBlock, ih hmore]
    -- An end that begins with `c` would lie within the comment.
    rintro t rfl hslash
    cases more with
    | nil => cases hslash
    | cons d more =>
      obtain ⟨rfl, -⟩ := List.cons.inj hslash
      exact h (List.prefix_append ['*', '/'] more).isInfix

theorem afterCall_char (hc : c ∉ ['(', ')', '\'', '"']) (depth : Nat) (rest : List Char) :
    afterCall depth .plain (c :: rest) = afterCall depth .plain rest := by
  simp only [List.mem_cons, List.not_mem_nil, or_false, not_or] at hc
  obtain ⟨hopen, hclose, hsingle, hdouble⟩ := hc
  rw [afterCall.eq_def]
  simp [hsingle, hdouble, hopen, hclose]

theorem afterCall_quote (hquote : quote = '\'' ∨ quote = '"') (depth : Nat) (rest : List Char) :
    afterCall depth .plain (quote :: rest) = afterCall depth (.inside quote) rest := by
  rcases hquote with rfl | rfl
  all_goals rfl

/-- Arguments are passed over, whatever stands around them. -/
theorem Balanced.afterCall_append (h : Balanced s) (depth : Nat) (rest : List Char) :
    afterCall depth .plain (s ++ rest) = afterCall depth .plain rest := by
  induction h generalizing depth rest with
  | nil => rfl
  | char hc h ih => rw [List.cons_append, afterCall_char hc, ih]
  | quoted hquote hwritten h ih =>
    rw [List.cons_append, List.append_assoc, List.cons_append, afterCall_quote hquote,
      afterCall_of_escapes hwritten (not_escape_of_quote hquote), ih]
  | @nested s t hs ht ihs iht =>
    rw [List.cons_append, List.append_assoc, List.cons_append]
    calc afterCall depth .plain ('(' :: (s ++ ')' :: (t ++ rest)))
        = afterCall (depth + 1) .plain (s ++ ')' :: (t ++ rest)) := rfl
      _ = afterCall (depth + 1) .plain (')' :: (t ++ rest)) := ihs _ _
      _ = afterCall depth .plain (t ++ rest) := rfl
      _ = afterCall depth .plain rest := iht _ _

/-- No character of a word or a number. -/
def Foreign (c : Char) : Prop :=
  isWordChar c = false ∧ isNumberChar c = false

instance (c : Char) : Decidable (Foreign c) :=
  inferInstanceAs (Decidable (_ ∧ _))

theorem Foreign.not_isNameChar (h : Foreign c) : isNameChar c = false :=
  (Bool.or_eq_false_iff.mp h.1).1

theorem foreign_of_isWhiteSpace (h : isWhiteSpace c = true) : Foreign c := by
  have hcodes : ∀ n ∈ Diagram.blankCodes, Foreign (Char.ofNat n) := by decide +kernel
  have hc := hcodes c.toNat (Diagram.mem_blankCodes h)
  rwa [Char.ofNat_toNat] at hc

theorem dropWhile_blanks {blanks : List Char} (h : ∀ c ∈ blanks, isWhiteSpace c = true)
    (rest : List Char) : (blanks ++ '(' :: rest).dropWhile isWhiteSpace = '(' :: rest :=
  dropWhile_append_cons h (by decide)

/-- What follows the name of an ignored call, white space or a parenthesis, does not go on with the
name. -/
theorem takeName_append {name blanks : List Char} (hname : name ∈ ignoredCalls)
    (hblanks : ∀ c ∈ blanks, isWhiteSpace c = true) (rest : List Char) :
    (name ++ (blanks ++ '(' :: rest)).takeWhile isNameChar = name ∧
      (name ++ (blanks ++ '(' :: rest)).dropWhile isNameChar = blanks ++ '(' :: rest := by
  have hall : ∀ w ∈ ignoredCalls, isPlainWord w = true := by decide
  have hchars := isNameChar_of_isPlainWord (hall name hname)
  cases blanks with
  | nil =>
    have hparen : isNameChar '(' = false := by decide
    exact ⟨takeWhile_append_cons hchars hparen, dropWhile_append_cons hchars hparen⟩
  | cons b more =>
    have hb := (foreign_of_isWhiteSpace (hblanks b List.mem_cons_self)).not_isNameChar
    exact ⟨takeWhile_append_cons hchars hb, dropWhile_append_cons hchars hb⟩

/-- A piece of trivia is left out whole. -/
theorem Trivium.afterTrivia?_append (h : Trivium s) (rest : List Char) :
    afterTrivia? (s ++ rest) = some rest := by
  cases h with
  | @blank c h =>
    have hother : c ∉ ['/', '#', '-'] := by
      simp only [List.mem_cons, List.not_mem_nil, or_false]
      rintro (rfl | rfl | rfl)
      all_goals exact absurd h (by decide)
    rw [List.singleton_append, afterTrivia?_cons hother, if_pos h]
  | @slashes comment h | @hash comment h =>
    show some (afterLine ((comment ++ ['\n']) ++ rest)) = some rest
    rw [List.append_assoc, List.singleton_append, afterLine_append h]
  | @block comment h =>
    show some (afterBlock ((comment ++ ['*', '/']) ++ rest)) = some rest
    rw [List.append_assoc]
    exact congrArg some (afterBlock_append h rest)
  | @call name blanks arguments hname hblanks harguments =>
    show afterIgnored? ((name ++ (blanks ++ '(' :: (arguments ++ [')']))) ++ rest) = some rest
    have hassoc : (name ++ (blanks ++ '(' :: (arguments ++ [')']))) ++ rest =
        name ++ (blanks ++ '(' :: (arguments ++ ')' :: rest)) := by simp
    obtain ⟨htake, hdrop⟩ := takeName_append hname hblanks (arguments ++ ')' :: rest)
    unfold afterIgnored?
    rw [hassoc, htake, hdrop, if_pos hname, dropWhile_blanks hblanks]
    exact harguments.afterCall_append 0 (')' :: rest)

theorem Separator.lexes (h : Separator s) {ts : List (Token Kind)} (hrest : Lexes rest ts) :
    Lexes (s ++ rest) ts := by
  induction h with
  | last h => exact hrest.trivia (h.afterTrivia?_append rest)
  | more h _ ih =>
    rw [List.append_assoc]
    exact ih.trivia (h.afterTrivia?_append _)

/-- The text goes on with no character of a word or a number. -/
def SetApart (s : List Char) : Prop :=
  ∃ c rest, s = c :: rest ∧ Foreign c

theorem SetApart.append (h : SetApart s) (rest : List Char) : SetApart (s ++ rest) := by
  obtain ⟨c, more, rfl, hc⟩ := h
  exact ⟨c, more ++ rest, rfl, hc⟩

theorem Trivium.setApart (h : Trivium s) : SetApart s := by
  cases h with
  | blank h => exact ⟨_, _, rfl, foreign_of_isWhiteSpace h⟩
  | slashes | hash | block | call => exact ⟨_, _, rfl, by decide⟩

theorem Separator.setApart (h : Separator s) : SetApart s := by
  cases h with
  | last h => exact h.setApart
  | more h _ => exact h.setApart.append _

/-! ## Reading tokens -/

theorem opensWord_of_beginsWord (h : beginsWord c = true) : OpensWord c := by
  by_cases hlt : c.toNat < 128
  · exact opensWord_of_lt h hlt
  -- From here on only white space could be taken for something else.
  have hne : ∀ d : Char, d.toNat < 128 → c ≠ d := by
    rintro d hd rfl
    exact hlt hd
  refine ⟨?_, ?_, ?_, ?_, h⟩
  · unfold Kind.ofSign?
    split
    case h_9 => rfl
    all_goals exact absurd rfl (hne _ (by decide))
  · simp only [List.mem_cons, List.not_mem_nil, or_false]
    rintro (rfl | rfl | rfl | rfl | rfl | rfl | rfl)
    all_goals exact hne _ (by decide) rfl
  · by_contra hdigit
    refine hlt (toNat_lt_of_isAlphanum ?_)
    unfold Char.isAlphanum
    rw [Bool.of_not_eq_false hdigit, Bool.or_true]
  · have hcodes : ∀ n ∈ Diagram.blankCodes, beginsWord (Char.ofNat n) = false := by decide +kernel
    by_contra hblank
    have hc := hcodes c.toNat (Diagram.mem_blankCodes (Bool.of_not_eq_false hblank))
    rw [Char.ofNat_toNat, h] at hc
    cases hc

theorem number_spec (h : c.isDigit = true ∨ c = '-') : Kind.ofSign? c = none ∧
    c ∉ [':', '\'', '"', '$', '/', '#'] ∧ isWhiteSpace c = false := by
  have hall : ∀ n < 128, (Char.ofNat n).isDigit = true ∨ Char.ofNat n = '-' →
      Kind.ofSign? (Char.ofNat n) = none ∧
        Char.ofNat n ∉ [':', '\'', '"', '$', '/', '#'] ∧ isWhiteSpace (Char.ofNat n) = false := by
    decide
  have hlt : c.toNat < 128 := by
    rcases h with h | rfl
    · apply toNat_lt_of_isAlphanum
      unfold Char.isAlphanum
      rw [h, Bool.or_true]
    · decide
  have hspec := hall c.toNat hlt
  rw [Char.ofNat_toNat] at hspec
  exact hspec h

/-- A digit begins a number; so does a minus, unless it is part of an arrow. -/
theorem readToken_number (hc : c.isDigit = true ∨ c = '-') (hs : c = '-' → s.head? ≠ some '>') :
    readToken c s = readNumber c s := by
  obtain ⟨hsign, hother, -⟩ := number_spec hc
  simp only [List.mem_cons, List.not_mem_nil, or_false, not_or] at hother
  obtain ⟨hcolon, hsingle, hdouble, hdollar, -⟩ := hother
  unfold readToken
  rw [hsign]
  dsimp only
  unfold readLonger
  split
  · exact absurd rfl hcolon
  · exact absurd rfl (hs rfl)
  · rw [if_neg (not_or.mpr ⟨hsingle, hdouble⟩), if_neg hdollar, if_pos hc]

theorem afterTrivia?_number (hc : c.isDigit = true ∨ c = '-') (hs : c = '-' → s.head? ≠ some '>') :
    afterTrivia? (c :: s) = none := by
  obtain ⟨-, hother, hblank⟩ := number_spec hc
  unfold afterTrivia?
  split
  all_goals rename_i heq
  all_goals cases heq
  · exact absurd (by decide) hother
  · exact absurd (by decide) hother
  · exact absurd (by decide) hother
  · exact absurd rfl (hs rfl)
  · rw [hblank]
    rfl

/-- The minus of a number is no part of an arrow. -/
theorem not_arrow_of_number {more : List Char} (hc : c.isDigit = true ∨ c = '-' ∧ more ≠ [])
    (hmore : ∀ d ∈ more, isNumberChar d = true) (rest : List Char) :
    c = '-' → (more ++ rest).head? ≠ some '>' := by
  rintro rfl
  obtain ⟨-, hne⟩ := hc.resolve_left (by decide)
  obtain ⟨d, more, rfl⟩ := List.exists_cons_of_ne_nil hne
  rintro ⟨⟩
  exact absurd (hmore '>' List.mem_cons_self) (by decide)

theorem Lexes.number {e : Char} {more : List Char} {ts : List (Token Kind)}
    (h : Lexes (e :: rest) ts) (hc : c.isDigit = true ∨ c = '-' ∧ more ≠ [])
    (hmore : ∀ d ∈ more, isNumberChar d = true) (he : isNumberChar e = false) :
    Lexes (c :: (more ++ e :: rest)) (mark .number (String.ofList (c :: more)) :: ts) := by
  have hbegins : c.isDigit = true ∨ c = '-' := hc.imp_right And.left
  have harrow : c = '-' → (more ++ e :: rest).head? ≠ some '>' :=
    not_arrow_of_number hc hmore _
  refine h.token (afterTrivia?_number hbegins harrow) ?_
  rw [readToken_number hbegins harrow]
  unfold readNumber
  dsimp only
  rw [takeWhile_append_cons hmore he, dropWhile_append_cons hmore he, if_neg]
  rintro ⟨rfl, rfl⟩
  exact (hc.resolve_left (by decide)).2 rfl

theorem Writes.lexes {text written : List Char} {ts : List (Token Kind)}
    (h : Writes kind text written) (hrest : Lexes rest ts) (hapart : SetApart rest) :
    Lexes (written ++ rest) (mark kind (String.ofList text) :: ts) := by
  obtain ⟨e, more, rfl, he⟩ := hapart
  cases h with
  | sign h => exact hrest.sign h
  | doubleColon => exact hrest.doubleColon
  | arrow =>
    refine hrest.arrow ?_
    rw [List.takeWhile_cons_of_neg (by rw [he.not_isNameChar]; exact Bool.false_ne_true)]
    decide
  | word hc hmore => exact hrest.opened (opensWord_of_beginsWord hc) hmore he.1
  | name hne hname => exact hrest.variable _ hne hname he.not_isNameChar
  | number hc hmore => exact hrest.number hc hmore he.2
  | text hquote hwritten =>
    rw [List.cons_append, List.append_assoc]
    exact hrest.quoted hquote hwritten

/-! ## Whole texts -/

theorem Laid.setApart {ts : List (Kind × String)} (h : Laid ts s) : SetApart s := by
  cases h with
  | nil h => exact h.setApart
  | cons h => exact h.setApart.append _

theorem Laid.lexes {ts : List (Kind × String)} (h : Laid ts s) :
    Lexes s (ts.map fun t => mark t.1 t.2) := by
  induction h with
  | @nil separator h =>
    rw [← List.append_nil separator]
    exact h.lexes lexes_nil
  | cons h hwritten hrest ih => exact h.lexes (hwritten.lexes ih hrest.setApart)

/-- A text that is laid out from tokens gives these tokens and no others, and it is read to its
end. -/
theorem tokenize_laid {ts : List (Kind × String)} {text : String} (h : Laid ts text.toList) :
    (tokenize text).failure = none ∧
      (tokenize text).tokens.map (fun t => (t.kind, t.text)) = ts := by
  obtain ⟨hfailure, htokens⟩ := h.lexes (byteLength text.toList)
  refine ⟨hfailure, ?_⟩
  calc (tokenize text).tokens.map (fun t => (t.kind, t.text))
      = ((tokenize text).tokens.map Token.placeless).map (fun t => (t.kind, t.text)) := by
        rw [List.map_map]
        rfl
    _ = (ts.map fun t => mark t.1 t.2).map (fun t => (t.kind, t.text)) :=
        congrArg (List.map fun t => (t.kind, t.text)) htokens
    _ = ts := by
        rw [List.map_map]
        exact List.map_id ts

/-- A parenthesis in the quotes of an ignored call does not end it, nor does an escaped quote end a
text. -/
theorem tokenize_laid_call :
    Laid [(.tableVar, "$t"), (.text, "it's")]
        "# key\n$t ->default ('a)')'it\\'s'/* * */".toList ∧
      (tokenize "# key\n$t ->default ('a)')'it\\'s'/* * */").failure = none ∧
      (tokenize "# key\n$t ->default ('a)')'it\\'s'/* * */").tokens.map
        (fun t => (t.kind, t.text)) = [(.tableVar, "$t"), (.text, "it's")] := by
  have hfirst : Separator "# key\n".toList := .last (@Trivium.hash " key".toList (by decide))
  have hname : Writes .tableVar "$t".toList "$t".toList :=
    @Writes.name ['t'] (by decide) (List.forall_mem_singleton.mpr (by decide))
  have harguments : Balanced "'a)'".toList :=
    .quoted (.inl rfl) (.plain (by decide) (by decide) (.plain (by decide) (by decide) .nil)) .nil
  have hcall : Separator " ->default ('a)')".toList :=
    .more (@Trivium.blank ' ' rfl) (.last (@Trivium.call "default".toList [' '] _
      (by decide) (List.forall_mem_singleton.mpr rfl) harguments))
  have htext : Writes .text "it's".toList "'it\\'s'".toList :=
    .text (.inl rfl) (.plain (by decide) (by decide) (.plain (by decide) (by decide)
      (.escaped '\'' (.plain (by decide) (by decide) .nil))))
  have hlast : Separator "/* * */".toList := .last (@Trivium.block " * ".toList (by decide))
  have h : Laid [(.tableVar, "$t"), (.text, "it's")]
      "# key\n$t ->default ('a)')'it\\'s'/* * */".toList :=
    .cons hfirst hname (.cons hcall htext (.nil hlast))
  exact ⟨h, tokenize_laid h⟩

end SchemaBridge.Statement
