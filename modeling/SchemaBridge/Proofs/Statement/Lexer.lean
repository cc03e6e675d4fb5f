/-
  Reading tokens piece by piece. `Lexes s ts` says that the text `s` is read to its end and gives
  the tokens `ts`, their places apart. Each lemma puts one piece before a text: a sign, a word, a
  name in quotes, or something that is left out.
-/
import SchemaBridge.Statement.Lexer
import Mathlib.Data.List.TakeWhile

namespace SchemaBridge

/-- The token without its place. -/
def Token.placeless {T : Type} (t : Token T) : Token T :=
  { t with offset := 0 }

namespace Statement

open Text

/-- A token of which the place does not matter. -/
def mark (kind : Kind) (text : String) : Token Kind :=
  ⟨kind, text, 0⟩

/-- The text is read to its end, and these are its tokens. -/
def Lexes (s : List Char) (ts : List (Token Kind)) : Prop :=
  ∀ total, (tokensFrom total s).failure = none ∧
    (tokensFrom total s).tokens.map Token.placeless = ts

/-! ## One step -/

theorem skipTrivia_of_none {s : List Char} (h : afterTrivia? s = none) : skipTrivia s = s := by
  rw [skipTrivia]
  split
  · rfl
  · rename_i hsome
    rw [h] at hsome
    cases hsome

theorem skipTrivia_of_some {s t : List Char} (h : afterTrivia? s = some t) :
    skipTrivia s = skipTrivia t := by
  rw [skipTrivia]
  split
  · rename_i hnone
    rw [h] at hnone
    cases hnone
  · rename_i hsome
    rw [h] at hsome
    cases hsome
    rfl

theorem afterTrivia?_skipTrivia (s : List Char) : afterTrivia? (skipTrivia s) = none := by
  fun_induction skipTrivia s with
  | case1 s hskip => exact hskip
  | case2 s rest hskip ih => exact ih

/-- What is read depends on what follows the trivia. -/
theorem tokensFrom_congr {s t : List Char} (h : skipTrivia s = skipTrivia t) (total : Nat) :
    tokensFrom total s = tokensFrom total t := by
  rw [tokensFrom.eq_def total s, tokensFrom.eq_def total t]
  generalize skipTrivia s = u at h ⊢
  subst h
  rfl

theorem tokensFrom_nil (total : Nat) : tokensFrom total [] = ⟨[], none⟩ := by
  rw [tokensFrom]
  have hskip : skipTrivia [] = [] := skipTrivia_of_none rfl
  split
  · rfl
  · rename_i hcons
    rw [hskip] at hcons
    cases hcons

theorem tokensFrom_unrecognized {c : Char} {s text : List Char}
    (hstart : afterTrivia? (c :: s) = none) (hread : readToken c s = .unrecognized text)
    (total : Nat) : tokensFrom total (c :: s) =
      ⟨[], some ⟨String.ofList text, total - byteLength (c :: s)⟩⟩ := by
  rw [tokensFrom]
  split
  · rename_i hnil
    rw [skipTrivia_of_none hstart] at hnil
    cases hnil
  · rename_i d t hskip
    rw [skipTrivia_of_none hstart] at hskip
    cases hskip
    split
    · rename_i hread'
      rw [hread] at hread'
      cases hread'
    · rename_i hread'
      rw [hread] at hread'
      cases hread'
      rfl

theorem tokensFrom_token {c : Char} {s text rest : List Char} {kind : Kind}
    (hstart : afterTrivia? (c :: s) = none) (hread : readToken c s = .token kind text rest)
    (total : Nat) : tokensFrom total (c :: s) =
      { tokensFrom total rest with
        tokens := ⟨kind, String.ofList text, total - byteLength (c :: s)⟩ ::
          (tokensFrom total rest).tokens } := by
  rw [tokensFrom]
  split
  · rename_i hnil
    rw [skipTrivia_of_none hstart] at hnil
    cases hnil
  · rename_i d t hskip
    rw [skipTrivia_of_none hstart] at hskip
    cases hskip
    split
    · rename_i hread'
      rw [hread] at hread'
      cases hread'
      rfl
    · rename_i hread'
      rw [hread] at hread'
      cases hread'

variable {s rest name : List Char} {c e : Char} {ts : List (Token Kind)} {kind : Kind}

theorem lexes_nil : Lexes [] [] := by
  intro total
  rw [tokensFrom_nil]
  exact ⟨rfl, rfl⟩

theorem Lexes.trivia (h : Lexes rest ts) (hskip : afterTrivia? s = some rest) : Lexes s ts := by
  intro total
  rw [tokensFrom_congr (skipTrivia_of_some hskip)]
  exact h total

theorem Lexes.token {text : List Char} (h : Lexes rest ts) (hstart : afterTrivia? (c :: s) = none)
    (hread : readToken c s = .token kind text rest) :
    Lexes (c :: s) (mark kind (String.ofList text) :: ts) := by
  intro total
  obtain ⟨hfailure, htokens⟩ := h total
  rw [tokensFrom_token hstart hread]
  refine ⟨hfailure, ?_⟩
  rw [List.map_cons, htokens]
  rfl

/-! ## Signs -/

theorem Lexes.sign (h : Lexes rest ts) (hsign : Kind.ofSign? c = some kind) :
    Lexes (c :: rest) (mark kind (String.ofList [c]) :: ts) := by
  refine h.token ?_ ?_
  · unfold Kind.ofSign? at hsign
    split at hsign
    all_goals first | rfl | cases hsign
  · unfold readToken
    rw [hsign]

theorem Lexes.doubleColon (h : Lexes rest ts) :
    Lexes (':' :: ':' :: rest) (mark .doubleColon "::" :: ts) :=
  h.token rfl rfl

theorem Lexes.arrow (h : Lexes rest ts) (hname : rest.takeWhile isNameChar ∉ ignoredCalls) :
    Lexes ('-' :: '>' :: rest) (mark .arrow "->" :: ts) := by
  refine h.token ?_ rfl
  unfold afterTrivia? afterIgnored?
  exact if_neg hname

/-! ## Words and names -/

theorem takeWhile_append_cons {p : Char → Bool} (hname : ∀ d ∈ name, p d = true)
    (he : p e = false) : (name ++ e :: rest).takeWhile p = name := by
  rw [List.takeWhile_append_of_pos hname,
    List.takeWhile_cons_of_neg (by rw [he]; exact Bool.false_ne_true), List.append_nil]

theorem dropWhile_append_cons {p : Char → Bool} (hname : ∀ d ∈ name, p d = true)
    (he : p e = false) : (name ++ e :: rest).dropWhile p = e :: rest := by
  rw [List.dropWhile_append_of_pos hname,
    List.dropWhile_cons_of_neg (by rw [he]; exact Bool.false_ne_true)]

/-- A word in the letters and digits of ASCII, a letter first. -/
def isPlainWord : List Char → Bool
  | [] => false
  | c :: rest => c.isAlpha && rest.all Char.isAlphanum

theorem toNat_lt_of_isAlphanum (h : c.isAlphanum = true) : c.toNat < 128 := by
  have hranges : ((decide (c.val ≥ 'A'.val ∧ c.val ≤ 'Z'.val) ||
      (decide (c.val ≥ 'a'.val) && decide (c.val ≤ 'z'.val))) ||
        (decide (c.val ≥ '0'.val) && decide (c.val ≤ '9'.val))) = true := h
  simp only [Bool.or_eq_true, Bool.and_eq_true, decide_eq_true_eq, UInt32.le_iff_toNat_le]
    at hranges
  have h1 : 'Z'.val.toNat = 90 := rfl
  have h2 : 'z'.val.toNat = 122 := rfl
  have h3 : '9'.val.toNat = 57 := rfl
  unfold Char.toNat
  omega

/-- The character begins a word, and nothing else. -/
structure OpensWord (c : Char) : Prop where
  sign : Kind.ofSign? c = none
  other : c ∉ [':', '\'', '"', '$', '/', '#', '-']
  digit : c.isDigit = false
  blank : isWhiteSpace c = false
  begins : beginsWord c = true

instance (c : Char) : Decidable (OpensWord c) :=
  decidable_of_iff (Kind.ofSign? c = none ∧ c ∉ [':', '\'', '"', '$', '/', '#', '-'] ∧
      c.isDigit = false ∧ isWhiteSpace c = false ∧ beginsWord c = true)
    ⟨fun ⟨h1, h2, h3, h4, h5⟩ => ⟨h1, h2, h3, h4, h5⟩, fun ⟨h1, h2, h3, h4, h5⟩ =>
      ⟨h1, h2, h3, h4, h5⟩⟩

theorem opensWord_of_lt (h : beginsWord c = true) (hlt : c.toNat < 128) : OpensWord c := by
  have hall : ∀ n < 128, beginsWord (Char.ofNat n) = true → OpensWord (Char.ofNat n) := by
    decide
  have hspec := hall c.toNat hlt
  rw [Char.ofNat_toNat] at hspec
  exact hspec h

theorem opensWord_of_isAlpha (h : c.isAlpha = true) : OpensWord c := by
  have hlt : c.toNat < 128 := by
    apply toNat_lt_of_isAlphanum
    unfold Char.isAlphanum
    rw [h]
    rfl
  refine opensWord_of_lt ?_ hlt
  unfold beginsWord
  rw [isAlphabetic_of_isAlpha hlt, h]
  rfl

theorem isNameChar_of_isAlphanum (h : c.isAlphanum = true) : isNameChar c = true := by
  unfold isNameChar
  rw [isAlphanumeric_of_lt (toNat_lt_of_isAlphanum h), h]
  rfl

theorem isWordChar_of_isAlphanum (h : c.isAlphanum = true) : isWordChar c = true := by
  unfold isWordChar
  rw [isNameChar_of_isAlphanum h]
  rfl

theorem isNameChar_of_isPlainWord (h : isPlainWord name = true) :
    ∀ d ∈ name, isNameChar d = true := by
  cases name with
  | nil => exact fun d hd => absurd hd List.not_mem_nil
  | cons c rest =>
    obtain ⟨hc, hrest⟩ := Bool.and_eq_true_iff.mp h
    intro d hd
    apply isNameChar_of_isAlphanum
    rcases List.mem_cons.mp hd with rfl | hd
    · unfold Char.isAlphanum
      rw [hc]
      rfl
    · exact List.all_eq_true.mp hrest d hd

theorem OpensWord.readToken (h : OpensWord c) (s : List Char) : readToken c s = readWord c s := by
  have hne : ∀ d ∈ [':', '\'', '"', '$', '/', '#', '-'], c ≠ d := by
    rintro d hd rfl
    exact h.other hd
  have hquote : ¬(c = '\'' ∨ c = '"') := by
    rintro (hq | hq)
    · exact hne '\'' (by decide) hq
    · exact hne '"' (by decide) hq
  have hnumber : ¬(c.isDigit = true ∨ c = '-') := by
    rintro (hd | hm)
    · rw [h.digit] at hd
      cases hd
    · exact hne '-' (by decide) hm
  unfold Statement.readToken
  rw [h.sign]
  dsimp only
  unfold readLonger
  split
  · exact absurd rfl (hne ':' (by decide))
  · exact absurd rfl (hne '-' (by decide))
  · rw [if_neg hquote, if_neg (hne '$' (by decide)), if_neg hnumber, if_pos h.begins]

theorem afterTrivia?_cons (h : c ∉ ['/', '#', '-']) (s : List Char) :
    afterTrivia? (c :: s) = if isWhiteSpace c then some s else none := by
  unfold afterTrivia?
  split
  all_goals rename_i heq
  all_goals cases heq
  all_goals first | exact absurd (by decide) h | rfl

theorem OpensWord.afterTrivia? (h : OpensWord c) (s : List Char) :
    afterTrivia? (c :: s) = none := by
  have hother : c ∉ ['/', '#', '-'] := fun hc =>
    h.other (List.mem_append_right [':', '\'', '"', '$'] hc)
  rw [afterTrivia?_cons hother, h.blank]
  rfl

/-- A word of any length; what follows it does not go on with it. -/
theorem Lexes.opened (h : Lexes (e :: rest) ts) (hc : OpensWord c)
    (hmore : ∀ d ∈ name, isWordChar d = true) (he : isWordChar e = false) :
    Lexes (c :: (name ++ e :: rest))
      (mark (.ofWord (c :: name)) (String.ofList (c :: name)) :: ts) := by
  refine h.token (hc.afterTrivia? _) ?_
  rw [hc.readToken]
  unfold readWord
  rw [takeWhile_append_cons hmore he, dropWhile_append_cons hmore he]

theorem Lexes.word (h : Lexes (e :: rest) ts) (name : List Char) (hname : isPlainWord name = true)
    (he : isWordChar e = false) :
    Lexes (name ++ e :: rest) (mark (.ofWord name) (String.ofList name) :: ts) := by
  cases name with
  | nil => cases hname
  | cons c more =>
    obtain ⟨hc, hmore⟩ := Bool.and_eq_true_iff.mp hname
    exact h.opened (opensWord_of_isAlpha hc)
      (fun d hd => isWordChar_of_isAlphanum (List.all_eq_true.mp hmore d hd)) he

theorem Lexes.variable (h : Lexes (e :: rest) ts) (name : List Char) (hne : name ≠ [])
    (hname : ∀ d ∈ name, isNameChar d = true) (he : isNameChar e = false) :
    Lexes ('$' :: (name ++ e :: rest)) (mark .tableVar (String.ofList ('$' :: name)) :: ts) := by
  refine h.token rfl ?_
  show readVariable (name ++ e :: rest) = _
  unfold readVariable
  rw [takeWhile_append_cons hname he, dropWhile_append_cons hname he]
  cases name with
  | nil => exact absurd rfl hne
  | cons c more => rfl

/-! ## Texts in quotes -/

/-- The contents of a text and how they may be written between two quotes of this sort: a character
as it is, unless it is the quote or a backslash, or any character behind a backslash. -/
inductive Escapes (quote : Char) : List Char → List Char → Prop
  | nil : Escapes quote [] []
  | plain {c : Char} {s w : List Char} (hquote : c ≠ quote) (hescape : c ≠ '\\')
      (h : Escapes quote s w) : Escapes quote (c :: s) (c :: w)
  | escaped {s w : List Char} (c : Char) (h : Escapes quote s w) :
      Escapes quote (c :: s) ('\\' :: c :: w)

variable {quote : Char} {contents written : List Char}

theorem readQuoted_of_escapes (h : Escapes quote contents written) (hquote : quote ≠ '\\')
    (rest : List Char) : readQuoted quote (written ++ quote :: rest) = some (contents, rest) := by
  induction h with
  | nil =>
    rw [List.nil_append, readQuoted, if_pos rfl]
    rintro c t rfl
    exact absurd rfl hquote
  | plain hc hescape h ih =>
    rw [List.cons_append, readQuoted, if_neg hc, ih]
    · rfl
    · rintro d t rfl
      exact absurd rfl hescape
  | escaped c h ih =>
    rw [List.cons_append, List.cons_append, readQuoted, ih]
    rfl

/-- What is read as the contents of a text is written before its closing quote. -/
theorem escapes_of_readQuoted (h : readQuoted quote s = some (contents, rest)) :
    ∃ written, Escapes quote contents written ∧ s = written ++ quote :: rest := by
  fun_induction readQuoted quote s generalizing contents rest with
  | case1 => cases h
  | case2 c more ih =>
    obtain ⟨⟨front, behind⟩, hmore, hp⟩ := Option.map_eq_some_iff.mp h
    cases hp
    obtain ⟨written, hwritten, rfl⟩ := ih hmore
    exact ⟨'\\' :: c :: written, .escaped c hwritten, rfl⟩
  | case3 more =>
    cases h
    exact ⟨[], .nil, rfl⟩
  | case4 c more hescape hc ih =>
    obtain ⟨⟨front, behind⟩, hmore, hp⟩ := Option.map_eq_some_iff.mp h
    cases hp
    obtain ⟨written, hwritten, rfl⟩ := ih hmore
    refine ⟨c :: written, .plain hc ?_ hwritten, rfl⟩
    rintro rfl
    obtain ⟨d, tail, htail⟩ := List.exists_cons_of_ne_nil (List.append_ne_nil_of_right_ne_nil
      written (List.cons_ne_nil quote behind))
    exact hescape d tail rfl htail

theorem afterCall_of_escapes (h : Escapes quote contents written) (hquote : quote ≠ '\\')
    (depth : Nat) (rest : List Char) :
    afterCall depth (.inside quote) (written ++ quote :: rest) = afterCall depth .plain rest := by
  induction h with
  | nil => rw [List.nil_append, afterCall, if_neg hquote, if_pos rfl]
  | plain hc hescape h ih => rw [List.cons_append, afterCall, if_neg hescape, if_neg hc, ih]
  | escaped c h ih => rw [List.cons_append, List.cons_append, afterCall, if_pos rfl, afterCall, ih]

theorem not_escape_of_quote (h : quote = '\'' ∨ quote = '"') : quote ≠ '\\' := by
  rintro rfl
  exact absurd h (by decide)

theorem readText_of_escapes (h : Escapes quote contents written)
    (hquote : quote = '\'' ∨ quote = '"') (rest : List Char) :
    readText quote (written ++ quote :: rest) = .token .text contents rest := by
  unfold readText
  rw [readQuoted_of_escapes h (not_escape_of_quote hquote)]

theorem Lexes.quoted (h : Lexes rest ts) (hquote : quote = '\'' ∨ quote = '"')
    (hwritten : Escapes quote contents written) :
    Lexes (quote :: (written ++ quote :: rest)) (mark .text (String.ofList contents) :: ts) := by
  have hread := readText_of_escapes hwritten hquote rest
  rcases hquote with rfl | rfl
  all_goals exact h.token rfl hread

/-- The text can stand in single quotes as it is. -/
def Quotable (s : List Char) : Prop :=
  ∀ c ∈ s, c ≠ '\'' ∧ c ≠ '\\'

theorem Quotable.escapes (h : Quotable name) : Escapes '\'' name name := by
  induction name with
  | nil => exact .nil
  | cons c more ih =>
    obtain ⟨hquote, hescape⟩ := h c List.mem_cons_self
    exact .plain hquote hescape (ih fun d hd => h d (List.mem_cons_of_mem _ hd))

theorem Lexes.text (h : Lexes rest ts) (hname : Quotable name) :
    Lexes ('\'' :: (name ++ '\'' :: rest)) (mark .text (String.ofList name) :: ts) :=
  h.quoted (.inl rfl) hname.escapes

/-! ## What is left out -/

theorem Lexes.space (h : Lexes rest ts) : Lexes (' ' :: rest) ts :=
  h.trivia rfl

theorem Lexes.newline (h : Lexes rest ts) : Lexes ('\n' :: rest) ts :=
  h.trivia rfl

theorem Lexes.spaces (h : Lexes rest ts) (n : Nat) : Lexes (List.replicate n ' ' ++ rest) ts := by
  induction n with
  | zero => exact h
  | succ n ih =>
    rw [List.replicate_succ, List.cons_append]
    exact ih.space

/-- An ignored call with a name for its argument is left out. -/
theorem Lexes.ignored {method : List Char} (h : Lexes rest ts) (hname : Quotable name)
    (hmethod : method ∈ ignoredCalls) (hword : isPlainWord method = true) :
    Lexes ('-' :: '>' :: (method ++ '(' :: '\'' :: (name ++ '\'' :: ')' :: rest))) ts := by
  have hchars := isNameChar_of_isPlainWord hword
  have hparen : isNameChar '(' = false := by decide
  refine h.trivia ?_
  show afterIgnored? (method ++ '(' :: '\'' :: (name ++ '\'' :: ')' :: rest)) = some rest
  unfold afterIgnored?
  rw [takeWhile_append_cons hchars hparen, if_pos hmethod, dropWhile_append_cons hchars hparen]
  exact afterCall_of_escapes hname.escapes (by decide) 0 _

end Statement

end SchemaBridge
