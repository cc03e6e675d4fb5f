/-
  The words and signs of class diagrams.
-/
import SchemaBridge.Text.Letter
import SchemaBridge.Text.Quoted

namespace SchemaBridge.Diagram

open Text

/-- A token of a diagram. -/
inductive Token
  | ident (name : String)
  | /-- A text in double quotes. -/ text (contents : String)
  | openBrace
  | closeBrace
  | colon
  | comma
  | atSign
  | /-- `--` -/ dash
  deriving DecidableEq, Repr

/-- How messages show a token; `none` is the end of the diagram. -/
def Token.shown : Option Token → String
  | none => "Eof"
  | some (ident name) => "Ident(" ++ String.ofList (quoted name.toList) ++ ")"
  | some (text contents) => "Str(" ++ String.ofList (quoted contents.toList) ++ ")"
  | some openBrace => "LBrace"
  | some closeBrace => "RBrace"
  | some colon => "Colon"
  | some comma => "Comma"
  | some atSign => "At"
  | some dash => "Dash"

/-- Why a text has no tokens. -/
inductive LexError
  | unexpected (c : Char)
  | unterminated
  deriving DecidableEq, Repr

def LexError.message : LexError → String
  | unexpected c => "Unexpected character: " ++ String.ofList [c]
  | unterminated => "Unterminated string"

/-- Characters of names. -/
def isNameChar (c : Char) : Bool :=
  isAlphanumeric c || c == '_'

/-- The text without the white space and the comments at its head. A comment runs from `#` or `'`
to the end of its line; `comment` tells whether the text begins within one. -/
def skipBlank (comment : Bool) : List Char → List Char
  | [] => []
  | c :: rest =>
    if comment then skipBlank (c != '\n') rest
    else if isWhiteSpace c then skipBlank false rest
    else if c = '#' || c = '\'' then skipBlank true rest
    else c :: rest

/-- The contents of a text in double quotes and what follows the closing quote. A backslash stands
before a character that is taken as it is. -/
def readText : List Char → Option (List Char × List Char)
  | [] => none
  | '"' :: rest => some ([], rest)
  | '\\' :: c :: rest => (readText rest).map fun p => (c :: p.1, p.2)
  | c :: rest => (readText rest).map fun p => (c :: p.1, p.2)

/-- Reads the token that begins with `c`. -/
def readToken (c : Char) (rest : List Char) : Except LexError (Token × List Char) :=
  match c, rest with
  | '\x7b', _ => .ok (.openBrace, rest)
  | '\x7d', _ => .ok (.closeBrace, rest)
  | ':', _ => .ok (.colon, rest)
  | ',', _ => .ok (.comma, rest)
  | '@', _ => .ok (.atSign, rest)
  | '-', '-' :: rest => .ok (.dash, rest)
  | '"', _ =>
    match readText rest with
    | some (text, rest) => .ok (.text (String.ofList text), rest)
    | none => .error .unterminated
  | _, _ =>
    if isNameChar c then
      .ok (.ident (String.ofList (c :: rest.takeWhile isNameChar)), rest.dropWhile isNameChar)
    else .error (.unexpected c)

theorem length_skipBlank_le (comment : Bool) (s : List Char) :
    (skipBlank comment s).length ≤ s.length := by
  induction s generalizing comment with
  | nil => exact Nat.le_refl _
  | cons c rest ih =>
    simp only [skipBlank]
    split
    · exact Nat.le_succ_of_le (ih _)
    split
    · exact Nat.le_succ_of_le (ih _)
    split
    · exact Nat.le_succ_of_le (ih _)
    · exact Nat.le_refl _

theorem length_readText_lt {s : List Char} {p : List Char × List Char}
    (h : readText s = some p) : p.2.length < s.length := by
  fun_induction readText s generalizing p with
  | case1 => simp at h
  | case2 =>
    cases h
    exact Nat.lt_succ_self _
  | case3 c rest ih =>
    obtain ⟨q, hq, rfl⟩ := Option.map_eq_some_iff.mp h
    have := ih (p := q) hq
    simp only [List.length_cons]
    omega
  | case4 c rest _ _ ih =>
    obtain ⟨q, hq, rfl⟩ := Option.map_eq_some_iff.mp h
    exact Nat.lt_succ_of_lt (ih (p := q) hq)

theorem length_readToken_le {c : Char} {s rest : List Char} {t : Token}
    (h : readToken c s = .ok (t, rest)) : rest.length ≤ s.length := by
  unfold readToken at h
  split at h
  case h_6 =>
    cases h
    exact Nat.le_succ _
  case h_7 =>
    split at h
    · rename_i hr
      cases h
      exact Nat.le_of_lt (length_readText_lt hr)
    · cases h
  case h_8 =>
    split at h
    · cases h
      exact (List.dropWhile_suffix isNameChar).length_le
    · cases h
  all_goals
    cases h
    exact Nat.le_refl _

/-- The tokens of a text. -/
def tokens (s : List Char) : Except LexError (List Token) :=
  match _h : skipBlank false s with
  | [] => .ok []
  | c :: rest =>
    match _r : readToken c rest with
    | .error e => .error e
    | .ok (t, rest) => (tokens rest).map (t :: ·)
termination_by s.length
decreasing_by
  have h1 := length_skipBlank_le false s
  have h2 := length_readToken_le _r
  simp_all only [List.length_cons]
  omega

end SchemaBridge.Diagram
