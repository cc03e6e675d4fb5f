/-
  Reading a statement as a list of tokens.
-/
import SchemaBridge.Statement.Trivia
import SchemaBridge.Text.Bytes
import SchemaBridge.Grammar.Token

namespace SchemaBridge.Statement

open Text

/-- What stands at the head of a text that begins with no trivia. -/
inductive Reading
  | /-- A token with its text, and what follows it. -/
    token (kind : Kind) (text rest : List Char)
  | /-- Characters that begin no token. -/ unrecognized (text : List Char)

/-- The contents of a text in quotes and what follows the closing quote. A backslash stands
before a character that is taken as it is. -/
def readQuoted (quote : Char) : List Char → Option (List Char × List Char)
  | [] => none
  | '\\' :: c :: rest => (readQuoted quote rest).map fun p => (c :: p.1, p.2)
  | c :: rest =>
    if c = quote then some ([], rest)
    else (readQuoted quote rest).map fun p => (c :: p.1, p.2)

/-- Characters of numbers after the first. -/
def isNumberChar (c : Char) : Bool :=
  c.isDigit || c == '.'

/-- The first character of a word. -/
def beginsWord (c : Char) : Bool :=
  isAlphabetic c || c == '_' || c == '\\'

/-- The further characters of a word. -/
def isWordChar (c : Char) : Bool :=
  isNameChar c || c == '\\'

/-- Reads a text, given its opening quote and what follows it. -/
def readText (quote : Char) (rest : List Char) : Reading :=
  match readQuoted quote rest with
  | some (text, rest) => .token .text text rest
  | none => .unrecognized (firstLine (quote :: rest))

/-- Reads a `$` name, given what follows the `$`. -/
def readVariable (rest : List Char) : Reading :=
  match rest.takeWhile isNameChar with
  | [] => .unrecognized ['$']
  | name => .token .tableVar ('$' :: name) (rest.dropWhile isNameChar)

/-- Reads a number, given its first character and what follows it. -/
def readNumber (c : Char) (rest : List Char) : Reading :=
  let number := rest.takeWhile isNumberChar
  if c = '-' ∧ number = [] then .unrecognized ['-']
  else .token .number (c :: number) (rest.dropWhile isNumberChar)

/-- Reads a word, given its first character and what follows it. -/
def readWord (c : Char) (rest : List Char) : Reading :=
  let word := c :: rest.takeWhile isWordChar
  .token (.ofWord word) word (rest.dropWhile isWordChar)

/-- Reads what begins with `c`, which is no sign of one character. -/
def readLonger (c : Char) (rest : List Char) : Reading :=
  match c, rest with
  | ':', ':' :: rest => .token .doubleColon [':', ':'] rest
  | '-', '>' :: rest => .token .arrow ['-', '>'] rest
  | _, _ =>
    if c = '\'' ∨ c = '"' then readText c rest
    else if c = '$' then readVariable rest
    else if c.isDigit ∨ c = '-' then readNumber c rest
    else if beginsWord c then readWord c rest
    else .unrecognized ((c :: rest).takeWhile fun d => !isWhiteSpace d)

/-- Reads the token that begins with `c`. -/
def readToken (c : Char) (rest : List Char) : Reading :=
  match Kind.ofSign? c with
  | some kind => .token kind [c] rest
  | none => readLonger c rest

/-- The place and the characters where no token could be read. -/
structure LexFailure where
  text : String
  offset : Nat
  deriving DecidableEq, Repr

def LexFailure.message (e : LexFailure) : String :=
  "Unrecognized token '" ++ e.text ++ "' at offset " ++ toString e.offset

theorem length_readQuoted_lt {quote : Char} {s : List Char} {p : List Char × List Char}
    (h : readQuoted quote s = some p) : p.2.length < s.length := by
  fun_induction readQuoted quote s generalizing p with
  | case1 => simp at h
  | case2 c rest ih =>
    obtain ⟨q, hq, rfl⟩ := Option.map_eq_some_iff.mp h
    have := ih (p := q) hq
    simp only [List.length_cons]
    omega
  | case3 =>
    cases h
    exact Nat.lt_succ_self _
  | case4 c rest _ _ ih =>
    obtain ⟨q, hq, rfl⟩ := Option.map_eq_some_iff.mp h
    exact Nat.lt_succ_of_lt (ih (p := q) hq)

theorem length_dropWhile_le (p : Char → Bool) (s : List Char) :
    (s.dropWhile p).length ≤ s.length :=
  (List.dropWhile_suffix p).length_le

theorem length_readLonger_le {c : Char} {s text rest : List Char} {kind : Kind}
    (h : readLonger c s = .token kind text rest) : rest.length ≤ s.length := by
  unfold readLonger at h
  split at h
  · cases h
    exact Nat.le_succ _
  · cases h
    exact Nat.le_succ _
  · split at h
    · unfold readText at h
      split at h
      · rename_i hq
        cases h
        exact Nat.le_of_lt (length_readQuoted_lt hq)
      · cases h
    split at h
    · unfold readVariable at h
      split at h <;> cases h
      exact length_dropWhile_le _ s
    split at h
    · unfold readNumber at h
      simp only at h
      split at h <;> cases h
      exact length_dropWhile_le _ s
    split at h <;> cases h
    exact length_dropWhile_le _ s

theorem length_readToken_lt {c : Char} {s text rest : List Char} {kind : Kind}
    (h : readToken c s = .token kind text rest) : rest.length < (c :: s).length := by
  unfold readToken at h
  split at h
  · cases h
    exact Nat.lt_succ_self _
  · exact Nat.lt_succ_of_le (length_readLonger_le h)

/-- The tokens of the rest `s` of a text of `total` bytes. -/
def tokensFrom (total : Nat) (s : List Char) : Source Kind LexFailure :=
  match _h : skipTrivia s with
  | [] => ⟨[], none⟩
  | c :: rest =>
    let offset := total - byteLength (c :: rest)
    match _r : readToken c rest with
    | .token kind text rest =>
      let tail := tokensFrom total rest
      { tail with tokens := ⟨kind, String.ofList text, offset⟩ :: tail.tokens }
    | .unrecognized text => ⟨[], some ⟨String.ofList text, offset⟩⟩
termination_by s.length
decreasing_by
  have h1 := length_skipTrivia_le s
  have h2 := length_readToken_lt _r
  simp_all only [List.length_cons]
  omega

/-- The tokens of a text. The first place where no token can be read ends them. -/
def tokenize (text : String) : Source Kind LexFailure :=
  tokensFrom (byteLength text.toList) text.toList

end SchemaBridge.Statement
