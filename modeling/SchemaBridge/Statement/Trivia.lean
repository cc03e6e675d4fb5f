/-
  What stands between the tokens of a statement: white space, comments and calls without effect.
  Each reader takes the rest of a text and returns what is left of it.
-/
import SchemaBridge.Statement.Token
import SchemaBridge.Text.Letter

namespace SchemaBridge.Statement

open Text

/-- Characters of names. -/
def isNameChar (c : Char) : Bool :=
  isAlphanumeric c || c == '_'

/-- The text after the end of its first line. -/
def afterLine : List Char → List Char
  | [] => []
  | c :: rest => if c = '\n' then rest else afterLine rest

/-- The text after the end of a block comment; a comment without an end goes on to the last
character. -/
def afterBlock : List Char → List Char
  | '*' :: '/' :: rest => rest
  | _ :: rest => afterBlock rest
  | [] => []

/-- Whether a reader of arguments is within quotes. -/
inductive Quoting
  | /-- Not in quotes. -/ plain
  | /-- Between two quotes of this sort. -/ inside (quote : Char)
  | /-- Between two quotes, behind a backslash. -/ escaped (quote : Char)
  deriving DecidableEq

/-- The text after the closing parenthesis of a call, `depth` further ones being open within it.
Parentheses in quotes do not count. -/
def afterCall (depth : Nat) (quoting : Quoting) : List Char → Option (List Char)
  | [] => none
  | c :: rest =>
    match quoting with
    | .escaped quote => afterCall depth (.inside quote) rest
    | .inside quote =>
      if c = '\\' then afterCall depth (.escaped quote) rest
      else if c = quote then afterCall depth .plain rest
      else afterCall depth (.inside quote) rest
    | .plain =>
      if c = '\'' || c = '"' then afterCall depth (.inside c) rest
      else if c = '(' then afterCall (depth + 1) .plain rest
      else if c = ')' then
        match depth with
        | 0 => some rest
        | depth + 1 => afterCall depth .plain rest
      else afterCall depth .plain rest

/-- The text after an ignored call, given what follows its arrow. -/
def afterIgnored? (s : List Char) : Option (List Char) :=
  if s.takeWhile isNameChar ∈ ignoredCalls then
    match (s.dropWhile isNameChar).dropWhile isWhiteSpace with
    | '(' :: arguments => afterCall 0 .plain arguments
    | _ => none
  else none

/-- The text after one piece of trivia at its head. -/
def afterTrivia? : List Char → Option (List Char)
  | '/' :: '/' :: rest => some (afterLine rest)
  | '/' :: '*' :: rest => some (afterBlock rest)
  | '#' :: rest => some (afterLine rest)
  | '-' :: '>' :: rest => afterIgnored? rest
  | c :: rest => if isWhiteSpace c then some rest else none
  | [] => none

theorem length_afterLine_le (s : List Char) : (afterLine s).length ≤ s.length := by
  fun_induction afterLine s with
  | case1 => exact Nat.le_refl _
  | case2 rest => exact Nat.le_succ _
  | case3 c rest _ ih => exact Nat.le_succ_of_le ih

theorem length_afterBlock_le (s : List Char) : (afterBlock s).length ≤ s.length := by
  fun_induction afterBlock s with
  | case1 rest => simp only [List.length_cons]; omega
  | case2 _ rest _ ih => exact Nat.le_succ_of_le ih
  | case3 => exact Nat.le_refl _

theorem length_afterCall_lt {depth : Nat} {quoting : Quoting} {s t : List Char}
    (h : afterCall depth quoting s = some t) : t.length < s.length := by
  fun_induction afterCall depth quoting s <;> grind

theorem length_afterIgnored?_lt {s t : List Char} (h : afterIgnored? s = some t) :
    t.length < s.length := by
  unfold afterIgnored? at h
  split at h
  · split at h
    · rename_i arguments heq
      have h1 := length_afterCall_lt h
      have h2 := (List.dropWhile_suffix isWhiteSpace (l := s.dropWhile isNameChar)).length_le
      have h3 := (List.dropWhile_suffix isNameChar (l := s)).length_le
      rw [heq] at h2
      simp only [List.length_cons] at h2
      omega
    · simp at h
  · simp at h

/-- Trivia is never empty. -/
theorem length_afterTrivia?_lt {s t : List Char} (h : afterTrivia? s = some t) :
    t.length < s.length := by
  unfold afterTrivia? at h
  split at h
  · rename_i rest
    have := length_afterLine_le rest
    simp only [Option.some.injEq] at h
    subst h
    simp only [List.length_cons]
    omega
  · rename_i rest
    have := length_afterBlock_le rest
    simp only [Option.some.injEq] at h
    subst h
    simp only [List.length_cons]
    omega
  · rename_i rest
    have := length_afterLine_le rest
    simp only [Option.some.injEq] at h
    subst h
    simp only [List.length_cons]
    omega
  · have := length_afterIgnored?_lt h
    simp only [List.length_cons]
    omega
  · split at h <;> simp_all
  · simp at h

/-- The text after all the trivia at its head. -/
def skipTrivia (s : List Char) : List Char :=
  match _h : afterTrivia? s with
  | none => s
  | some rest => skipTrivia rest
termination_by s.length
decreasing_by exact length_afterTrivia?_lt (by assumption)

theorem length_skipTrivia_le (s : List Char) : (skipTrivia s).length ≤ s.length := by
  fun_induction skipTrivia s with
  | case1 => exact Nat.le_refl _
  | case2 s rest h ih => exact Nat.le_of_lt (Nat.lt_of_le_of_lt ih (length_afterTrivia?_lt h))

end SchemaBridge.Statement
