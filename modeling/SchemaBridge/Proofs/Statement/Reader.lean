/-
  A reader that is called for one token after the other. Between two calls it stands at a place of
  the text, or it has failed. It answers the tokens of the text in their order, then the failure, if
  there is one, and from then on nothing, however often it is called. No call goes without an
  answer because of a slice that is missing, a loop that runs out of turns, or a count of
  parentheses that is taken below zero.
  Main results: `answer_eq` and `guardedClosing_eq`.
-/
import SchemaBridge.Proofs.Statement.Places

namespace SchemaBridge.Statement.ByPlace

open Text

/-- A token, or the failure to read one. -/
abbrev Item :=
  Except LexFailure (Token Kind)

/-- The tokens of a source, and behind them its failure. -/
def items (source : Source Kind LexFailure) : List Item :=
  source.tokens.map .ok ++ source.failure.toList.map .error

/-- A reader between two calls. Where it stood when it failed does not matter any more. -/
inductive Reader
  | standing (place : Nat)
  | failed

section Calls

variable (text : List Char)

/-- What a call answers, and the reader after it. -/
def call : Reader → Option (Option Item × Reader)
  | .failed => return (none, .failed)
  | .standing place => do
    match ← readToken text place with
    | some (.ok (token, behind)) => return (some (.ok token), .standing behind)
    | some (.error e) => return (some (.error e), .failed)
    | none =>
      -- what is passed over behind the last token is not passed over again
      return (none, .standing (← skipTrivia text (turns text) place))

/-- What the call answers that `n` others come before. -/
def answer : Nat → Reader → Option (Option Item)
  | 0, r => (call text r).map Prod.fst
  | n + 1, r => do answer n (← call text r).2

end Calls

variable {text s : List Char} {place : Nat}

/-! ## Answers -/

/-- One call, by the items that are left before it. -/
inductive Calls (text : List Char) : List Item → Option (Option Item × Reader) → Prop
  | finished {behind : Nat} (hend : RestAt text [] behind) :
      Calls text [] (some (none, .standing behind))
  | token {t : Token Kind} {rest : List Char} {behind : Nat} (hrest : RestAt text rest behind) :
      Calls text (.ok t :: items (Statement.tokensFrom (byteLength text) rest))
        (some (some (.ok t), .standing behind))
  | failed {e : LexFailure} : Calls text [.error e] (some (some (.error e), .failed))

theorem Calls.fst_eq {left : List Item} {called : Option (Option Item × Reader)}
    (h : Calls text left called) : called.map Prod.fst = some left[0]? := by
  cases h <;> rfl

theorem calls_of_restAt (h : RestAt text s place) :
    Calls text (items (Statement.tokensFrom (byteLength text) s))
      (call text (.standing place)) := by
  generalize htotal : byteLength text = total
  fun_cases Statement.tokensFrom total s with
  | case1 hs =>
    obtain ⟨behind, hbehind, hend⟩ := skipTrivia_eq h
    rw [hs] at hend
    simp only [call, readToken_nil h hs, Option.bind_eq_bind, Option.bind_some, hbehind]
    exact .finished hend
  | case2 c rest hs offset kind chars more hread tail =>
    obtain ⟨r, hr, hreads⟩ := readToken_cons h hs
    rw [hread, htotal] at hreads
    cases hreads with
    | token _ _ hmore =>
      simp only [call, hr, Option.bind_eq_bind, Option.bind_some]
      have htoken := Calls.token (t := ⟨kind, String.ofList chars, offset⟩) hmore
      rw [htotal] at htoken
      exact htoken
  | case3 c rest hs offset chars hread =>
    obtain ⟨r, hr, hreads⟩ := readToken_cons h hs
    rw [hread, htotal] at hreads
    cases hreads
    simp only [call, hr, Option.bind_eq_bind, Option.bind_some]
    exact .failed

theorem answer_failed (n : Nat) : answer text n .failed = some none := by
  induction n with
  | zero => rfl
  | succ n ih => exact ih

/-- Call by call the items are answered, and behind the last of them nothing. -/
theorem answer_of_restAt (h : RestAt text s place) (n : Nat) :
    answer text n (.standing place) =
      some (items (Statement.tokensFrom (byteLength text) s))[n]? := by
  induction n generalizing s place with
  | zero => exact (calls_of_restAt h).fst_eq
  | succ n ih =>
    have hcall := calls_of_restAt h
    rw [answer]
    generalize call text (.standing place) = called at hcall ⊢
    generalize items (Statement.tokensFrom (byteLength text) s) = left at hcall ⊢
    cases hcall with
    | finished hend =>
      have hnone := ih hend
      rw [tokensFrom_nil] at hnone
      exact hnone
    | token hrest => exact ih hrest
    | failed => exact answer_failed n

theorem answer_eq (text : String) (n : Nat) :
    answer text.toList n (.standing 0) = some (items (Statement.tokenize text))[n]? :=
  answer_of_restAt (restAt_start text.toList) n

/-! ## Counts -/

/-- The place that `closing` finds. `none` where its count would be taken below zero. -/
def guardedClosing (depth : Nat) (quote : Option Char) (escaped : Bool) (i : Nat) :
    List Char → Option (Option Nat)
  | [] => some none
  | c :: rest =>
    match quote with
    | some q =>
      if escaped then guardedClosing depth quote false (i + c.utf8Size) rest
      else if c = '\\' then guardedClosing depth quote true (i + c.utf8Size) rest
      else if c = q then guardedClosing depth none escaped (i + c.utf8Size) rest
      else guardedClosing depth quote escaped (i + c.utf8Size) rest
    | none =>
      if c = '\'' ∨ c = '"' then guardedClosing depth (some c) escaped (i + c.utf8Size) rest
      else if c = '(' then guardedClosing (depth + 1) quote escaped (i + c.utf8Size) rest
      else if c = ')' then
        match depth with
        | 0 => none
        | 1 => some (some i)
        | depth + 2 => guardedClosing (depth + 1) quote escaped (i + c.utf8Size) rest
      else guardedClosing depth quote escaped (i + c.utf8Size) rest

/-- A count that is not zero at first is never taken below zero: at zero it ends. -/
theorem guardedClosing_of_pos {depth : Nat} (hdepth : 0 < depth) (quote : Option Char)
    (escaped : Bool) (i : Nat) (s : List Char) :
    guardedClosing depth quote escaped i s = some (closing depth quote escaped i s) := by
  fun_induction guardedClosing depth quote escaped i s with
  | case8 => exact absurd hdepth (Nat.lt_irrefl 0)
  | case9 => rfl
  | case10 => exact ‹0 < _ → _› (Nat.succ_pos _)
  | _ => simp_all [closing]

/-- Arguments begin with a parenthesis, and so does their count. -/
theorem guardedClosing_eq (arguments : List Char) :
    guardedClosing 0 none false 0 ('(' :: arguments) =
      some (closing 0 none false 0 ('(' :: arguments)) :=
  guardedClosing_of_pos Nat.one_pos none false 1 arguments

end SchemaBridge.Statement.ByPlace
