/-
  The text of a statement, laid out in stretches: tokens, and between them what is left out. No
  character is lost on the way, and a sign that stands for a token of its own stands in no other
  token but a text in quotes.
  Main results: `text_layout`, `kinds_layout` and `sign_of_mem_layout`.
-/
import SchemaBridge.Proofs.Statement.Lexer
import Mathlib.Data.List.Infix

namespace SchemaBridge.Statement

open Text

/-! ## Readers leave a rest -/

theorem afterLine_suffix (s : List Char) : afterLine s <:+ s := by
  fun_induction afterLine s with
  | case1 => exact List.suffix_rfl
  | case2 rest => exact List.suffix_cons _ _
  | case3 c rest _ ih => exact ih.trans (List.suffix_cons _ _)

theorem afterBlock_suffix (s : List Char) : afterBlock s <:+ s := by
  fun_induction afterBlock s with
  | case1 rest => exact ⟨['*', '/'], rfl⟩
  | case2 _ rest _ ih => exact ih.trans (List.suffix_cons _ _)
  | case3 => exact List.suffix_rfl

theorem afterCall_suffix {depth : Nat} {quoting : Quoting} {s t : List Char}
    (h : afterCall depth quoting s = some t) : t <:+ s := by
  fun_induction afterCall depth quoting s with
  | case1 => cases h
  | case8 =>
    cases h
    exact List.suffix_cons _ _
  | _ =>
    rename_i ih
    exact (ih h).trans (List.suffix_cons _ _)

theorem afterIgnored?_suffix {s t : List Char} (h : afterIgnored? s = some t) : t <:+ s := by
  unfold afterIgnored? at h
  split at h
  · split at h
    · rename_i arguments heq
      calc
        t <:+ arguments := afterCall_suffix h
        _ <:+ '(' :: arguments := List.suffix_cons _ _
        _ <:+ s.dropWhile isNameChar := heq ▸ List.dropWhile_suffix isWhiteSpace
        _ <:+ s := List.dropWhile_suffix isNameChar
    · cases h
  · cases h

theorem afterTrivia?_suffix {s t : List Char} (h : afterTrivia? s = some t) : t <:+ s := by
  unfold afterTrivia? at h
  split at h
  · cases h
    exact (afterLine_suffix _).trans ⟨['/', '/'], rfl⟩
  · cases h
    exact (afterBlock_suffix _).trans ⟨['/', '*'], rfl⟩
  · cases h
    exact (afterLine_suffix _).trans (List.suffix_cons _ _)
  · exact (afterIgnored?_suffix h).trans ⟨['-', '>'], rfl⟩
  · split at h
    · cases h
      exact List.suffix_cons _ _
    · cases h
  · cases h

theorem readQuoted_suffix {quote : Char} {s : List Char} {p : List Char × List Char}
    (h : readQuoted quote s = some p) : p.2 <:+ s := by
  fun_induction readQuoted quote s generalizing p with
  | case1 => cases h
  | case2 c rest ih =>
    obtain ⟨q, hq, rfl⟩ := Option.map_eq_some_iff.mp h
    exact (ih hq).trans ⟨['\\', c], rfl⟩
  | case3 =>
    cases h
    exact List.suffix_cons _ _
  | case4 c rest _ _ ih =>
    obtain ⟨q, hq, rfl⟩ := Option.map_eq_some_iff.mp h
    exact (ih hq).trans (List.suffix_cons _ _)

/-! ## Tokens as they stand in a text -/

/-- The characters that are tokens by themselves. -/
def signs : List Char :=
  ['(', ')', ',', '[', ']', '\x7b', '\x7d', ';']

theorem ofSign?_eq_none {p : Char → Bool} (hp : signs.any p = false) {c : Char}
    (h : p c = true) : Kind.ofSign? c = none := by
  have hne : ∀ d ∈ signs, c ≠ d := by
    rintro d hd rfl
    exact List.any_eq_false.mp hp c hd h
  unfold Kind.ofSign?
  split
  all_goals first | rfl | exact absurd rfl (hne _ (by decide))

theorem ofSign?_of_mem_takeWhile {p : Char → Bool} (hp : signs.any p = false)
    {s : List Char} : ∀ d ∈ s.takeWhile p, Kind.ofSign? d = none :=
  fun _ hd => ofSign?_eq_none hp (List.mem_takeWhile_imp hd)

/-- What is read of a text that begins with `c`: a token as it stands there, with no sign in it
unless `c` is one. -/
structure Stands (c : Char) (s text rest : List Char) : Prop where
  eq_append : c :: s = text ++ rest
  no_sign : ∀ d ∈ text, d = c ∨ Kind.ofSign? d = none

theorem stands_takeWhile {p : Char → Bool} (hp : signs.any p = false) (c : Char)
    (s : List Char) : Stands c s (c :: s.takeWhile p) (s.dropWhile p) where
  eq_append := by rw [List.cons_append, List.takeWhile_append_dropWhile]
  no_sign := fun _ hd => (List.mem_cons.mp hd).imp_right (ofSign?_of_mem_takeWhile hp _)

theorem readLonger_stands {c : Char} {s text rest : List Char} {kind : Kind}
    (h : readLonger c s = .token kind text rest) :
    (kind = .text ∧ rest <:+ s) ∨ Stands c s text rest := by
  unfold readLonger at h
  split at h
  · cases h
    exact .inr ⟨rfl, by simp [Kind.ofSign?]⟩
  · cases h
    exact .inr ⟨rfl, by simp [Kind.ofSign?]⟩
  · split at h
    · unfold readText at h
      split at h
      · rename_i hquoted
        cases h
        exact .inl ⟨rfl, readQuoted_suffix hquoted⟩
      · cases h
    split at h
    · rename_i hdollar
      unfold readVariable at h
      split at h
      · cases h
      · cases h
        rw [hdollar]
        exact .inr (stands_takeWhile (by decide) '$' s)
    split at h
    · unfold readNumber at h
      dsimp only at h
      split at h
      · cases h
      · cases h
        exact .inr (stands_takeWhile (by decide) c s)
    split at h
    · cases h
      exact .inr (stands_takeWhile (by decide) c s)
    · cases h

theorem readToken_suffix {c : Char} {s text rest : List Char} {kind : Kind}
    (h : readToken c s = .token kind text rest) : rest <:+ c :: s := by
  unfold readToken at h
  split at h
  · cases h
    exact List.suffix_cons _ _
  · rcases readLonger_stands h with ⟨-, hrest⟩ | hstands
    · exact hrest.trans (List.suffix_cons _ _)
    · exact ⟨text, hstands.eq_append.symm⟩

/-- A token that is no text in quotes stands in the text as it is, and a sign in it is all of it. -/
theorem readToken_stands {c : Char} {s text rest : List Char} {kind : Kind}
    (h : readToken c s = .token kind text rest) (hkind : kind ≠ .text) :
    c :: s = text ++ rest ∧
      ∀ d ∈ text, ∀ k, Kind.ofSign? d = some k → kind = k ∧ text = [d] := by
  unfold readToken at h
  split at h
  · rename_i hsign
    cases h
    refine ⟨rfl, fun d hd k hk => ?_⟩
    rw [List.mem_singleton.mp hd] at hk ⊢
    rw [hsign] at hk
    exact ⟨Option.some.inj hk, rfl⟩
  · rename_i hnone
    rcases readLonger_stands h with ⟨htext, -⟩ | hstands
    · exact absurd htext hkind
    · refine ⟨hstands.eq_append, fun d hd k hk => ?_⟩
      rcases hstands.no_sign d hd with rfl | hd'
      · rw [hnone] at hk
        cases hk
      · rw [hd'] at hk
        cases hk

/-! ## Stretches -/

/-- A stretch of a text. -/
inductive Stretch
  | /-- Characters that no token is read from. -/ gap (text : List Char)
  | token (kind : Kind) (text : List Char)
  deriving DecidableEq, Repr

namespace Stretch

/-- The characters of a stretch, as they stand there. -/
def text : Stretch → List Char
  | gap text => text
  | token _ text => text

def kind? : Stretch → Option Kind
  | gap _ => none
  | token kind _ => some kind

end Stretch

/-- What stands before the rest of a text. -/
def before (s rest : List Char) : List Char :=
  s.take (s.length - rest.length)

theorem before_append {s rest : List Char} (h : rest <:+ s) : before s rest ++ rest = s := by
  obtain ⟨front, rfl⟩ := h
  unfold before
  rw [List.length_append, Nat.add_sub_cancel, List.take_left]

theorem before_of_append (front rest : List Char) : before (front ++ rest) rest = front := by
  unfold before
  rw [List.length_append, Nat.add_sub_cancel, List.take_left]

/-- The stretches of a text. What follows a place where no token can be read is one of them. -/
def layout (s : List Char) : List Stretch :=
  match _h : afterTrivia? s with
  | some rest => .gap (before s rest) :: layout rest
  | none =>
    match s with
    | [] => []
    | c :: more =>
      match _r : readToken c more with
      | .token kind _ rest => .token kind (before (c :: more) rest) :: layout rest
      | .unrecognized _ => [.gap (c :: more)]
termination_by s.length
decreasing_by
  · exact length_afterTrivia?_lt _h
  · exact length_readToken_lt _r

/-- Laying out a text loses no character. -/
theorem text_layout (s : List Char) : (layout s).flatMap Stretch.text = s := by
  fun_induction layout s with
  | case1 s rest hskip ih =>
    rw [List.flatMap_cons, ih]
    exact before_append (afterTrivia?_suffix hskip)
  | case2 => rfl
  | case3 c more _ kind _ rest hread ih =>
    rw [List.flatMap_cons, ih]
    exact before_append (readToken_suffix hread)
  | case4 c more => exact List.flatMap_singleton _ _

/-- The stretches that are tokens are those that are read. -/
theorem kinds_layout (total : Nat) (s : List Char) :
    (layout s).filterMap Stretch.kind? = (tokensFrom total s).tokens.map Token.kind := by
  fun_induction layout s with
  | case1 s rest hskip ih =>
    rw [tokensFrom_congr (skipTrivia_of_some hskip), ← ih]
    rfl
  | case2 =>
    rw [tokensFrom_nil]
    rfl
  | case3 c more hstart kind _ rest hread ih =>
    rw [tokensFrom_token hstart hread, List.map_cons, ← ih]
    rfl
  | case4 c more hstart _ hread =>
    rw [tokensFrom_unrecognized hstart hread]
    rfl

/-- A sign that stands in a token but for a text in quotes is the whole token. -/
theorem sign_of_mem_layout {s chars : List Char} {kind : Kind} (h : .token kind chars ∈ layout s)
    (hkind : kind ≠ .text) : ∀ d ∈ chars, ∀ k, Kind.ofSign? d = some k → kind = k ∧ chars = [d] := by
  fun_induction layout s with
  | case1 s rest _ ih =>
    rcases List.mem_cons.mp h with heq | hmem
    · cases heq
    · exact ih hmem
  | case2 => cases h
  | case3 c more _ _ _ rest hread ih =>
    rcases List.mem_cons.mp h with heq | hmem
    · cases heq
      obtain ⟨happend, hsigns⟩ := readToken_stands hread hkind
      rw [happend, before_of_append]
      exact hsigns
    · exact ih hmem
  | case4 c more => cases List.mem_singleton.mp h

end SchemaBridge.Statement
