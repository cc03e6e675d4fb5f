/-
  An account of a text: gaps, between them tokens as they are written, and at the end either a last
  gap or a place where no token is written. Gaps and tokens go on as far as they can, so that a text
  has one account, and it is what the reader gives.
  Main result: `tokens_account_for_text`.
-/
import SchemaBridge.Proofs.Statement.Gap
import SchemaBridge.Proofs.Statement.Reader
import SchemaBridge.Proofs.Statement.Spelling

namespace SchemaBridge.Statement

open Text

/-- An account of a text from a place on: its tokens, each at its place, and the place where no
token is written, if there is one before the end. -/
inductive Accounts : Nat → List Char → List (Token Kind) → Option Nat → Prop
  | finish {place : Nat} {gap : List Char} (hgap : LastGap gap) : Accounts place gap [] none
  | failure {place : Nat} {gap rest : List Char} (hgap : Gap gap) (hbare : Bare rest)
      (hne : rest ≠ []) (htokenless : Tokenless rest) :
      Accounts place (gap ++ rest) [] (some (place + byteLength gap))
  | token {place : Nat} {gap written rest : List Char} {t : Token Kind} {ts : List (Token Kind)}
      {failure : Option Nat} (hgap : Gap gap) (hbare : Bare (written ++ rest))
      (hoffset : t.offset = place + byteLength gap)
      (htakes : Takes t.kind t.text.toList written rest)
      (hrest : Accounts (t.offset + byteLength written) rest ts failure) :
      Accounts place (gap ++ (written ++ rest)) (t :: ts) failure

variable {s rest whole : List Char} {place : Nat} {ts : List (Token Kind)} {failure : Option Nat}

/-! ## The one account of a text -/

/-- What is read gives an account. -/
theorem tokensFrom_accounts (h : RestAt whole s place) :
    Accounts place s (tokensFrom (byteLength whole) s).tokens
      ((tokensFrom (byteLength whole) s).failure.map LexFailure.offset) := by
  generalize htotal : byteLength whole = total
  fun_induction tokensFrom total s generalizing place with
  | case1 s hs =>
    obtain ⟨gap, hgap, hlast⟩ := exists_gap s
    rw [hs, List.append_nil] at hgap
    rw [hgap]
    exact .finish (hlast.elim .closed And.right)
  | case2 s c more hs offset kind chars rest hread tail =>
    rename_i ih
    obtain ⟨gap, rfl, hgap, hbare⟩ := exists_gap_cons hs
    obtain ⟨written, hwritten, htakes⟩ := readToken_eq_token_iff.mp hread
    -- the reader counts places from the end of the text, the account from its beginning
    have hoffset : offset = place + byteLength gap := by rw [(h.behind gap).eq_sub, htotal]
    rw [← hwritten] at h hbare ⊢
    have hrest : RestAt whole rest (offset + byteLength written) := by
      rw [hoffset]
      exact (h.behind gap).behind written
    refine .token hgap hbare hoffset ?_ (ih hrest)
    rwa [String.toList_ofList]
  | case3 s c more hs offset chars =>
    rename_i hread
    obtain ⟨gap, rfl, hgap, hbare⟩ := exists_gap_cons hs
    have hoffset : offset = place + byteLength gap := by rw [(h.behind gap).eq_sub, htotal]
    rw [Option.map_some, hoffset]
    exact .failure hgap hbare (List.cons_ne_nil _ _) (tokenless_iff.mpr ⟨chars, hread⟩)

/-- Before a place where the text is bare, a gap does not count. -/
theorem tokensFrom_gap {gap : List Char} (hgap : Gap gap) (hbare : Bare rest) (total : Nat) :
    tokensFrom total (gap ++ rest) = tokensFrom total rest :=
  tokensFrom_congr (by rw [hgap.skipTrivia_append hbare, skipTrivia_of_none (bare_iff.mp hbare)])
    total

namespace Accounts

/-- There is no other account than what is read. -/
theorem eq_tokensFrom (h : Accounts place s ts failure) (hplace : RestAt whole s place) :
    ts = (tokensFrom (byteLength whole) s).tokens ∧
      failure = (tokensFrom (byteLength whole) s).failure.map LexFailure.offset := by
  induction h with
  | finish hgap =>
    have hend : skipTrivia [] = [] := skipTrivia_of_none rfl
    rw [tokensFrom_congr (hgap.skipTrivia_eq.trans hend.symm), tokensFrom_nil]
    exact ⟨rfl, rfl⟩
  | failure hgap hbare hne htokenless =>
    obtain ⟨c, more, rfl⟩ := List.exists_cons_of_ne_nil hne
    obtain ⟨text, hread⟩ := tokenless_iff.mp htokenless
    rw [tokensFrom_gap hgap hbare, tokensFrom_unrecognized (bare_iff.mp hbare) hread,
      (hplace.behind _).eq_sub]
    exact ⟨rfl, rfl⟩
  | @token _ gap written rest t _ _ hgap hbare hoffset htakes _ ih =>
    have hstart : RestAt whole (written ++ rest) t.offset := hoffset ▸ hplace.behind gap
    obtain ⟨hts, hfailure⟩ := ih (hstart.behind written)
    obtain ⟨c, more, hwritten⟩ := List.exists_cons_of_ne_nil
      (List.append_ne_nil_of_left_ne_nil htakes.writes.ne_nil rest)
    have hread := readToken_eq_token_iff.mpr ⟨written, hwritten, htakes⟩
    rw [tokensFrom_gap hgap hbare]
    rw [hwritten] at hbare hstart ⊢
    rw [tokensFrom_token (bare_iff.mp hbare) hread, ← hts, ← hstart.eq_sub, String.ofList_toList]
    exact ⟨rfl, hfailure⟩

/-! ## Places -/

theorem le_places (h : Accounts place s ts failure) :
    ∀ p ∈ ts.map Token.offset ++ failure.toList, place ≤ p := by
  induction h with
  | finish => exact List.forall_mem_nil _
  | failure => exact List.forall_mem_singleton.mpr (Nat.le_add_right _ _)
  | token _ _ hoffset _ _ ih =>
    rw [List.map_cons, List.cons_append, List.forall_mem_cons]
    refine ⟨by omega, fun p hp => ?_⟩
    have hle := ih p hp
    omega

/-- Each token stands before those that follow it and before the failure. -/
theorem ascending (h : Accounts place s ts failure) :
    (ts.map Token.offset ++ failure.toList).Pairwise (· < ·) := by
  induction h with
  | finish => exact .nil
  | failure => exact List.pairwise_singleton _ _
  | @token _ _ written _ _ _ _ _ _ _ htakes hrest ih =>
    have hsize : 0 < byteLength written := byteLength_pos htakes.writes.ne_nil
    rw [List.map_cons, List.cons_append, List.pairwise_cons]
    refine ⟨fun p hp => ?_, ih⟩
    have hle := hrest.le_places p hp
    omega

theorem heads (h : Accounts place s ts failure) (hplace : RestAt whole s place) :
    ∀ t ∈ ts, ∃ behind, RestAt whole behind t.offset ∧ Heads t.kind t.text.toList behind := by
  induction h with
  | finish | failure => exact List.forall_mem_nil _
  | @token _ gap written rest t _ _ _ _ hoffset htakes _ ih =>
    have hstart : RestAt whole (written ++ rest) t.offset := hoffset ▸ hplace.behind gap
    refine List.forall_mem_cons.mpr ⟨⟨_, hstart, ?_⟩, ih (hstart.behind written)⟩
    exact htakes.writes.heads rest

theorem tokenless (h : Accounts place s ts failure) (hplace : RestAt whole s place) :
    ∀ f ∈ failure, ∃ behind, RestAt whole behind f ∧ behind ≠ [] ∧ Tokenless behind := by
  induction h with
  | finish => exact nofun
  | @failure _ gap rest _ _ hne htokenless =>
    rintro f ⟨⟩
    exact ⟨rest, hplace.behind gap, hne, htokenless⟩
  | @token _ gap written rest t _ _ _ _ hoffset _ _ ih =>
    have hstart : RestAt whole (written ++ rest) t.offset := hoffset ▸ hplace.behind gap
    exact ih (hstart.behind written)

end Accounts

/-! ## The reader -/

/-- The reader loses nothing and invents nothing. Its calls answer the tokens of the text, then the
failure, if there is one, and from then on nothing; no count of parentheses is taken below zero on
the way. The text has one account: gaps and between them the tokens, up to the end of the text or to
the failure. So the tokens ascend and each stands at its place as it is, or in quotes, and a failure
is behind them all, where no token is written. -/
theorem tokens_account_for_text (text : String) :
    (∀ n, ByPlace.answer text.toList n (.standing 0) =
      some ((tokenize text).tokens.map .ok ++ (tokenize text).failure.toList.map .error)[n]?) ∧
    (∀ arguments, ByPlace.guardedClosing 0 none false 0 ('(' :: arguments) =
      some (ByPlace.closing 0 none false 0 ('(' :: arguments))) ∧
    (∀ tokens failure, Accounts 0 text.toList tokens failure ↔ tokens = (tokenize text).tokens ∧
      failure = (tokenize text).failure.map LexFailure.offset) ∧
    ((tokenize text).tokens.map Token.offset).Pairwise (· < ·) ∧
    (∀ t ∈ (tokenize text).tokens, ∃ behind, RestAt text.toList behind t.offset ∧
      Heads t.kind t.text.toList behind) ∧
    ∀ f ∈ (tokenize text).failure, (∀ t ∈ (tokenize text).tokens, t.offset < f.offset) ∧
      ∃ behind, RestAt text.toList behind f.offset ∧ behind ≠ [] ∧ Tokenless behind := by
  have hstart := restAt_start text.toList
  have haccount : Accounts 0 text.toList (tokenize text).tokens
      ((tokenize text).failure.map LexFailure.offset) := tokensFrom_accounts hstart
  obtain ⟨htokens, -, hbefore⟩ := List.pairwise_append.mp haccount.ascending
  refine ⟨ByPlace.answer_eq text, ByPlace.guardedClosing_eq, fun tokens failure => ⟨?_, ?_⟩,
    htokens, haccount.heads hstart, fun f hf => ?_⟩
  · exact fun h => h.eq_tokensFrom hstart
  · rintro ⟨rfl, rfl⟩
    exact haccount
  · have hoffset : f.offset ∈ (tokenize text).failure.map LexFailure.offset :=
      Option.mem_map_of_mem _ hf
    refine ⟨fun t ht => ?_, haccount.tokenless hstart _ hoffset⟩
    exact hbefore _ (List.mem_map_of_mem ht) _ (Option.mem_toList.mpr hoffset)

/-- A call that is left out with a parenthesis in its quotes, a text with an escaped quote, and a
character that begins no token. -/
def strayText : String :=
  "$t->default('a)') 'é\\'' // b\n@ c"

/-- The third call fails at the stray character, and those behind it answer nothing. -/
theorem tokens_account_for_stray :
    (tokenize strayText).tokens = [⟨.tableVar, "$t", 0⟩, ⟨.text, "é'", 18⟩] ∧
    (tokenize strayText).failure = some ⟨"@", 30⟩ ∧
    ByPlace.answer strayText.toList 2 (.standing 0) = some (some (.error ⟨"@", 30⟩)) ∧
    ByPlace.answer strayText.toList 3 (.standing 0) = some none ∧
    Accounts 0 strayText.toList [⟨.tableVar, "$t", 0⟩, ⟨.text, "é'", 18⟩] (some 30) ∧
    (∃ behind, RestAt strayText.toList behind 18 ∧ Heads .text "é'".toList behind) ∧
    ∃ behind, RestAt strayText.toList behind 30 ∧ behind ≠ [] ∧ Tokenless behind := by
  have htokens : (tokenize strayText).tokens = [⟨.tableVar, "$t", 0⟩, ⟨.text, "é'", 18⟩] := by
    decide +kernel
  have hfailure : (tokenize strayText).failure = some ⟨"@", 30⟩ := by decide +kernel
  obtain ⟨hanswer, -, haccount, -, hheads, hfails⟩ := tokens_account_for_text strayText
  rw [htokens, hfailure] at hanswer
  rw [htokens] at hheads
  have hplace : some 30 = (tokenize strayText).failure.map LexFailure.offset := by
    rw [hfailure]
    rfl
  exact ⟨htokens, hfailure, hanswer 2, hanswer 3, (haccount _ _).mpr ⟨htokens.symm, hplace⟩,
    hheads ⟨.text, "é'", 18⟩ (List.mem_cons_of_mem _ List.mem_cons_self), (hfails _ hfailure).2⟩

end SchemaBridge.Statement
