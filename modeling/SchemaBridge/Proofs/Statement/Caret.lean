/-
  Where an error points. Every token stands at its place in the text, as it is or in quotes, and so
  do the characters where no token can be read; an error tells the place and the token where the
  text fails, or the end of the text and no token. The caret stands below that place, in a line of
  its own behind the line of the text that holds it.
  Main result: `Schema.migrate_error_points`.
-/
import SchemaBridge.Proofs.Statement.Acceptance
import SchemaBridge.Proofs.Statement.Places
import SchemaBridge.Proofs.Statement.Spelling

namespace SchemaBridge.Statement

open Text

/-! ## Lines -/

/-- The place stands in a line of the text, between two parts of it. -/
def InLine (s : List Char) (place : Nat) (left right : List Char) : Prop :=
  ∃ head tail, s = head ++ (left ++ right) ++ tail ∧ place = byteLength (head ++ left) ∧
    '\n' ∉ left ++ right ∧ (head = [] ∨ head.getLast? = some '\n') ∧
    (tail = [] ∨ tail.head? = some '\n')

theorem exists_tail (s : List Char) : ∃ tail, s = s.takeWhile (· != '\n') ++ tail ∧
    '\n' ∉ s.takeWhile (· != '\n') ∧ (tail = [] ∨ tail.head? = some '\n') := by
  induction s with
  | nil => exact ⟨[], rfl, List.not_mem_nil, .inl rfl⟩
  | cons c rest ih =>
    rw [List.takeWhile_cons]
    split
    · rename_i hc
      obtain ⟨tail, hrest, hline, htail⟩ := ih
      refine ⟨tail, by rw [List.cons_append, ← hrest], ?_, htail⟩
      rw [List.mem_cons, not_or]
      exact ⟨Ne.symm (bne_iff_ne.mp hc), hline⟩
    · rename_i hc
      have hbreak : c = '\n' := by simpa using hc
      exact ⟨c :: rest, rfl, List.not_mem_nil, .inr (congrArg some hbreak)⟩

theorem exists_head (s : List Char) : ∃ head, s = head ++ lastLine s ∧ '\n' ∉ lastLine s ∧
    (head = [] ∨ head.getLast? = some '\n') := by
  obtain ⟨tail, hs, hline, htail⟩ := exists_tail s.reverse
  refine ⟨tail.reverse, ?_, by rwa [lastLine, List.mem_reverse], ?_⟩
  · rw [lastLine, ← List.reverse_append, ← hs, List.reverse_reverse]
  · rwa [List.reverse_eq_nil_iff, List.getLast?_reverse]

/-- A caret below a place in a line. -/
def caretBelow (left right : List Char) : List Char :=
  left ++ right ++ '\n' :: List.replicate (width left) ' ' ++ ['^']

theorem caret_of_cut {e : ReadError} {before behind : List Char}
    (hstatement : e.statement.toList = before ++ behind) (hoffset : e.offset = byteLength before) :
    ∃ left right, InLine e.statement.toList e.offset left right ∧
      e.caret = some (String.ofList (caretBelow left right)) := by
  obtain ⟨head, hbefore, hleft, hhead⟩ := exists_head before
  obtain ⟨tail, hbehind, hright, htail⟩ := exists_tail behind
  refine ⟨lastLine before, behind.takeWhile (· != '\n'), ⟨head, tail, ?_, ?_, ?_, hhead, htail⟩, ?_⟩
  · calc
      e.statement.toList = before ++ behind := hstatement
      _ = (head ++ lastLine before) ++ (behind.takeWhile (· != '\n') ++ tail) := by
        rw [← hbefore, ← hbehind]
      _ = _ := by simp only [List.append_assoc]
  · rw [← hbefore, hoffset]
  · rw [List.mem_append, not_or]
    exact ⟨hleft, hright⟩
  · rw [ReadError.caret, cut_eq_some_iff.mpr ⟨hstatement, hoffset⟩, caretBelow]
    rfl

namespace ByPlace

/-- The place of the last character of a sort. -/
def findLast (p : Char → Bool) : List Char → Option Nat
  | [] => none
  | c :: rest =>
    match findLast p rest with
    | some i => some (c.utf8Size + i)
    | none => if p c then some 0 else none

/-- The caret, from slices of the statement. The inner `none` is an error without a caret. -/
def caret (statement : List Char) (offset : Nat) : Option (Option (List Char)) :=
  match sliceTo statement offset with
  | none => some none
  | some before => do
    let start := (findLast (· == '\n') before).elim 0 (· + 1)
    let rest ← sliceFrom statement offset
    let finish := (findChar (· == '\n') rest).elim (byteLength statement) (offset + ·)
    let line ← slice statement start finish
    let left ← slice statement start offset
    return some (line ++ '\n' :: List.replicate (width left) ' ' ++ ['^'])

theorem findLast_eq_none {p : Char → Bool} {s : List Char} (hs : ∀ d ∈ s, p d = false) :
    findLast p s = none := by
  induction s with
  | nil => rfl
  | cons c rest ih =>
    rw [List.forall_mem_cons] at hs
    rw [findLast, ih hs.2, hs.1]
    rfl

theorem findLast_append {p : Char → Bool} {c : Char} (hc : p c = true) {a b : List Char}
    (hb : ∀ d ∈ b, p d = false) : findLast p (a ++ c :: b) = some (byteLength a) := by
  induction a with
  | nil =>
    rw [List.nil_append, findLast, findLast_eq_none hb, hc]
    rfl
  | cons d rest ih =>
    rw [List.cons_append, findLast, ih]
    rfl

/-- Behind the last line feed the last line begins. -/
theorem findLast_newline {head line : List Char} (hline : '\n' ∉ line)
    (hhead : head = [] ∨ head.getLast? = some '\n') :
    (findLast (· == '\n') (head ++ line)).elim 0 (· + 1) = byteLength head := by
  have hnone : ∀ d ∈ line, (d == '\n') = false := fun d hd =>
    beq_eq_false_iff_ne.mpr fun hbreak => hline (hbreak ▸ hd)
  rcases hhead with rfl | hlast
  · rw [List.nil_append, findLast_eq_none hnone]
    rfl
  · obtain ⟨front, rfl⟩ := List.getLast?_eq_some_iff.mp hlast
    rw [List.append_assoc, List.singleton_append, findLast_append rfl hnone, byteLength_append]
    rfl

/-- Before the next line feed, or at the end of the text, the line ends. -/
theorem findChar_newline (s : List Char) (place : Nat) :
    (findChar (· == '\n') s).elim (place + byteLength s) (place + ·) =
      place + byteLength (s.takeWhile (· != '\n')) := by
  have hchars : (fun c => c == '\n') = fun c : Char => !(c != '\n') :=
    funext fun c => (Bool.not_not _).symm
  rw [← findChar_eq, hchars]
  cases findChar (fun c => !(c != '\n')) s <;> rfl

/-- The next line feed ends a line. -/
theorem takeWhile_line {line tail : List Char} (hline : '\n' ∉ line)
    (htail : tail = [] ∨ tail.head? = some '\n') :
    (line ++ tail).takeWhile (· != '\n') = line := by
  have hchars : ∀ d ∈ line, (d != '\n') = true := fun d hd =>
    bne_iff_ne.mpr fun hbreak => hline (hbreak ▸ hd)
  rcases htail with rfl | hhead
  · rw [List.append_nil]
    exact List.takeWhile_eq_self_iff.mpr hchars
  · obtain ⟨rest, rfl⟩ := List.head?_eq_some_iff.mp hhead
    exact takeWhile_append_cons hchars rfl

/-- In a line the caret is drawn, and no slice is missing. -/
theorem caret_of_inLine {s left right : List Char} {place : Nat} (h : InLine s place left right) :
    caret s place = some (some (caretBelow left right)) := by
  obtain ⟨head, tail, hs, rfl, hline, hhead, htail⟩ := h
  rw [List.mem_append, not_or] at hline
  have hstart : RestAt s (left ++ (right ++ tail)) (byteLength head) := ⟨head, by simp [hs], rfl⟩
  have hplace : RestAt s (right ++ tail) (byteLength (head ++ left)) :=
    ⟨head ++ left, by simp [hs], rfl⟩
  have hwhole : RestAt s (left ++ right ++ tail) (byteLength head) := ⟨head, by simp [hs], rfl⟩
  have hbefore : sliceTo s (byteLength (head ++ left)) = some (head ++ left) := by
    rw [hs, ← List.append_assoc, List.append_assoc _ right]
    exact sliceTo_append _ _
  have hright : (right ++ tail).takeWhile (· != '\n') = right := takeWhile_line hline.2 htail
  have htotal : byteLength s = byteLength (head ++ left) + byteLength (right ++ tail) := by
    simp only [hs, byteLength_append]
    omega
  have hline' := hwhole.slice_eq
  rw [byteLength_append, ← Nat.add_assoc, ← byteLength_append] at hline'
  have hleft := hstart.slice_eq
  rw [← byteLength_append] at hleft
  simp only [caret, hbefore, hplace.from_eq, Option.bind_eq_bind, Option.bind_some,
    findLast_newline hline.1 hhead, htotal, findChar_newline, hright, hline', hleft]
  rfl

theorem caret_eq (e : ReadError) :
    caret e.statement.toList e.offset = some (e.caret.map String.toList) := by
  cases hcut : cut e.statement.toList e.offset with
  | none =>
    rw [caret, sliceTo, ReadError.caret, hcut]
    rfl
  | some parts =>
    obtain ⟨hstatement, hoffset⟩ := cut_eq_some_iff.mp hcut
    obtain ⟨left, right, hline, hcaret⟩ := caret_of_cut hstatement hoffset
    rw [caret_of_inLine hline, hcaret, Option.map_some, String.toList_ofList]

end ByPlace

/-! ## Tokens -/

/-- The token stands at the head of the text, as it is or in quotes. -/
def HeadedBy (token s : List Char) : Prop :=
  (token ≠ [] ∧ token <+: s) ∨
    ∃ quote more rest, (quote = '\'' ∨ quote = '"') ∧ s = quote :: more ∧
      readQuoted quote more = some (token, rest)

variable {c : Char} {s text rest : List Char} {kind : Kind}

theorem readToken_headed (h : readToken c s = .token kind text rest) : HeadedBy text (c :: s) := by
  obtain ⟨written, hs, hwrites⟩ := readToken_writes h
  obtain ⟨hplain, hquoted⟩ := hwrites.heads rest
  rw [hs]
  by_cases hkind : kind = .text
  · obtain ⟨quote, inner, behind, hquote, hinner, hescapes⟩ := hquoted hkind
    exact .inr ⟨quote, _, behind, hquote, hinner,
      readQuoted_of_escapes hescapes (not_escape_of_quote hquote) behind⟩
  · exact .inl (hplain hkind)

theorem firstLine_quote (hquote : c = '\'' ∨ c = '"') :
    firstLine (c :: s) ≠ [] ∧ firstLine (c :: s) <+: c :: s := by
  have hbreak : c ≠ '\n' := by rcases hquote with rfl | rfl <;> decide
  have hreturn : c ≠ '\r' := by rcases hquote with rfl | rfl <;> decide
  have hline : (c :: s).takeWhile (· != '\n') = c :: s.takeWhile (· != '\n') :=
    List.takeWhile_cons_of_pos (bne_iff_ne.mpr hbreak)
  have hprefix := List.takeWhile_prefix (· != '\n') (l := c :: s)
  unfold firstLine
  dsimp only
  rw [hline] at hprefix ⊢
  split
  · rename_i hlast
    refine ⟨fun hnil => ?_, (List.dropLast_prefix _).trans hprefix⟩
    cases hrest : s.takeWhile (· != '\n') with
    | nil =>
      rw [hrest, Bool.and_eq_true, beq_iff_eq] at hlast
      exact hreturn (Option.some.inj hlast.2)
    | cons d rest =>
      rw [hrest] at hnil
      cases hnil
  · exact ⟨List.cons_ne_nil _ _, hprefix⟩

theorem readToken_unrecognized (hc : isWhiteSpace c = false)
    (h : readToken c s = .unrecognized text) : text ≠ [] ∧ text <+: c :: s := by
  unfold readToken at h
  split at h
  · cases h
  unfold readLonger at h
  split at h
  · cases h
  · cases h
  · split at h
    · rename_i hquote
      unfold readText at h
      split at h
      · cases h
      · cases h
        exact firstLine_quote hquote
    split at h
    · rename_i hdollar
      unfold readVariable at h
      split at h
      · cases h
        exact ⟨List.cons_ne_nil _ _, s, by rw [hdollar]; rfl⟩
      · cases h
    split at h
    · unfold readNumber at h
      dsimp only at h
      split at h
      · rename_i hminus
        cases h
        exact ⟨List.cons_ne_nil _ _, s, by rw [hminus.1]; rfl⟩
      · cases h
    split at h
    · cases h
    · cases h
      refine ⟨?_, List.takeWhile_prefix _⟩
      rw [List.takeWhile_cons_of_pos (by rw [hc]; rfl)]
      exact List.cons_ne_nil _ _

/-- What is no trivia is no white space either. -/
theorem not_isWhiteSpace_of_none (h : afterTrivia? (c :: s) = none) : isWhiteSpace c = false := by
  by_contra hblank
  rw [Bool.not_eq_false] at hblank
  have hother : c ∉ ['/', '#', '-'] := by
    simp only [List.mem_cons, List.not_mem_nil, or_false]
    rintro (rfl | rfl | rfl)
    all_goals exact absurd hblank (by decide)
  rw [afterTrivia?_cons hother, if_pos hblank] at h
  cases h

/-- A text stands at a place, as it is or in quotes. -/
def StandsAt (text token : List Char) (place : Nat) : Prop :=
  ∃ s, RestAt text s place ∧ HeadedBy token s

theorem restAt_skipTrivia {whole : List Char} {place : Nat} (h : RestAt whole s place) :
    RestAt whole (skipTrivia s) (byteLength whole - byteLength (skipTrivia s)) := by
  obtain ⟨behind, -, hrest⟩ := ByPlace.skipTrivia_eq h
  rwa [← hrest.eq_sub]

theorem tokensFrom_standsAt {whole : List Char} {place : Nat} (h : RestAt whole s place) :
    (∀ t ∈ (tokensFrom (byteLength whole) s).tokens, StandsAt whole t.text.toList t.offset) ∧
      ∀ f, (tokensFrom (byteLength whole) s).failure = some f →
        StandsAt whole f.text.toList f.offset := by
  have hrest := restAt_skipTrivia h
  generalize htotal : byteLength whole = total at hrest ⊢
  fun_induction tokensFrom total s generalizing place with
  | case1 s hs =>
    refine ⟨fun t ht => absurd ht List.not_mem_nil, fun f hf => ?_⟩
    cases hf
  | case2 s c rest hs offset kind chars more hread tail =>
    rename_i ih
    rw [hs] at hrest
    obtain ⟨front, hfront⟩ := readToken_suffix hread
    have hmore : RestAt whole more _ := RestAt.behind front (hfront ▸ hrest)
    obtain ⟨htokens, hfailure⟩ := ih hmore (htotal ▸ restAt_skipTrivia hmore)
    refine ⟨List.forall_mem_cons.mpr ⟨⟨c :: rest, hrest, ?_⟩, htokens⟩, hfailure⟩
    rw [String.toList_ofList]
    exact readToken_headed hread
  | case3 s c rest hs offset chars =>
    rename_i hread
    rw [hs] at hrest
    have hstart : afterTrivia? (c :: rest) = none := hs ▸ afterTrivia?_skipTrivia s
    refine ⟨fun t ht => absurd ht List.not_mem_nil, fun f hf => ?_⟩
    cases hf
    refine ⟨c :: rest, hrest, .inl ?_⟩
    rw [String.toList_ofList]
    exact readToken_unrecognized (not_isWhiteSpace_of_none hstart) hread

/-! ## Errors -/

/-- The error points to what stands at its place, or else to the end of the text. -/
theorem FailsAt.points {text : String} {e : ReadError} (h : FailsAt text e) :
    ∃ s, RestAt text.toList s e.offset ∧ (s = [] ∧ e.token = "" ∨ HeadedBy e.token.toList s) := by
  obtain ⟨htokens, hfailures⟩ := tokensFrom_standsAt (restAt_start text.toList)
  cases h with
  | lexer hfailure =>
    obtain ⟨s, hplace, hs⟩ := hfailures _ hfailure
    exact ⟨s, hplace, .inr hs⟩
  | token hsplit =>
    obtain ⟨s, hplace, hs⟩ := htokens _ (hsplit ▸ List.mem_append_right _ List.mem_cons_self)
    exact ⟨s, hplace, .inr hs⟩
  | finish => exact ⟨[], ⟨text.toList, (List.append_nil _).symm, rfl⟩, .inl ⟨rfl, rfl⟩⟩

theorem FailsAt.statement_eq {text : String} {e : ReadError} (h : FailsAt text e) :
    e.statement = text := by
  cases h <;> rfl

/-- Operators that do not associate are not among the faults. -/
theorem FailsAt.fault_eq {text : String} {e : ReadError} (h : FailsAt text e) :
    e.fault = .misplaced ∨ e.fault = .unknownToken := by
  cases h with
  | lexer => exact .inr rfl
  | token => exact .inl rfl
  | finish => exact .inl rfl

end SchemaBridge.Statement

namespace SchemaBridge

open Statement Text

/-- A text that is no migration fails with an error that points into it: to a token where it stands,
or to the end. The caret is drawn below the line with this place, as far to the right as what stands
before it in its line is wide. Neither in reading tokens nor in drawing a caret is a slice of any
text missing. -/
theorem Schema.migrate_error_points (s : Schema) (text : String) :
    ByPlace.tokenize text = some (tokenize text) ∧
    (∀ e : ReadError,
      ByPlace.caret e.statement.toList e.offset = some (e.caret.map String.toList)) ∧
    ∀ e, s.migrate text = .error e →
      (e.fault = .misplaced ∨ e.fault = .unknownToken) ∧ e.statement = text ∧
      (∃ before behind, text.toList = before ++ behind ∧ e.offset = byteLength before ∧
        (behind = [] ∧ e.token = "" ∨ HeadedBy e.token.toList behind)) ∧
      ∃ left right, InLine text.toList e.offset left right ∧
        e.caret = some (String.ofList (caretBelow left right)) := by
  refine ⟨ByPlace.tokenize_eq text, ByPlace.caret_eq, fun e he => ?_⟩
  have hfails : FailsAt text e := by
    unfold migrate at he
    obtain ⟨-, -, statement, hread⟩ | ⟨e', hfails, hread⟩ := read_cases text
    · rw [hread] at he
      cases he
    · rw [hread] at he
      cases he
      exact hfails
  obtain ⟨behind, ⟨before, htext, hoffset⟩, hbehind⟩ := hfails.points
  refine ⟨hfails.fault_eq, hfails.statement_eq, ⟨before, behind, htext, hoffset, hbehind⟩, ?_⟩
  rw [← hfails.statement_eq] at htext ⊢
  exact caret_of_cut htext hoffset

/-- A comment, and on the second line quotes that are not closed. -/
def unclosedText : String :=
  "/* é */\n 'naïve"

/-- The error on the second line. -/
def unclosedError : ReadError :=
  ⟨.unknownToken, unclosedText, "'naïve", 10⟩

theorem migrate_unclosed : ({} : Schema).migrate unclosedText = .error unclosedError := by
  have htokens : (tokenize unclosedText).tokens = [] := by decide +kernel
  have hfailure : (tokenize unclosedText).failure = some ⟨"'naïve", 10⟩ := by decide +kernel
  obtain ⟨hnone, -⟩ | ⟨e, hfails, hread⟩ := read_cases unclosedText
  · rw [hfailure] at hnone
    cases hnone
  · cases hfails with
    | lexer hfailure' =>
      rw [hfailure] at hfailure'
      cases hfailure'
      rw [Schema.migrate, hread]
      rfl
    | token hsplit =>
      rw [htokens] at hsplit
      simp at hsplit
    | finish hnone =>
      rw [hfailure] at hnone
      cases hnone

/-- The caret stands below the quotes. -/
theorem Schema.migrate_error_points_unclosed :
    ({} : Schema).migrate unclosedText = .error unclosedError ∧
    unclosedError.caret = some " 'naïve\n ^" ∧
    (∃ before behind, unclosedText.toList = before ++ behind ∧ 10 = byteLength before ∧
      (behind = [] ∧ "'naïve" = "" ∨ HeadedBy "'naïve".toList behind)) ∧
    ∃ left right, InLine unclosedText.toList 10 left right ∧
      unclosedError.caret = some (String.ofList (caretBelow left right)) := by
  obtain ⟨-, -, hpoints, hcaret⟩ :=
    (Schema.migrate_error_points {} unclosedText).2.2 unclosedError migrate_unclosed
  exact ⟨migrate_unclosed, by decide +kernel, hpoints, hcaret⟩

end SchemaBridge
