/-
  Reading tokens by places. The reader keeps to a place in the text, counted in bytes, and looks at
  slices of the text between such places: behind characters it has passed, behind a mark it has
  searched for, behind the arguments it has counted through. Each of its loops is given as many
  turns as there are characters, and one more. None of its slices is missing, no loop runs out of
  turns, and it reads the tokens that `Statement.tokenize` reads.
  Main result: `tokenize_eq`.
-/
import SchemaBridge.Proofs.Statement.Layout
import SchemaBridge.Proofs.Text.Slice

namespace SchemaBridge.Statement.ByPlace

open Text

/-- The place where a mark first stands. -/
def findMark (mark : List Char) : List Char → Option Nat
  | [] => if mark = [] then some 0 else none
  | c :: rest =>
    if mark.isPrefixOf (c :: rest) then some 0 else (findMark mark rest).map (c.utf8Size + ·)

/-- The place where a character of a sort first stands. -/
def findChar (p : Char → Bool) : List Char → Option Nat
  | [] => none
  | c :: rest => if p c then some 0 else (findChar p rest).map (c.utf8Size + ·)

/-- The place of the closing parenthesis, in a text from place `i` on. -/
def closing (depth : Nat) (quote : Option Char) (escaped : Bool) (i : Nat) :
    List Char → Option Nat
  | [] => none
  | c :: rest =>
    match quote with
    | some q =>
      if escaped then closing depth quote false (i + c.utf8Size) rest
      else if c = '\\' then closing depth quote true (i + c.utf8Size) rest
      else if c = q then closing depth none escaped (i + c.utf8Size) rest
      else closing depth quote escaped (i + c.utf8Size) rest
    | none =>
      if c = '\'' ∨ c = '"' then closing depth (some c) escaped (i + c.utf8Size) rest
      else if c = '(' then closing (depth + 1) quote escaped (i + c.utf8Size) rest
      else if c = ')' then
        if depth - 1 = 0 then some i
        else closing (depth - 1) quote escaped (i + c.utf8Size) rest
      else closing depth quote escaped (i + c.utf8Size) rest

variable (text : List Char)

/-- The character at a place and the place behind it. -/
def next (place : Nat) : Option (Option (Char × Nat)) := do
  let rest ← sliceFrom text place
  return rest.head?.map fun c => (c, place + c.utf8Size)

/-- The turns that a loop over the text is given. -/
def turns : Nat :=
  text.length + 1

/-- The place behind the characters of a sort. `none` if the turns do not suffice, as in the loops
below. -/
def skipWhile (p : Char → Bool) : Nat → Nat → Option Nat
  | 0, _ => none
  | turns + 1, place => do
    match ← next text place with
    | some (c, behind) => if p c then skipWhile p turns behind else return place
    | none => return place

def skipLine : Nat → Nat → Option Nat
  | 0, _ => none
  | turns + 1, place => do
    match ← next text place with
    | some (c, behind) => if c = '\n' then return behind else skipLine turns behind
    | none => return place

/-- The place behind an ignored call. -/
def skipIgnoredCall (place : Nat) : Option (Option Nat) := do
  match ← sliceFrom text place with
  | '-' :: '>' :: rest =>
    let length := (findChar (fun c => !isNameChar c) rest).getD (byteLength rest)
    let name ← sliceTo rest length
    if ignoredCalls.contains name then
      let opening ← skipWhile text isWhiteSpace (turns text) (place + 2 + length)
      let arguments ← sliceFrom text opening
      if arguments.head? = some '(' then
        return (closing 0 none false 0 arguments).map fun i => opening + i + 1
      else return none
    else return none
  | _ => return none

/-- The place behind one piece of trivia. -/
def skipPiece (place : Nat) : Option (Option Nat) := do
  let rest ← sliceFrom text place
  if rest.head?.any isWhiteSpace then
    return (← next text place).map Prod.snd
  else if ['/', '/'].isPrefixOf rest ∨ ['#'].isPrefixOf rest then
    return some (← skipLine text (turns text) place)
  else if ['/', '*'].isPrefixOf rest then
    let inner ← sliceFrom rest 2
    match findMark ['*', '/'] inner with
    | some i => return some (place + (i + 4))
    | none => return some (place + byteLength rest)
  else skipIgnoredCall text place

def skipTrivia : Nat → Nat → Option Nat
  | 0, _ => none
  | turns + 1, place => do
    match ← skipPiece text place with
    | some behind => skipTrivia turns behind
    | none => return place

/-- Reads a text in quotes up to its closing quote. -/
def readQuoted (quote : Char) (offset : Nat) :
    Nat → List Char → Nat → Option (Except LexFailure (List Char × Nat))
  | 0, _, _ => none
  | turns + 1, contents, place => do
    match ← next text place with
    | some ('\\', behind) =>
      match ← next text behind with
      | some (c, after) => readQuoted quote offset turns (contents ++ [c]) after
      | none => readQuoted quote offset turns contents behind
    | some (c, behind) =>
      if c = quote then return .ok (contents, behind)
      else readQuoted quote offset turns (contents ++ [c]) behind
    | none =>
      let rest ← sliceFrom text offset
      return .error ⟨String.ofList (firstLine rest), offset⟩

/-- A token with the place behind it, or the reason why there is none. -/
abbrev Outcome :=
  Except LexFailure (Token Kind × Nat)

/-- Reads a text, given its opening quote. -/
def readText (quote : Char) (offset behind : Nat) : Option Outcome := do
  match ← readQuoted text quote offset (turns text) [] behind with
  | .ok (contents, finish) => return .ok (⟨.text, String.ofList contents, offset⟩, finish)
  | .error e => return .error e

def readVariable (offset behind : Nat) : Option Outcome := do
  let finish ← skipWhile text isNameChar (turns text) behind
  let name ← slice text behind finish
  if name = [] then return .error ⟨"$", offset⟩
  else return .ok (⟨.tableVar, String.ofList (← slice text offset finish), offset⟩, finish)

def readNumber (c : Char) (offset behind : Nat) : Option Outcome := do
  let finish ← skipWhile text isNumberChar (turns text) behind
  let number ← slice text behind finish
  if c = '-' ∧ number = [] then return .error ⟨"-", offset⟩
  else return .ok (⟨.number, String.ofList (← slice text offset finish), offset⟩, finish)

def readWord (offset : Nat) : Option Outcome := do
  let finish ← skipWhile text isWordChar (turns text) offset
  let word ← slice text offset finish
  return .ok (⟨.ofWord word, String.ofList word, offset⟩, finish)

def readUnknown (offset : Nat) : Option Outcome := do
  let finish ← skipWhile text (fun d => !isWhiteSpace d) (turns text) offset
  return .error ⟨String.ofList (← slice text offset finish), offset⟩

/-- Reads what is no sign of one character. -/
def readLonger (c : Char) (offset behind : Nat) : Option Outcome := do
  let rest ← sliceFrom text offset
  if [':', ':'].isPrefixOf rest then
    return .ok (⟨.doubleColon, "::", offset⟩, offset + 2)
  else if ['-', '>'].isPrefixOf rest then
    return .ok (⟨.arrow, "->", offset⟩, offset + 2)
  else if c = '\'' ∨ c = '"' then readText text c offset behind
  else if c = '$' then readVariable text offset behind
  else if c.isDigit ∨ c = '-' then readNumber text c offset behind
  else if beginsWord c then readWord text offset
  else readUnknown text offset

/-- Reads the next token, if there is one. -/
def readToken (place : Nat) : Option (Option Outcome) := do
  let offset ← skipTrivia text (turns text) place
  match ← next text offset with
  | none => return none
  | some (c, behind) =>
    match Kind.ofSign? c with
    | some kind => return some (.ok (⟨kind, String.ofList [c], offset⟩, behind))
    | none => return some (← readLonger text c offset behind)

/-- Reads the tokens from a place on. -/
def tokensFrom : Nat → Nat → Option (Source Kind LexFailure)
  | 0, _ => none
  | turns + 1, place => do
    match ← readToken text place with
    | none => return ⟨[], none⟩
    | some (.error e) => return ⟨[], some e⟩
    | some (.ok (token, behind)) =>
      let tail ← tokensFrom turns behind
      return { tail with tokens := token :: tail.tokens }

/-! ## Nothing is sliced amiss -/

variable {text} {s rest : List Char} {c : Char} {place : Nat}

/-- What is left of the text has fewer characters than there are turns. -/
theorem length_lt_turns (h : RestAt text s place) : s.length < turns text := by
  obtain ⟨before, rfl, -⟩ := h
  rw [turns, List.length_append]
  omega

theorem next_nil (h : RestAt text [] place) : next text place = some none := by
  rw [next, h.from_eq]
  rfl

theorem next_cons (h : RestAt text (c :: rest) place) :
    next text place = some (some (c, place + c.utf8Size)) := by
  rw [next, h.from_eq]
  rfl

theorem skipWhile_of_lt (p : Char → Bool) {limit : Nat} (h : RestAt text s place)
    (hlimit : s.length < limit) :
    skipWhile text p limit place = some (place + byteLength (s.takeWhile p)) := by
  induction limit generalizing s place with
  | zero => exact absurd hlimit (Nat.not_lt_zero _)
  | succ limit ih =>
    cases s with
    | nil =>
      rw [skipWhile, next_nil h]
      rfl
    | cons c rest =>
      rw [skipWhile, next_cons h, List.takeWhile_cons]
      dsimp only [bind, Option.bind]
      split
      · rw [ih h.tail (Nat.lt_of_succ_lt_succ hlimit), byteLength_cons, Nat.add_assoc]
      · rfl

theorem skipWhile_eq (p : Char → Bool) (h : RestAt text s place) :
    skipWhile text p (turns text) place = some (place + byteLength (s.takeWhile p)) :=
  skipWhile_of_lt p h (length_lt_turns h)

theorem skipLine_eq {limit : Nat} (h : RestAt text s place) (hlimit : s.length < limit) :
    ∃ behind, skipLine text limit place = some behind ∧ RestAt text (afterLine s) behind := by
  induction limit generalizing s place with
  | zero => exact absurd hlimit (Nat.not_lt_zero _)
  | succ limit ih =>
    cases s with
    | nil =>
      rw [skipLine, next_nil h]
      exact ⟨place, rfl, h⟩
    | cons c rest =>
      rw [skipLine, next_cons h, afterLine]
      dsimp only [bind, Option.bind]
      split
      · exact ⟨_, rfl, h.tail⟩
      · exact ih h.tail (Nat.lt_of_succ_lt_succ hlimit)

theorem findChar_eq (p : Char → Bool) (s : List Char) :
    (findChar (fun c => !p c) s).getD (byteLength s) = byteLength (s.takeWhile p) := by
  induction s with
  | nil => rfl
  | cons c rest ih =>
    rw [findChar, List.takeWhile_cons]
    cases hc : p c with
    | false => rfl
    | true =>
      rw [if_neg (by simp), if_pos rfl, byteLength_cons, byteLength_cons, ← ih]
      cases findChar (fun c => !p c) rest <;> rfl

theorem findMark_eq (s : List Char) :
    (∃ front rest, s = front ++ '*' :: '/' :: rest ∧ afterBlock s = rest ∧
      findMark ['*', '/'] s = some (byteLength front)) ∨
    (afterBlock s = [] ∧ findMark ['*', '/'] s = none) := by
  fun_induction afterBlock s with
  | case1 rest => exact .inl ⟨[], rest, rfl, rfl, rfl⟩
  | case2 c rest hno ih =>
    have hprefix : ['*', '/'].isPrefixOf (c :: rest) = false := by
      rw [Bool.eq_false_iff]
      intro hmark
      obtain ⟨more, hmore⟩ := List.isPrefixOf_iff_prefix.mp hmark
      obtain ⟨hc, hrest⟩ := List.cons.inj hmore
      exact hno more hc.symm hrest.symm
    rw [findMark, hprefix, if_neg Bool.false_ne_true]
    rcases ih with ⟨front, more, rfl, hafter, hfind⟩ | ⟨hafter, hfind⟩
    · exact .inl ⟨c :: front, more, rfl, hafter, by rw [hfind]; rfl⟩
    · exact .inr ⟨hafter, by rw [hfind]; rfl⟩
  | case3 => exact .inr ⟨rfl, rfl⟩

/-- The end of a call, as the text after it and as the place of its parenthesis. -/
inductive Closes : List Char → Nat → Option (List Char) → Option Nat → Prop
  | found (front rest : List Char) (i : Nat) :
      Closes (front ++ ')' :: rest) i (some rest) (some (i + byteLength front))
  | unclosed (s : List Char) (i : Nat) : Closes s i none none

theorem Closes.cons {i : Nat} {after : Option (List Char)} {found : Option Nat}
    (h : Closes rest (i + c.utf8Size) after found) : Closes (c :: rest) i after found := by
  cases h with
  | found front rest =>
    have hfound := Closes.found (c :: front) rest i
    rwa [byteLength_cons, ← Nat.add_assoc] at hfound
  | unclosed => exact .unclosed _ _

/-- How a reader of arguments remembers that it is in quotes. -/
def remembered : Quoting → Option Char × Bool
  | .plain => (none, false)
  | .inside quote => (some quote, false)
  | .escaped quote => (some quote, true)

theorem closing_eq (depth : Nat) (quoting : Quoting) (s : List Char) (i : Nat) :
    Closes s i (afterCall depth quoting s)
      (closing (depth + 1) (remembered quoting).1 (remembered quoting).2 i s) := by
  fun_induction afterCall depth quoting s generalizing i with
  | case1 => exact .unclosed _ _
  | case2 depth c rest quote ih => exact (ih _).cons
  | case3 depth rest quote ih => exact (ih _).cons
  | case4 depth c rest hescape ih =>
    simp only [remembered, closing, Bool.false_eq_true, if_false, if_neg hescape, if_true]
    exact (ih _).cons
  | case5 depth c rest quote hescape hquote ih =>
    simp only [remembered, closing, Bool.false_eq_true, if_false, if_neg hescape, if_neg hquote]
    exact (ih _).cons
  | case6 depth c rest hquote ih =>
    simp only [remembered, closing]
    rw [if_pos (by simpa using hquote)]
    exact (ih _).cons
  | case7 depth rest hquote ih => exact (ih _).cons
  | case8 rest hquote hopen => exact .found [] rest i
  | case9 depth rest hquote hopen ih => exact (ih _).cons
  | case10 depth c rest hquote hopen hclose ih =>
    simp only [remembered, closing]
    rw [if_neg (by simpa using hquote), if_neg hopen, if_neg hclose]
    exact (ih _).cons

/-- A piece that is skipped at a place, or nothing to skip. -/
def SkipsAs (text : List Char) (after : Option (List Char)) (found : Option (Option Nat)) : Prop :=
  ∃ r, found = some r ∧ Option.Rel (RestAt text) after r

theorem skipIgnoredCall_arrow (h : RestAt text ('-' :: '>' :: rest) place) :
    SkipsAs text (afterIgnored? rest) (skipIgnoredCall text place) := by
  have hname : RestAt text rest (place + 2) := h.behind ['-', '>']
  have hblanks := (hname.dropWhile isNameChar).dropWhile isWhiteSpace
  simp only [skipIgnoredCall, h.from_eq, Option.bind_eq_bind, Option.bind_some, findChar_eq,
    sliceTo_takeWhile, afterIgnored?, List.contains_iff_mem]
  split
  · simp only [skipWhile_eq _ (hname.dropWhile isNameChar), hblanks.from_eq, Option.bind_some]
    split
    · rename_i arguments hopen
      rw [hopen] at hblanks ⊢
      rw [if_pos List.head?_cons]
      have hclosing : Closes arguments 1 (afterCall 0 .plain arguments)
          (closing 0 none false 0 ('(' :: arguments)) := closing_eq 0 .plain arguments 1
      generalize afterCall 0 .plain arguments = after at hclosing ⊢
      generalize closing 0 none false 0 ('(' :: arguments) = found at hclosing ⊢
      cases hclosing with
      | unclosed => exact ⟨none, rfl, .none⟩
      | found front rest =>
        refine ⟨_, rfl, .some ?_⟩
        have hsize : '('.utf8Size = 1 ∧ ')'.utf8Size = 1 := by decide
        have hbehind := (hblanks.tail.behind front).tail
        rwa [hsize.1, hsize.2, Nat.add_assoc _ 1] at hbehind
    · rename_i hopen
      rw [if_neg]
      · exact ⟨none, rfl, .none⟩
      · rw [List.head?_eq_some_iff]
        rintro ⟨arguments, harguments⟩
        exact hopen arguments harguments
  · exact ⟨none, rfl, .none⟩

/-- Without an arrow there is no ignored call. -/
theorem skipIgnoredCall_other (h : RestAt text s place)
    (harrow : ∀ rest, s = '-' :: '>' :: rest → False) : skipIgnoredCall text place = some none := by
  simp only [skipIgnoredCall, h.from_eq, Option.bind_eq_bind, Option.bind_some]
  rfl

theorem skipPiece_line (h : RestAt text s place)
    (hs : ['/', '/'].isPrefixOf s = true ∨ ['#'].isPrefixOf s = true) :
    SkipsAs text (some (afterLine s)) (skipPiece text place) := by
  have hblank : ¬s.head?.any isWhiteSpace = true := by
    rcases hs with hs | hs
    · obtain ⟨rest, rfl⟩ := List.isPrefixOf_iff_prefix.mp hs
      exact (by decide : ¬isWhiteSpace '/' = true)
    · obtain ⟨rest, rfl⟩ := List.isPrefixOf_iff_prefix.mp hs
      exact (by decide : ¬isWhiteSpace '#' = true)
  obtain ⟨behind, hbehind, hrest⟩ := skipLine_eq h (length_lt_turns h)
  simp only [skipPiece, h.from_eq, Option.bind_eq_bind, Option.bind_some, if_neg hblank, if_pos hs,
    hbehind]
  exact ⟨_, rfl, .some hrest⟩

theorem skipPiece_block (h : RestAt text ('/' :: '*' :: rest) place) :
    SkipsAs text (some (afterBlock rest)) (skipPiece text place) := by
  have hinner : sliceFrom ('/' :: '*' :: rest) 2 = some rest := sliceFrom_append ['/', '*'] rest
  have hblank : isWhiteSpace '/' = false := by decide
  have hline : ¬(['/', '/'].isPrefixOf ('/' :: '*' :: rest) = true ∨
      ['#'].isPrefixOf ('/' :: '*' :: rest) = true) := by simp [List.isPrefixOf]
  have hblock : ['/', '*'].isPrefixOf ('/' :: '*' :: rest) = true := by simp [List.isPrefixOf]
  simp only [skipPiece, h.from_eq, Option.bind_eq_bind, Option.bind_some, List.head?_cons,
    Option.any_some, hblank, Bool.false_eq_true, if_false, if_neg hline, if_pos hblock, hinner]
  rcases findMark_eq rest with ⟨front, more, rfl, hafter, hfind⟩ | ⟨hafter, hfind⟩
  · rw [hafter, hfind]
    have hsize : '/'.utf8Size = 1 ∧ '*'.utf8Size = 1 := by decide
    have hbehind := (h.tail.tail.behind front).tail.tail
    rw [hsize.1, hsize.2] at hbehind
    refine ⟨_, rfl, .some ?_⟩
    convert hbehind using 1
    omega
  · rw [hafter, hfind]
    refine ⟨_, rfl, .some ?_⟩
    exact RestAt.behind _ (by rwa [List.append_nil])

theorem skipPiece_other (h : RestAt text s place)
    (hline : ¬(['/', '/'].isPrefixOf s = true ∨ ['#'].isPrefixOf s = true))
    (hblock : ¬['/', '*'].isPrefixOf s = true) (hblank : ¬s.head?.any isWhiteSpace = true) :
    skipPiece text place = skipIgnoredCall text place := by
  simp only [skipPiece, h.from_eq, Option.bind_eq_bind, Option.bind_some, if_neg hblank,
    if_neg hline, if_neg hblock]

theorem skipPiece_blank (h : RestAt text (c :: rest) place) (hc : isWhiteSpace c = true) :
    SkipsAs text (some rest) (skipPiece text place) := by
  have hblank : (c :: rest).head?.any isWhiteSpace = true := hc
  simp only [skipPiece, h.from_eq, Option.bind_eq_bind, Option.bind_some, if_pos hblank,
    next_cons h]
  exact ⟨_, rfl, .some h.tail⟩

theorem skipPiece_eq (h : RestAt text s place) :
    SkipsAs text (afterTrivia? s) (skipPiece text place) := by
  unfold afterTrivia?
  split
  · have hline := skipPiece_line h (.inl (by simp [List.isPrefixOf]))
    exact hline
  · exact skipPiece_block h
  · have hline := skipPiece_line h (.inr (by simp [List.isPrefixOf]))
    exact hline
  · have hblank : isWhiteSpace '-' = false := by decide
    rw [skipPiece_other h (by simp [List.isPrefixOf]) (by simp [List.isPrefixOf])
      (by simp [hblank])]
    exact skipIgnoredCall_arrow h
  · rename_i c rest hslashes hstar hhash harrow
    split
    · rename_i hblank
      exact skipPiece_blank h hblank
    · rename_i hblank
      have hline : ¬(['/', '/'].isPrefixOf (c :: rest) = true ∨
          ['#'].isPrefixOf (c :: rest) = true) := by
        simp only [List.isPrefixOf_iff_prefix, List.cons_prefix_cons]
        rintro (⟨hc, more, hmore⟩ | ⟨hc, -⟩)
        · exact hslashes more hc.symm hmore.symm
        · exact hhash hc.symm
      have hblock : ¬['/', '*'].isPrefixOf (c :: rest) = true := by
        simp only [List.isPrefixOf_iff_prefix, List.cons_prefix_cons]
        rintro ⟨hc, more, hmore⟩
        exact hstar more hc.symm hmore.symm
      rw [skipPiece_other h hline hblock (by simpa using hblank), skipIgnoredCall_other h ?_]
      · exact ⟨none, rfl, .none⟩
      · rintro more hmore
        obtain ⟨hc, hrest⟩ := List.cons.inj hmore
        exact harrow more hc hrest
  · rw [skipPiece_other h (by decide) (by decide) (by decide), skipIgnoredCall_other h nofun]
    exact ⟨none, rfl, .none⟩

theorem skipTrivia_of_lt {limit : Nat} (h : RestAt text s place) (hlimit : s.length < limit) :
    ∃ behind, skipTrivia text limit place = some behind ∧
      RestAt text (Statement.skipTrivia s) behind := by
  induction limit generalizing s place with
  | zero => exact absurd hlimit (Nat.not_lt_zero _)
  | succ limit ih =>
    obtain ⟨r, hr, hrel⟩ := skipPiece_eq h
    rw [skipTrivia, hr, Statement.skipTrivia]
    split
    · rename_i hskip
      rw [hskip] at hrel
      cases hrel
      exact ⟨place, rfl, h⟩
    · rename_i rest hskip
      rw [hskip] at hrel
      cases hrel with
      | some hrest =>
        exact ih hrest (Nat.lt_of_lt_of_le (length_afterTrivia?_lt hskip)
          (Nat.le_of_lt_succ hlimit))

theorem skipTrivia_eq (h : RestAt text s place) : ∃ behind,
    skipTrivia text (turns text) place = some behind ∧
      RestAt text (Statement.skipTrivia s) behind :=
  skipTrivia_of_lt h (length_lt_turns h)

/-- What is left of a text in quotes of which some was read before, and how it was read by
places. -/
inductive QuotedAs (text whole : List Char) (offset : Nat) (contents : List Char) :
    Option (List Char × List Char) → Except LexFailure (List Char × Nat) → Prop
  | closed {more rest : List Char} {behind : Nat} (hrest : RestAt text rest behind) :
      QuotedAs text whole offset contents (some (more, rest)) (.ok (contents ++ more, behind))
  | unclosed : QuotedAs text whole offset contents none
      (.error ⟨String.ofList (firstLine whole), offset⟩)

theorem QuotedAs.cons {whole contents : List Char} {offset : Nat}
    {left : Option (List Char × List Char)} {r : Except LexFailure (List Char × Nat)}
    (h : QuotedAs text whole offset (contents ++ [c]) left r) :
    QuotedAs text whole offset contents (left.map fun p => (c :: p.1, p.2)) r := by
  cases h with
  | unclosed => exact .unclosed
  | closed hrest =>
    rw [List.append_assoc]
    exact .closed hrest

theorem readQuoted_eq {quote : Char} (hquote : quote ≠ '\\') {whole : List Char} {offset : Nat}
    (hoffset : RestAt text whole offset) (contents : List Char) {limit : Nat}
    (h : RestAt text s place) (hlimit : s.length < limit) :
    ∃ r, readQuoted text quote offset limit contents place = some r ∧
      QuotedAs text whole offset contents (Statement.readQuoted quote s) r := by
  induction limit generalizing contents s place with
  | zero => exact absurd hlimit (Nat.not_lt_zero _)
  | succ limit ih =>
    fun_cases Statement.readQuoted quote s with
    | case1 =>
      rw [readQuoted, next_nil h]
      simp only [Option.bind_eq_bind, Option.bind_some, hoffset.from_eq]
      exact ⟨_, rfl, .unclosed⟩
    | case2 c rest =>
      have hrest : rest.length < limit := Nat.lt_of_succ_lt (Nat.lt_of_succ_lt_succ hlimit)
      obtain ⟨r, hr, hquoted⟩ := ih (contents ++ [c]) h.tail.tail hrest
      refine ⟨r, ?_, hquoted.cons⟩
      rw [readQuoted, next_cons h]
      simp only [Option.bind_eq_bind, Option.bind_some, next_cons h.tail, hr]
    | case3 rest =>
      rw [readQuoted, next_cons h]
      simp only [Option.bind_eq_bind, Option.bind_some, if_true]
      refine ⟨_, rfl, ?_⟩
      have hclosed : QuotedAs text whole offset contents (some ([], rest))
          (.ok (contents ++ [], place + quote.utf8Size)) := .closed h.tail
      rwa [List.append_nil] at hclosed
    | case4 c rest hescape hne =>
      have hrest : rest.length < limit := Nat.lt_of_succ_lt_succ hlimit
      by_cases hc : c = '\\'
      · -- a backslash at the end of the text
        subst hc
        cases rest with
        | cons d rest => exact (hescape d rest rfl rfl).elim
        | nil =>
          obtain ⟨r, hr, hquoted⟩ := ih contents h.tail hrest
          refine ⟨r, ?_, hquoted⟩
          rw [readQuoted, next_cons h]
          simp only [Option.bind_eq_bind, Option.bind_some, next_nil h.tail, hr]
      · obtain ⟨r, hr, hquoted⟩ := ih (contents ++ [c]) h.tail hrest
        refine ⟨r, ?_, hquoted.cons⟩
        rw [readQuoted, next_cons h]
        simp only [Option.bind_eq_bind, Option.bind_some, if_neg hne, hr]

/-- What is read at a place, and the same by places. -/
inductive ReadAs (text : List Char) (offset : Nat) : Reading → Outcome → Prop
  | token (kind : Kind) (chars : List Char) {rest : List Char} {behind : Nat}
      (hrest : RestAt text rest behind) :
      ReadAs text offset (.token kind chars rest)
        (.ok (⟨kind, String.ofList chars, offset⟩, behind))
  | unrecognized (chars : List Char) :
      ReadAs text offset (.unrecognized chars) (.error ⟨String.ofList chars, offset⟩)

/-- A token that is read at a place, and the same by places. -/
def ReadsAs (text : List Char) (offset : Nat) (reading : Reading) (found : Option Outcome) : Prop :=
  ∃ r, found = some r ∧ ReadAs text offset reading r

theorem isWordChar_of_beginsWord (h : beginsWord c = true) : isWordChar c = true := by
  unfold beginsWord at h
  unfold isWordChar isNameChar
  rw [Bool.or_eq_true, Bool.or_eq_true] at h ⊢
  exact h.imp_left (Or.imp_left isAlphanumeric_of_isAlphabetic)

section Tokens

variable (h : RestAt text (c :: s) place)

include h

/-- A character and what follows it of a sort, sliced. -/
theorem slice_cons_takeWhile (p : Char → Bool) :
    slice text place (place + c.utf8Size + byteLength (s.takeWhile p)) =
      some (c :: s.takeWhile p) := by
  have hsplit : RestAt text (c :: s.takeWhile p ++ s.dropWhile p) place := by
    rwa [List.cons_append, List.takeWhile_append_dropWhile]
  rw [Nat.add_assoc, ← byteLength_cons]
  exact hsplit.slice_eq

theorem readText_eq (hquote : c = '\'' ∨ c = '"') :
    ReadsAs text place (Statement.readText c s) (readText text c place (place + c.utf8Size)) := by
  obtain ⟨r, hr, hquoted⟩ := readQuoted_eq (not_escape_of_quote hquote) h [] h.tail
    (length_lt_turns h.tail)
  rw [readText, hr, Statement.readText]
  generalize Statement.readQuoted c s = left at hquoted ⊢
  cases hquoted with
  | closed hrest => exact ⟨_, rfl, .token .text _ hrest⟩
  | unclosed => exact ⟨_, rfl, .unrecognized _⟩

theorem readVariable_eq (hc : c = '$') :
    ReadsAs text place (Statement.readVariable s)
      (readVariable text place (place + c.utf8Size)) := by
  subst hc
  have hslice := slice_cons_takeWhile h isNameChar
  have hrest := h.tail.dropWhile isNameChar
  simp only [readVariable, skipWhile_eq _ h.tail, Option.bind_eq_bind, Option.bind_some,
    h.tail.slice_takeWhile, hslice, Statement.readVariable]
  split
  · rename_i hname
    rw [if_pos hname]
    exact ⟨_, rfl, .unrecognized ['$']⟩
  · rename_i name hname
    rw [if_neg hname]
    exact ⟨_, rfl, .token .tableVar _ hrest⟩

theorem readNumber_eq :
    ReadsAs text place (Statement.readNumber c s)
      (readNumber text c place (place + c.utf8Size)) := by
  have hslice := slice_cons_takeWhile h isNumberChar
  have hrest := h.tail.dropWhile isNumberChar
  simp only [readNumber, skipWhile_eq _ h.tail, Option.bind_eq_bind, Option.bind_some,
    h.tail.slice_takeWhile, hslice, Statement.readNumber]
  split
  · exact ⟨_, rfl, .unrecognized ['-']⟩
  · exact ⟨_, rfl, .token .number _ hrest⟩

theorem readWord_eq (hc : beginsWord c = true) :
    ReadsAs text place (Statement.readWord c s) (readWord text place) := by
  have hrest := h.tail.dropWhile isWordChar
  have htake : (c :: s).takeWhile isWordChar = c :: s.takeWhile isWordChar :=
    List.takeWhile_cons_of_pos (isWordChar_of_beginsWord hc)
  have hslice := slice_cons_takeWhile h isWordChar
  rw [Nat.add_assoc] at hrest hslice
  simp only [readWord, skipWhile_eq _ h, Option.bind_eq_bind, Option.bind_some, htake,
    byteLength_cons, hslice, Statement.readWord]
  exact ⟨_, rfl, .token _ _ hrest⟩

theorem readUnknown_eq :
    ReadsAs text place (.unrecognized ((c :: s).takeWhile fun d => !isWhiteSpace d))
      (readUnknown text place) := by
  simp only [readUnknown, skipWhile_eq _ h, Option.bind_eq_bind, Option.bind_some,
    h.slice_takeWhile]
  exact ⟨_, rfl, .unrecognized _⟩

theorem readLonger_eq :
    ReadsAs text place (Statement.readLonger c s)
      (readLonger text c place (place + c.utf8Size)) := by
  unfold Statement.readLonger
  split
  · rename_i rest
    have hpair : RestAt text rest (place + 2) := h.behind [':', ':']
    have hcolons : [':', ':'].isPrefixOf (':' :: ':' :: rest) = true := by simp [List.isPrefixOf]
    simp only [readLonger, h.from_eq, Option.bind_eq_bind, Option.bind_some, if_pos hcolons]
    exact ⟨_, rfl, .token .doubleColon [':', ':'] hpair⟩
  · rename_i rest
    have hpair : RestAt text rest (place + 2) := h.behind ['-', '>']
    have hcolons : ¬[':', ':'].isPrefixOf ('-' :: '>' :: rest) = true := by simp [List.isPrefixOf]
    have harrow : ['-', '>'].isPrefixOf ('-' :: '>' :: rest) = true := by simp [List.isPrefixOf]
    simp only [readLonger, h.from_eq, Option.bind_eq_bind, Option.bind_some, if_neg hcolons,
      if_pos harrow]
    exact ⟨_, rfl, .token .arrow ['-', '>'] hpair⟩
  · rename_i hcolons harrow
    have hcolons' : ¬[':', ':'].isPrefixOf (c :: s) = true := by
      simp only [List.isPrefixOf_iff_prefix, List.cons_prefix_cons]
      rintro ⟨hc, more, hmore⟩
      exact hcolons more hc.symm hmore.symm
    have harrow' : ¬['-', '>'].isPrefixOf (c :: s) = true := by
      simp only [List.isPrefixOf_iff_prefix, List.cons_prefix_cons]
      rintro ⟨hc, more, hmore⟩
      exact harrow more hc.symm hmore.symm
    simp only [readLonger, h.from_eq, Option.bind_eq_bind, Option.bind_some, if_neg hcolons',
      if_neg harrow']
    split
    · exact readText_eq h ‹_›
    split
    · exact readVariable_eq h ‹_›
    split
    · exact readNumber_eq h
    split
    · exact readWord_eq h ‹_›
    · exact readUnknown_eq h

end Tokens

theorem readToken_nil (h : RestAt text s place) (hs : Statement.skipTrivia s = []) :
    readToken text place = some none := by
  obtain ⟨offset, hoffset, hrest⟩ := skipTrivia_eq h
  rw [hs] at hrest
  simp only [readToken, hoffset, Option.bind_eq_bind, Option.bind_some, next_nil hrest]
  rfl

theorem readToken_cons (h : RestAt text s place) (hs : Statement.skipTrivia s = c :: rest) :
    ∃ r, readToken text place = some (some r) ∧
      ReadAs text (byteLength text - byteLength (c :: rest)) (Statement.readToken c rest) r := by
  obtain ⟨offset, hoffset, hrest⟩ := skipTrivia_eq h
  rw [hs] at hrest
  rw [← hrest.eq_sub]
  simp only [readToken, hoffset, Option.bind_eq_bind, Option.bind_some, next_cons hrest,
    Statement.readToken]
  cases hsign : Kind.ofSign? c with
  | some kind => exact ⟨_, rfl, .token kind [c] hrest.tail⟩
  | none =>
    obtain ⟨r, hr, hread⟩ := readLonger_eq hrest
    rw [hr]
    exact ⟨r, rfl, hread⟩

/-- By places the same tokens are read. -/
theorem tokensFrom_eq {limit : Nat} (h : RestAt text s place) (hlimit : s.length < limit) :
    tokensFrom text limit place = some (Statement.tokensFrom (byteLength text) s) := by
  induction limit generalizing s place with
  | zero => exact absurd hlimit (Nat.not_lt_zero _)
  | succ limit ih =>
    generalize htotal : byteLength text = total
    fun_cases Statement.tokensFrom total s with
    | case1 hs =>
      rw [tokensFrom, readToken_nil h hs]
      rfl
    | case2 c rest hs offset kind chars more hread tail =>
      obtain ⟨r, hr, hreads⟩ := readToken_cons h hs
      rw [hread] at hreads
      cases hreads with
      | token _ _ hmore =>
        have hshorter : more.length < s.length := by
          have hskipped := length_skipTrivia_le s
          have htaken := length_readToken_lt hread
          rw [hs] at hskipped
          exact Nat.lt_of_lt_of_le htaken hskipped
        rw [tokensFrom, hr]
        simp only [Option.bind_eq_bind, Option.bind_some,
          ih hmore (Nat.lt_of_lt_of_le hshorter (Nat.le_of_lt_succ hlimit))]
        rw [htotal]
        rfl
    | case3 c rest hs offset chars hread =>
      obtain ⟨r, hr, hreads⟩ := readToken_cons h hs
      rw [hread] at hreads
      cases hreads
      rw [tokensFrom, hr]
      simp only [Option.bind_eq_bind, Option.bind_some, htotal]
      rfl

def tokenize (text : String) : Option (Source Kind LexFailure) :=
  tokensFrom text.toList (turns text.toList) 0

theorem tokenize_eq (text : String) : tokenize text = some (Statement.tokenize text) :=
  tokensFrom_eq (restAt_start text.toList) (length_lt_turns (restAt_start text.toList))

end SchemaBridge.Statement.ByPlace
