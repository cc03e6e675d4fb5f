/-
  Tokens as they are written. What is read as a token is written as one of its kind and text may be,
  and where a token is written, it is read, unless a longer one is written there: the reader takes
  the longest token there is, and fails only where there is none.
  Main results: `readToken_eq_token_iff` and `tokenless_iff`.
-/
import SchemaBridge.Proofs.Statement.Layout
import SchemaBridge.Proofs.Statement.Trivia

namespace SchemaBridge.Statement

open Text

/-- The token is written here, and no longer one is. -/
structure Takes (kind : Kind) (text written rest : List Char) : Prop where
  writes : Writes kind text written
  longest : ∀ kind text other, Writes kind text other → other <+: written ++ rest →
    other.length ≤ written.length

/-- No token is written here. -/
def Tokenless (s : List Char) : Prop :=
  ∀ kind text written, Writes kind text written → ¬ written <+: s

/-- The token stands at the head of the text. A text in quotes is the contents up to the first quote
of its sort that is not escaped; any other token is as it stands there. -/
def Heads (kind : Kind) (text s : List Char) : Prop :=
  (kind ≠ .text → text ≠ [] ∧ text <+: s) ∧
  (kind = .text → ∃ quote written rest, (quote = '\'' ∨ quote = '"') ∧
    s = quote :: (written ++ quote :: rest) ∧ Escapes quote text written)

variable {c : Char} {s text rest written : List Char} {kind : Kind}

/-! ## From what is read to how it is written -/

theorem readLonger_writes (h : readLonger c s = .token kind text rest) :
    ∃ written, c :: s = written ++ rest ∧ Writes kind text written := by
  unfold readLonger at h
  split at h
  · cases h
    exact ⟨[':', ':'], rfl, .doubleColon⟩
  · cases h
    exact ⟨['-', '>'], rfl, .arrow⟩
  split at h
  · rename_i hquote
    unfold readText at h
    split at h
    · rename_i hquoted
      cases h
      obtain ⟨written, hwritten, rfl⟩ := escapes_of_readQuoted hquoted
      exact ⟨c :: (written ++ [c]), by simp, .text hquote hwritten⟩
    · cases h
  split at h
  · rename_i hdollar
    subst hdollar
    unfold readVariable at h
    split at h
    · cases h
    · rename_i hne
      cases h
      refine ⟨_, (stands_takeWhile (by decide) '$' s).eq_append, .name hne ?_⟩
      exact fun d hd => List.mem_takeWhile_imp hd
  split at h
  · rename_i hbegins
    unfold readNumber at h
    dsimp only at h
    split at h
    · cases h
    · rename_i hminus
      cases h
      refine ⟨_, (stands_takeWhile (by decide) c s).eq_append, .number ?_ ?_⟩
      · exact hbegins.imp_right fun hc => ⟨hc, fun hnil => hminus ⟨hc, hnil⟩⟩
      · exact fun d hd => List.mem_takeWhile_imp hd
  split at h
  · rename_i hbegins
    cases h
    refine ⟨_, (stands_takeWhile (by decide) c s).eq_append, .word hbegins ?_⟩
    exact fun d hd => List.mem_takeWhile_imp hd
  · cases h

theorem readToken_writes (h : readToken c s = .token kind text rest) :
    ∃ written, c :: s = written ++ rest ∧ Writes kind text written := by
  unfold readToken at h
  split at h
  · rename_i hsign
    cases h
    exact ⟨[c], rfl, .sign hsign⟩
  · exact readLonger_writes h

theorem Writes.ne_nil (h : Writes kind text written) : written ≠ [] := by
  cases h <;> exact List.cons_ne_nil _ _

theorem ofSign?_ne_text (c : Char) : Kind.ofSign? c ≠ some .text := by
  unfold Kind.ofSign?
  split <;> decide

theorem ofWord_ne_text (word : List Char) : Kind.ofWord word ≠ .text := by
  unfold Kind.ofWord
  dsimp only
  split
  · rename_i kind hlookup
    have hkinds : ∀ e ∈ keywords, e.2 ≠ .text := by decide
    obtain ⟨front, back, hkeywords, -⟩ := List.lookup_eq_some_iff.mp hlookup
    exact hkinds (_, kind) (hkeywords ▸ List.mem_append_right _ List.mem_cons_self)
  · split <;> decide

theorem Writes.heads (h : Writes kind text written) (rest : List Char) :
    Heads kind text (written ++ rest) := by
  have hplain : kind ≠ .text → written = text → Heads kind text (written ++ rest) := by
    rintro hkind rfl
    exact ⟨fun _ => ⟨h.ne_nil, rest, rfl⟩, fun htext => absurd htext hkind⟩
  cases h with
  | @sign _ c h => exact hplain (fun hkind => ofSign?_ne_text c (hkind ▸ h)) rfl
  | word => exact hplain (ofWord_ne_text _) rfl
  | doubleColon | arrow | name | number => exact hplain (by decide) rfl
  | @text quote _ inner hquote hinner =>
    exact ⟨fun hkind => absurd rfl hkind, fun _ => ⟨quote, inner, rest, hquote, by simp, hinner⟩⟩

/-! ## From how a token is written to what is read -/

/-- Characters of a sort are taken up to what follows them, or further. -/
theorem takeWhile_cases {p : Char → Bool} {front : List Char} (hfront : ∀ d ∈ front, p d = true)
    (rest : List Char) :
    ((front ++ rest).takeWhile p = front ∧ (front ++ rest).dropWhile p = rest) ∨
      ((front ++ rest).dropWhile p).length < rest.length := by
  rw [List.takeWhile_append_of_pos hfront, List.dropWhile_append_of_pos hfront]
  have hsplit := List.takeWhile_append_dropWhile (p := p) (l := rest)
  cases htake : rest.takeWhile p with
  | nil =>
    rw [htake, List.nil_append] at hsplit
    exact .inl ⟨List.append_nil _, hsplit⟩
  | cons c more =>
    have hlength := congrArg List.length hsplit
    rw [htake, List.length_append, List.length_cons] at hlength
    exact .inr (by omega)

/-- A token of a sort of characters behind its first one is read, or else a longer one. -/
theorem readToken_of_takeWhile {p : Char → Bool} {front : List Char} (kindOf : List Char → Kind)
    (hfront : ∀ d ∈ front, p d = true)
    (hread : readToken c (front ++ rest) = .token (kindOf (c :: (front ++ rest).takeWhile p))
      (c :: (front ++ rest).takeWhile p) ((front ++ rest).dropWhile p)) :
    readToken c (front ++ rest) = .token (kindOf (c :: front)) (c :: front) rest ∨
      ∃ kind text more, readToken c (front ++ rest) = .token kind text more ∧
        more.length < rest.length := by
  rcases takeWhile_cases hfront rest with ⟨htake, hdrop⟩ | hlonger
  · rw [htake, hdrop] at hread
    exact .inl hread
  · exact .inr ⟨_, _, _, hread, hlonger⟩

/-- Where a token is written, it is read, or else a longer one. -/
theorem Writes.readToken_cases (h : Writes kind text written) (hs : written ++ rest = c :: s) :
    readToken c s = .token kind text rest ∨
      ∃ kind text more, readToken c s = .token kind text more ∧ more.length < rest.length := by
  cases h with
  | sign h =>
    cases hs
    unfold readToken
    rw [h]
    exact .inl rfl
  | doubleColon | arrow =>
    cases hs
    exact .inl rfl
  | word hc hmore =>
    rw [List.cons_append] at hs
    obtain ⟨rfl, rfl⟩ := List.cons.inj hs
    exact readToken_of_takeWhile Kind.ofWord hmore ((opensWord_of_beginsWord hc).readToken _)
  | @name name hne hname =>
    rw [List.cons_append] at hs
    obtain ⟨rfl, rfl⟩ := List.cons.inj hs
    obtain ⟨d, more, rfl⟩ := List.exists_cons_of_ne_nil hne
    have hd : (d :: more ++ rest).takeWhile isNameChar = d :: (more ++ rest).takeWhile isNameChar :=
      List.takeWhile_cons_of_pos (hname d List.mem_cons_self)
    refine readToken_of_takeWhile (fun _ => .tableVar) hname ?_
    show readVariable _ = _
    unfold readVariable
    rw [hd]
  | @number _ more hc hmore =>
    rw [List.cons_append] at hs
    obtain ⟨rfl, rfl⟩ := List.cons.inj hs
    refine readToken_of_takeWhile (fun _ => .number) hmore ?_
    rw [readToken_number (hc.imp_right And.left) (not_arrow_of_number hc hmore rest)]
    unfold readNumber
    dsimp only
    rw [if_neg]
    rintro ⟨rfl, hnil⟩
    rw [List.takeWhile_append_of_pos hmore] at hnil
    exact (hc.resolve_left (by decide)).2 (List.append_eq_nil_iff.mp hnil).1
  | @text quote _ written hquote hwritten =>
    rw [List.cons_append, List.append_assoc, List.singleton_append] at hs
    obtain ⟨rfl, rfl⟩ := List.cons.inj hs
    have hread := readText_of_escapes hwritten hquote rest
    rcases hquote with rfl | rfl
    all_goals exact .inl hread

/-- The longest token that is written here is read, and no other. -/
theorem readToken_eq_token_iff : readToken c s = .token kind text rest ↔
    ∃ written, written ++ rest = c :: s ∧ Takes kind text written rest := by
  constructor
  · intro h
    obtain ⟨written, hs, hwrites⟩ := readToken_writes h
    refine ⟨written, hs.symm, hwrites, ?_⟩
    rintro kind' text' other hother ⟨more, hmore⟩
    have hlength := congrArg List.length hmore
    rw [List.length_append, List.length_append] at hlength
    rcases hother.readToken_cases (hmore.trans hs.symm) with hread | ⟨_, _, _, hread, hlonger⟩
    all_goals
      rw [h] at hread
      cases hread
      omega
  · rintro ⟨written, hs, hwrites, hlongest⟩
    rcases hwrites.readToken_cases hs with hread | ⟨kind', text', more, hread, hlonger⟩
    · exact hread
    · obtain ⟨other, hother, hwrites'⟩ := readToken_writes hread
      have hle := hlongest kind' text' other hwrites' ⟨more, by rw [← hother, hs]⟩
      have hlength := congrArg List.length (hs.trans hother)
      rw [List.length_append, List.length_append] at hlength
      omega

theorem tokenless_iff : Tokenless (c :: s) ↔ ∃ text, readToken c s = .unrecognized text := by
  constructor
  · intro h
    cases hread : readToken c s with
    | unrecognized text => exact ⟨text, rfl⟩
    | token kind text rest =>
      obtain ⟨written, hs, hwrites⟩ := readToken_writes hread
      exact absurd ⟨rest, hs.symm⟩ (h kind text written hwrites)
  · rintro ⟨text, hread⟩ kind text' written hwrites ⟨rest, hs⟩
    rcases hwrites.readToken_cases hs with hread' | ⟨_, _, _, hread', -⟩
    all_goals
      rw [hread] at hread'
      cases hread'

end SchemaBridge.Statement
