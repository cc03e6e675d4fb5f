/-
  The statement of a migration is found and read. The statement of `up` is the first in its file:
  nothing before it names the facade with a call behind it. It ends where its body is closed: no
  name in it holds a brace. And its lines are those of a statement with the calls of its chains.
  Main results: `definition_migrationText` and `read_statementText`.
-/
import SchemaBridge.Output.Migration
import SchemaBridge.Proofs.Naming.Harmless
import SchemaBridge.Proofs.Output.Chain
import SchemaBridge.Proofs.Statement.Search

namespace SchemaBridge.Output

open Statement (Kind Lexes Quotable mark Derives DerivesAll Call Part Phrase Role TableAction tok
  part isPlainWord headRule)

/-- The statement as it stands in `up`: its lines, eight spaces from the margin, but for the spaces
before the first and the end of the last. -/
def statementText (action table : String) (body : List Chain) : String :=
  "\n        ".intercalate (statementLines action table body)

/-! ## Characters -/

theorem quotable_of_harmless {s : String} (h : Harmless s) : Quotable s.toList :=
  fun c hc => ⟨ne_of_isHarmless (h c hc) (by decide), ne_of_isHarmless (h c hc) (by decide)⟩

/-- A chain of which the methods are words and the names harmless. -/
structure Chain.Plain (c : Chain) : Prop where
  legible : ∀ i ∈ c, i.Legible
  harmless : ∀ i ∈ c, ∀ n ∈ i.argument.columns, Harmless n

/-- No brace closes a body in the text. -/
def Braceless (s : List Char) : Prop :=
  '\x7d' ∉ s

instance (s : List Char) : Decidable (Braceless s) :=
  inferInstanceAs (Decidable ('\x7d' ∉ s))

theorem Braceless.append {a b : List Char} (ha : Braceless a) (hb : Braceless b) :
    Braceless (a ++ b) :=
  fun h => (List.mem_append.mp h).elim ha hb

theorem braceless_flatMap {α : Type} {l : List α} {f : α → List Char}
    (h : ∀ a ∈ l, Braceless (f a)) : Braceless (l.flatMap f) := by
  intro hmem
  obtain ⟨a, ha, hb⟩ := List.mem_flatMap.mp hmem
  exact h a ha hb

theorem braceless_of_harmless {s : String} (h : Harmless s) : Braceless s.toList :=
  fun hmem => ne_of_isHarmless (h _ hmem) (by decide) rfl

theorem braceless_of_isPlainWord {w : List Char} (h : isPlainWord w = true) : Braceless w := by
  cases w with
  | nil => exact List.not_mem_nil
  | cons c rest =>
    obtain ⟨hc, hrest⟩ := Bool.and_eq_true_iff.mp h
    intro hmem
    rcases List.mem_cons.mp hmem with rfl | hmem
    · exact absurd hc (by decide)
    · exact absurd (List.all_eq_true.mp hrest _ hmem) (by decide)

theorem braceless_quote {n : String} (h : Harmless n) : Braceless (quote n).toList := by
  unfold quote
  rw [String.toList_append, String.toList_append]
  exact (Braceless.append (by decide) (braceless_of_harmless h)).append (by decide)

theorem intercalate_cons {α : Type} (sep a : List α) (rest : List (List α)) :
    sep.intercalate (a :: rest) = a ++ rest.flatMap (sep ++ ·) := by
  induction rest generalizing a with
  | nil => rw [List.intercalate_singleton, List.flatMap_nil, List.append_nil]
  | cons b rest ih =>
    rw [List.intercalate_cons_cons, ih, List.flatMap_cons, List.append_assoc, List.append_assoc]

theorem braceless_argument {a : Argument} (h : ∀ n ∈ a.columns, Harmless n) :
    Braceless a.text.toList := by
  cases a with
  | none => exact List.not_mem_nil
  | name n => exact braceless_quote (h n (List.mem_singleton.mpr rfl))
  | names ns =>
    have hnames : Braceless (", ".toList.intercalate ((ns.map quote).map String.toList)) := by
      cases ns with
      | nil => exact List.not_mem_nil
      | cons n more =>
        rw [List.map_cons, List.map_cons, intercalate_cons]
        refine (braceless_quote (h n List.mem_cons_self)).append (braceless_flatMap ?_)
        intro s hs
        obtain ⟨q, hq, rfl⟩ := List.mem_map.mp hs
        obtain ⟨m, hm, rfl⟩ := List.mem_map.mp hq
        exact Braceless.append (by decide) (braceless_quote (h m (List.mem_cons_of_mem _ hm)))
    unfold Argument.text quoteAll
    rw [String.toList_append, String.toList_append, String.toList_intercalate]
    exact (Braceless.append (by decide) hnames).append (by decide)

theorem Chain.Plain.braceless {c : Chain} (h : c.Plain) : Braceless (chainText c).toList := by
  unfold chainText
  rw [String.toList_append, String.toList_append, String.toList_join]
  refine (Braceless.append (by decide) (braceless_flatMap ?_)).append (by decide)
  intro s hs
  obtain ⟨i, hi, rfl⟩ := List.mem_map.mp hs
  unfold Invocation.text
  rw [String.toList_append, String.toList_append, String.toList_append, String.toList_append]
  have hword := braceless_of_isPlainWord (h.legible i hi).word
  have hargument := braceless_argument (h.harmless i hi)
  exact (((Braceless.append (by decide) hword).append (by decide)).append hargument).append
    (by decide)

/-! ## The text of a statement -/

/-- The first line of a statement. -/
def headText (action table : String) : String :=
  "Schema::" ++ action ++ "('" ++ table ++ "', function (Blueprint $table) \x7b"

/-- The lines of the body, each behind the end of the line before. -/
def bodyChars (body : List Chain) : List Char :=
  body.flatMap fun c => "\n            ".toList ++ (chainText c).toList

theorem toList_statementText (action table : String) (body : List Chain) :
    (statementText action table body).toList =
      (headText action table).toList ++ bodyChars body ++ "\n        ".toList ++
        ['\x7d', ')', ';'] := by
  unfold statementText statementLines bodyChars
  rw [String.toList_intercalate, List.cons_append, List.nil_append, List.cons_append, List.map_cons,
    intercalate_cons, List.map_append, List.flatMap_append, List.map_singleton,
    List.flatMap_singleton, List.map_map, List.flatMap_map, List.append_assoc, List.append_assoc]
  congr 2
  apply List.flatMap_congr
  intro c _
  rw [Function.comp_apply, String.toList_append, ← List.append_assoc]
  rfl

/-! ## Finding the statement -/

open Statement (facade definitionIn upTo beginsIn beginsIn_of_not_mem definitionIn_of_beginsIn
  upTo_of_endsAtFirst)

/-- Nothing in the text, however it goes on, is a call of the facade. -/
def isQuiet : List Char → Bool
  | [] => true
  | c :: rest => !facade.isPrefixOf (c :: rest) && !(c :: rest).isPrefixOf facade && isQuiet rest

theorem beginsIn_of_isQuiet {s : List Char} (hs : isQuiet s = true) (t : List Char) :
    beginsIn facade s t = false := by
  induction s with
  | nil => rfl
  | cons c rest ih =>
    rw [isQuiet, Bool.and_eq_true, Bool.and_eq_true, Bool.not_eq_true', Bool.not_eq_true'] at hs
    rw [beginsIn, ih hs.2, Bool.or_false, ← Bool.not_eq_true]
    intro hbegins
    rcases List.prefix_or_prefix_of_prefix (List.isPrefixOf_iff_prefix.mp hbegins)
      (List.prefix_append (c :: rest) t) with h | h
    · rw [List.isPrefixOf_iff_prefix.mpr h] at hs
      cases hs.1.1
    · rw [List.isPrefixOf_iff_prefix.mpr h] at hs
      cases hs.1.2

theorem definitionIn_append {s t : List Char} (hs : isQuiet s = true) :
    definitionIn (s ++ t) = definitionIn t :=
  definitionIn_of_beginsIn (beginsIn_of_isQuiet hs t)

theorem upTo_append {a : List Char} (ha : Braceless a) (rest : List Char) :
    upTo ['\x7d', ')', ';'] (a ++ ['\x7d', ')', ';'] ++ rest) = some (a ++ ['\x7d', ')', ';']) :=
  upTo_of_endsAtFirst ⟨a, rfl, beginsIn_of_not_mem ha _⟩ rest

theorem toList_block_two (l : String) (ls : List String) :
    (block 2 (l :: ls)).toList =
      "        ".toList ++ ("\n        ".intercalate (l :: ls)).toList ++ "\n".toList := by
  unfold block
  rw [String.toList_join, String.toList_intercalate, List.map_cons, List.map_cons,
    List.flatMap_cons, intercalate_cons]
  induction ls generalizing l with
  | nil =>
    unfold line
    rw [String.toList_append, String.toList_append, List.map_nil, List.map_nil, List.flatMap_nil,
      List.flatMap_nil, List.append_nil, List.append_nil]
    rfl
  | cons m ls ih =>
    rw [List.map_cons, List.map_cons, List.flatMap_cons, List.flatMap_cons, ih m]
    unfold line
    simp only [String.toList_append, List.append_assoc]
    rfl

/-- What stands before the statement of `up`. -/
def openingText : String :=
  migrationHeader ++ line 1 "public function up(): void" ++ line 1 "\x7b" ++ "        "

theorem isQuiet_openingText : isQuiet openingText.toList = true := by
  decide +kernel

/-- The keyword of a statement that has a body. -/
inductive Opens : String → TableAction → Prop
  | create : Opens "create" .create
  | modify : Opens "table" .modify

variable {action table : String} {act : TableAction} {body : List Chain}

theorem definitionIn_statement (hopen : Opens action act) (htable : Harmless table)
    (hbody : ∀ c ∈ body, c.Plain) (rest : List Char) :
    definitionIn ((statementText action table body).toList ++ rest) =
      some (statementText action table body).toList := by
  have hbrace :
      Braceless ((headText action table).toList ++ bodyChars body ++ "\n        ".toList) := by
    refine (Braceless.append ?_ ?_).append (by decide)
    · have haction : Braceless action.toList := by
        cases hopen <;> decide
      unfold headText
      simp only [String.toList_append]
      exact (((Braceless.append (by decide) haction).append (by decide)).append
        (braceless_of_harmless htable)).append (by decide)
    · refine braceless_flatMap fun c hc => Braceless.append (by decide) (hbody c hc).braceless
  have hup := upTo_append hbrace rest
  rw [← toList_statementText] at hup
  have hhead : (statementText action table body).toList ++ rest =
      "Schema::".toList ++ (action.toList ++ '(' :: ("'".toList ++ (table.toList ++
        ("', function (Blueprint $table) \x7b".toList ++ (bodyChars body ++ ("\n        ".toList ++
          (['\x7d', ')', ';'] ++ rest))))))) := by
    rw [toList_statementText]
    unfold headText
    simp only [String.toList_append, List.append_assoc]
    rfl
  rw [hhead] at hup ⊢
  unfold definitionIn
  cases hopen with
  | create => exact hup
  | modify => exact hup

/-- The statement that a migration applies is the one written into `up`. -/
theorem definition_migrationText (hopen : Opens action act) (htable : Harmless table)
    (hbody : ∀ c ∈ body, c.Plain) (down : List String) :
    Statement.definition (migrationText (statementLines action table body) down) =
      some (statementText action table body) := by
  have hblock := toList_block_two (headText action table)
    (body.map (fun c => "    " ++ chainText c) ++ ["\x7d);"])
  have hlines : headText action table :: (body.map (fun c => "    " ++ chainText c) ++ ["\x7d);"]) =
      statementLines action table body := by
    unfold statementLines
    rw [List.cons_append, List.nil_append, List.cons_append]
    rfl
  rw [hlines] at hblock
  have hchars : (migrationText (statementLines action table body) down).toList =
      openingText.toList ++ ((statementText action table body).toList ++ ("\n".toList ++
        ((line 1 "\x7d").toList ++ ("\n" ++ methodText "down" down ++ "\x7d;\n").toList))) := by
    have hopening : openingText.toList = migrationHeader.toList ++
        ((line 1 ("public function " ++ "up" ++ "(): void")).toList ++
          ((line 1 "\x7b").toList ++ "        ".toList)) := by
      unfold openingText
      simp only [String.toList_append, List.append_assoc]
      rfl
    rw [hopening]
    unfold migrationText methodText statementText
    simp only [String.toList_append, List.append_assoc, hblock]
  unfold Statement.definition
  rw [hchars, definitionIn_append isQuiet_openingText, definitionIn_statement hopen htable hbody,
    Option.map_some, String.ofList_toList]

/-! ## Reading the statement -/

/-- The tokens of the first line but for its brace. -/
def headTokens (kind : Kind) (action table : String) : List (Token Kind) :=
  [mark .facade "Schema", mark .doubleColon "::", mark kind action, mark .openParen "(",
    mark .text table, mark .comma ",", mark .function "function", mark .openParen "(",
    mark .word "Blueprint", mark .tableVar "$table", mark .closeParen ")"]

theorem lexes_head {kind : Kind} (hword : isPlainWord action.toList = true)
    (hkind : Kind.ofWord action.toList = kind) (htable : Quotable table.toList) {rest : List Char}
    {ts : List (Token Kind)} (h : Lexes rest ts) :
    Lexes ((headText action table).toList ++ rest)
      (headTokens kind action table ++ mark .openBrace "\x7b" :: ts) := by
  have hvariable := ((((h.sign (c := '\x7b') rfl).space).sign (c := ')') rfl)).variable
    "table".toList (by decide) (Statement.isNameChar_of_isPlainWord (by decide)) (by decide)
  have hclosure := ((((hvariable.space.word "Blueprint".toList (by decide) (by decide)).sign
    (c := '(') rfl).space).word "function".toList (by decide) (by decide)).space.sign
      (c := ',') rfl
  have hcall := ((hclosure.text htable).sign (c := '(') rfl).word _ hword (by decide)
  rw [String.ofList_toList, String.ofList_toList, hkind] at hcall
  have hfacade := hcall.doubleColon.word "Schema".toList (by decide) (by decide)
  have hchars : (headText action table).toList ++ rest = "Schema".toList ++ ':' :: ':' ::
      (action.toList ++ '(' :: '\'' :: (table.toList ++ '\'' :: ',' :: ' ' ::
        ("function".toList ++ ' ' :: '(' :: ("Blueprint".toList ++ ' ' :: '$' ::
          ("table".toList ++ ')' :: ' ' :: '\x7b' :: rest))))) := by
    unfold headText
    simp only [String.toList_append, List.append_assoc]
    rfl
  rw [hchars]
  exact hfacade

theorem lexes_body (hbody : ∀ c ∈ body, c.Plain) {rest : List Char} {ts : List (Token Kind)}
    (h : Lexes rest ts) : Lexes (bodyChars body ++ rest) (body.flatMap Chain.tokens ++ ts) := by
  induction body with
  | nil => exact h
  | cons c more ih =>
    have hmore := ih fun d hd => hbody d (List.mem_cons_of_mem _ hd)
    have hline := (((hbody c List.mem_cons_self).legible |> Chain.lexes) hmore).spaces 12
    unfold bodyChars at hline ⊢
    rw [List.flatMap_cons, List.flatMap_cons, List.append_assoc, List.append_assoc,
      List.append_assoc]
    exact hline.newline

/-- The tokens of a statement. -/
def statementTokens (kind : Kind) (action table : String) (body : List Chain) :
    List (Token Kind) :=
  headTokens kind action table ++ mark .openBrace "\x7b" :: (body.flatMap Chain.tokens ++
    [mark .closeBrace "\x7d", mark .closeParen ")", mark .semicolon ";"])

theorem lexes_statementText {kind : Kind} (hword : isPlainWord action.toList = true)
    (hkind : Kind.ofWord action.toList = kind) (htable : Harmless table)
    (hbody : ∀ c ∈ body, c.Plain) :
    Lexes (statementText action table body).toList (statementTokens kind action table body) := by
  have hend := (((Statement.lexes_nil.sign (c := ';') rfl).sign (c := ')') rfl).sign
    (c := '\x7d') rfl).spaces 8
  have hlines := lexes_body hbody hend.newline
  have hstatement := lexes_head hword hkind (quotable_of_harmless htable) hlines
  rw [toList_statementText, List.append_assoc, List.append_assoc]
  exact hstatement

theorem derives_lines {us : List (Token Kind)} {calls : List Call}
    (h : Derives (part .lines) us (.calls calls)) {body : List Chain} {more : List Call}
    (hbody : List.Forall₂ Chain.Means body more) :
    Derives (part .lines) (us ++ body.flatMap Chain.tokens) (.calls (calls ++ more)) := by
  induction hbody generalizing us calls with
  | nil =>
    rw [List.flatMap_nil, List.append_nil, List.append_nil]
    exact h
  | @cons c call body more hc _ ih =>
    have hline : Derives (part .line) c.tokens (.calls [call]) := hc
    have hone : Derives (part .lines) (us ++ c.tokens) (.calls (calls ++ [call])) :=
      (h.cons hline.single).node (r := ⟨.lines, [part .lines, part .line], .lines⟩) (by decide)
    have hmore := ih hone
    rw [List.append_assoc, List.append_assoc] at hmore
    rw [List.flatMap_cons]
    exact hmore

theorem derives_body {calls : List Call} (hbody : List.Forall₂ Chain.Means body calls)
    (hne : body ≠ []) : Derives (part .lines) (body.flatMap Chain.tokens) (.calls calls) := by
  cases hbody with
  | nil => exact absurd rfl hne
  | @cons c call body more hc hmore =>
    have hline : Derives (part .line) c.tokens (.calls [call]) := hc
    have hfirst : Derives (part .lines) c.tokens (.calls [call]) :=
      hline.single.node (r := ⟨.lines, [part .line], .lines⟩) (by decide)
    rw [List.flatMap_cons]
    exact derives_lines hfirst hmore

theorem derives_head (hopen : Opens action act) (table : String) :
    Derives (part .head) (headTokens (Kind.ofWord action.toList) action table)
      (.head act table) := by
  have hall : ∀ kind : Kind, DerivesAll
      ([tok .facade, tok .doubleColon, tok kind, tok .openParen, tok .text, tok .comma,
        tok .function, tok .openParen] ++ [tok .word] ++ [tok .tableVar, tok .closeParen])
      (headTokens kind action table) ((headTokens kind action table).map .token) := fun kind =>
    ((((((((((Statement.derivesAll_nil.token (mark .closeParen ")")).token
      (mark .tableVar "$table")).token (mark .word "Blueprint")).token (mark .openParen "(")).token
      (mark .function "function")).token (mark .comma ",")).token (mark .text table)).token
      (mark .openParen "(")).token (mark kind action)).token (mark .doubleColon "::")).token
      (mark .facade "Schema")
  cases hopen with
  | create =>
    rw [show Kind.ofWord "create".toList = .create by decide]
    exact (hall .create).node (r := headRule .create [tok .word] .createHead) (by decide)
  | modify =>
    rw [show Kind.ofWord "table".toList = .modify by decide]
    exact (hall .modify).node (r := headRule .modify [tok .word] .modifyHead) (by decide)

/-- A statement in the form that migrations have is read as the calls of its chains. -/
theorem read_statementText (hopen : Opens action act) (htable : Harmless table)
    (hplain : ∀ c ∈ body, c.Plain) {calls : List Call}
    (hbody : List.Forall₂ Chain.Means body calls) (hne : body ≠ []) :
    Statement.read (statementText action table body) = .ok ⟨act, table, calls⟩ := by
  have hword : isPlainWord action.toList = true := by
    cases hopen <;> decide
  have hlex := lexes_statementText hword rfl htable hplain
  have hblock := ((derives_head hopen table).cons (((derives_body hbody hne).cons
    (((Statement.derivesAll_nil.token (mark .semicolon ";")).token (mark .closeParen ")")).token
      (mark .closeBrace "\x7d"))).token (mark .openBrace "\x7b"))).node
    (r := ⟨.definition, [part .head, tok .openBrace, part .lines, tok .closeBrace,
      tok .closeParen, tok .semicolon], .block⟩) (by decide)
  change Derives _ _ (.statement ⟨act, table, calls ++ []⟩) at hblock
  rw [List.append_nil] at hblock
  exact Statement.read_of_derives hlex hblock

end SchemaBridge.Output
