/-
  Chains of calls, as they are written and as they are read. A chain whose names can stand in
  quotes is read as the tokens of its calls, without those that are left out; and each form of
  chain that a migration is made of is derived as a line with one call.
  Main results: `Chain.lexes` and the lemmas on `Chain.Means`.
-/
import SchemaBridge.Output.Line
import SchemaBridge.Proofs.Statement.Derivation

namespace SchemaBridge.Output

open Statement (Kind Lexes Quotable mark Derives DerivesAll Call Part Phrase tok part ignoredCalls
  isPlainWord)

/-! ## Tokens -/

/-- The names in an argument. -/
def Argument.columns : Argument → List String
  | none => []
  | name n => [n]
  | names ns => ns

/-- Names with commas between them. -/
def listTokens : List String → List (Token Kind)
  | [] => []
  | [n] => [mark .text n]
  | n :: rest => mark .text n :: mark .comma "," :: listTokens rest

def Argument.tokens : Argument → List (Token Kind)
  | none => []
  | name n => [mark .text n]
  | names ns => mark .openBracket "[" :: (listTokens ns ++ [mark .closeBracket "]"])

/-- The tokens of a call; an ignored call has none. -/
def Invocation.tokens (i : Invocation) : List (Token Kind) :=
  if ignoredCalls.contains i.method.toList then []
  else mark .arrow "->" :: mark (.ofWord i.method.toList) i.method :: mark .openParen "(" ::
    (i.argument.tokens ++ [mark .closeParen ")"])

def Chain.tokens (c : Chain) : List (Token Kind) :=
  mark .tableVar "$table" :: (c.flatMap Invocation.tokens ++ [mark .semicolon ";"])

/-- The call can be read: its method is a word and its names can stand in quotes. An ignored call
has one name. -/
structure Invocation.Legible (i : Invocation) : Prop where
  word : isPlainWord i.method.toList = true
  names : ∀ n ∈ i.argument.columns, Quotable n.toList
  ignored : i.method.toList ∈ ignoredCalls → ∃ n, i.argument = .name n

/-! ## Reading a chain -/

variable {rest : List Char} {ts : List (Token Kind)}

theorem lexes_quote {n : String} (hn : Quotable n.toList) (h : Lexes rest ts) :
    Lexes ((quote n).toList ++ rest) (mark .text n :: ts) := by
  have htext := h.text hn
  rw [String.ofList_toList] at htext
  unfold quote
  rw [String.toList_append, String.toList_append, List.append_assoc, List.append_assoc]
  exact htext

theorem lexes_list {ns : List String} (hns : ∀ n ∈ ns, Quotable n.toList) (h : Lexes rest ts) :
    Lexes ((", ".intercalate (ns.map quote)).toList ++ rest) (listTokens ns ++ ts) := by
  rw [String.toList_intercalate, List.map_map]
  induction ns with
  | nil => exact h
  | cons n more ih =>
    have hn := hns n List.mem_cons_self
    have hmore := ih fun m hm => hns m (List.mem_cons_of_mem _ hm)
    cases more with
    | nil =>
      rw [List.map_singleton, List.intercalate_singleton]
      exact lexes_quote hn h
    | cons m more =>
      rw [List.map_cons, List.map_cons, List.intercalate_cons_cons, List.append_assoc,
        List.append_assoc]
      exact lexes_quote hn (Lexes.sign (hmore.space) rfl)

theorem Argument.lexes {a : Argument} (ha : ∀ n ∈ a.columns, Quotable n.toList)
    (h : Lexes rest ts) : Lexes (a.text.toList ++ rest) (a.tokens ++ ts) := by
  cases a with
  | none => exact h
  | name n => exact lexes_quote (ha n (List.mem_singleton.mpr rfl)) h
  | names ns =>
    have hopen := (lexes_list ha (h.sign (c := ']') rfl)).sign (c := '[') rfl
    unfold text tokens quoteAll
    rw [String.toList_append, String.toList_append, List.append_assoc, List.append_assoc,
      List.cons_append, List.append_assoc]
    exact hopen

theorem Invocation.lexes {i : Invocation} (hi : i.Legible) (h : Lexes rest ts) :
    Lexes (i.text.toList ++ rest) (i.tokens ++ ts) := by
  have hchars : i.text.toList ++ rest =
      '-' :: '>' :: (i.method.toList ++ '(' :: (i.argument.text.toList ++ ')' :: rest)) := by
    unfold text
    simp only [String.toList_append, List.append_assoc]
    rfl
  have hparen : Statement.isNameChar '(' = false := by decide
  rw [hchars]
  unfold tokens
  split
  · rename_i hcontains
    have hignored := List.contains_iff_mem.mp hcontains
    obtain ⟨n, hn⟩ := hi.ignored hignored
    have hquotable : Quotable n.toList := hi.names n (by rw [hn]; exact List.mem_singleton.mpr rfl)
    have hskip := h.ignored hquotable hignored hi.word
    rw [hn]
    unfold Argument.text quote
    rw [String.toList_append, String.toList_append, List.append_assoc, List.append_assoc]
    exact hskip
  · rename_i hcontains
    have hmethod : i.method.toList ∉ ignoredCalls :=
      fun hmem => hcontains (List.contains_iff_mem.mpr hmem)
    have hargument := Argument.lexes hi.names (h.sign (c := ')') rfl)
    have hword := (hargument.sign (c := '(') rfl).word _ hi.word (by decide)
    rw [String.ofList_toList] at hword
    have harrow := hword.arrow (by
      rwa [Statement.takeWhile_append_cons (Statement.isNameChar_of_isPlainWord hi.word) hparen])
    rw [List.cons_append, List.cons_append, List.cons_append, List.append_assoc]
    exact harrow

theorem lexes_invocations {c : Chain} (hc : ∀ i ∈ c, i.Legible) (h : Lexes rest ts) :
    Lexes ((c.map Invocation.text).flatMap String.toList ++ rest)
      (c.flatMap Invocation.tokens ++ ts) := by
  induction c with
  | nil => exact h
  | cons i more ih =>
    have hmore := ih fun j hj => hc j (List.mem_cons_of_mem _ hj)
    rw [List.map_cons, List.flatMap_cons, List.flatMap_cons, List.append_assoc, List.append_assoc]
    exact Invocation.lexes (hc i List.mem_cons_self) hmore

theorem Chain.lexes {c : Chain} (hc : ∀ i ∈ c, i.Legible) (h : Lexes rest ts) :
    Lexes ((chainText c).toList ++ rest) (c.tokens ++ ts) := by
  have hcalls := lexes_invocations hc (h.sign (c := ';') rfl)
  have hchars : (chainText c).toList ++ rest = '$' :: ("table".toList ++
      ((c.map Invocation.text).flatMap String.toList ++ ';' :: rest)) := by
    unfold chainText
    simp only [String.toList_append, String.toList_join, List.append_assoc]
    rfl
  have htokens : c.tokens ++ ts = mark .tableVar "$table" ::
      (c.flatMap Invocation.tokens ++ mark .semicolon ";" :: ts) := by
    unfold tokens
    rw [List.cons_append, List.append_assoc]
    rfl
  have hname : ∀ d ∈ "table".toList, Statement.isNameChar d = true :=
    Statement.isNameChar_of_isPlainWord (by decide)
  rw [hchars, htokens]
  -- Behind the variable stands the arrow of the first call, or else the end of the line.
  cases c with
  | nil => exact hcalls.variable _ (by decide) hname (by decide)
  | cons i more =>
    have hfirst : ((i :: more).map Invocation.text).flatMap String.toList ++ ';' :: rest =
        '-' :: ('>' :: ((i.method ++ "(" ++ i.argument.text ++ ")").toList ++
          ((more.map Invocation.text).flatMap String.toList ++ ';' :: rest))) := by
      rw [List.map_cons, List.flatMap_cons]
      unfold Invocation.text
      simp only [String.toList_append, List.append_assoc]
      rfl
    rw [hfirst] at hcalls ⊢
    exact hcalls.variable _ (by decide) hname (by decide)

/-! ## What chains mean -/

/-- The chain is a line with this call. -/
def Chain.Means (c : Chain) (call : Call) : Prop :=
  Derives (part .line) c.tokens (.calls [call])

/-- The modifiers of a column or key with these flags. -/
def flagWords (nullable unique : Bool) : List String :=
  (if nullable then ["nullable"] else []) ++ (if unique then ["unique"] else [])

theorem flagCalls_eq (nullable unique : Bool) :
    flagCalls nullable unique = (flagWords nullable unique).map fun w => { method := w } := by
  cases nullable <;> cases unique <;> rfl

theorem kind_flagWords (nullable unique : Bool) :
    ∀ w ∈ flagWords nullable unique, Kind.ofWord w.toList = .modifier := by
  cases nullable <;> cases unique <;> decide

/-- A word of a kind of its own is no ignored call. -/
theorem not_ignored {w : List Char} (h : Kind.ofWord w ≠ .word) : w ∉ ignoredCalls := by
  have hall : ∀ w ∈ ignoredCalls, Kind.ofWord w = .word := by decide
  exact fun hmem => h (hall w hmem)

/-- The tokens of a call from its method on. -/
def callTokens (kind : Kind) (method : String) (a : Argument) : List (Token Kind) :=
  mark kind method :: mark .openParen "(" :: (a.tokens ++ [mark .closeParen ")"])

/-- The tokens of a call that is not left out. -/
theorem tokens_of_kind {m : String} {kind : Kind} (h : Kind.ofWord m.toList = kind)
    (hkind : kind ≠ .word) (a : Argument) :
    Invocation.tokens ⟨m, a⟩ = mark .arrow "->" :: callTokens kind m a := by
  have hword : ignoredCalls.contains m.toList ≠ true :=
    fun hcontains => not_ignored (h ▸ hkind) (List.contains_iff_mem.mp hcontains)
  unfold Invocation.tokens
  rw [if_neg hword, h]
  rfl

theorem kind_foreign : Kind.ofWord "foreign".toList = .foreign := by decide

theorem kind_foreignId : Kind.ofWord "foreignId".toList = .foreignId := by decide

theorem kind_references : Kind.ofWord "references".toList = .location := by decide

theorem kind_on : Kind.ofWord "on".toList = .location := by decide

/-- That a column tells its table is only confirmed, and left out. -/
theorem tokens_constrained (a : Argument) : Invocation.tokens ⟨"constrained", a⟩ = [] := by
  have hignored : ignoredCalls.contains "constrained".toList = true := by decide
  unfold Invocation.tokens
  exact if_pos hignored

/-! ### Lists of names -/

theorem derives_texts {us : List (Token Kind)} {ns : List String}
    (h : Derives (part .texts) us (.names ns)) (more : List String) :
    Derives (part .texts) (us ++ more.flatMap fun n => [mark .comma ",", mark .text n])
      (.names (ns ++ more)) := by
  induction more generalizing us ns with
  | nil =>
    rw [List.flatMap_nil, List.append_nil, List.append_nil]
    exact h
  | cons n more ih =>
    have hone : Derives (part .texts) (us ++ [mark .comma ",", mark .text n])
        (.names (ns ++ [n])) :=
      (h.cons ((Statement.derivesAll_nil.token (mark .text n)).token (mark .comma ","))).node
        (r := ⟨.texts, [part .texts, tok .comma, tok .text], .names⟩) (by decide)
    have hmore := ih hone
    rw [List.append_assoc, List.append_assoc] at hmore
    exact hmore

theorem listTokens_cons (n : String) (more : List String) :
    listTokens (n :: more) =
      mark .text n :: more.flatMap fun m => [mark .comma ",", mark .text m] := by
  induction more generalizing n with
  | nil => rfl
  | cons m more ih =>
    rw [listTokens, ih, List.flatMap_cons]
    · rfl
    · exact List.cons_ne_nil _ _

theorem Argument.derives {a : Argument} (ha : a.columns ≠ []) :
    Derives (part .columns) a.tokens (.names a.columns) := by
  cases a with
  | none => exact absurd rfl ha
  | name n =>
    exact (Statement.derivesAll_nil.token (mark .text n)).node
      (r := ⟨.columns, [tok .text], .names⟩) (by decide)
  | names ns =>
    cases ns with
    | nil => exact absurd rfl ha
    | cons n more =>
      have hfirst : Derives (part .texts) [mark .text n] (.names [n]) :=
        (Statement.derivesAll_nil.token (mark .text n)).node
          (r := ⟨.texts, [tok .text], .names⟩) (by decide)
      have hlist := derives_texts hfirst more
      have hbrackets := ((hlist.cons (Statement.derivesAll_nil.token
        (mark .closeBracket "]"))).token (mark .openBracket "[")).node
          (r := ⟨.columns, [tok .openBracket, part .texts, tok .closeBracket], .names⟩) (by decide)
      show Derives _ (mark .openBracket "[" :: (listTokens (n :: more) ++
        [mark .closeBracket "]"])) _
      rw [listTokens_cons]
      change Derives _ _ (.names (([n] ++ more) ++ [])) at hbrackets
      rw [List.append_nil] at hbrackets
      exact hbrackets

/-! ### Modifiers -/

/-- The tokens of chained modifiers. -/
def modifierTokens (words : List String) : List (Token Kind) :=
  words.flatMap fun w =>
    [mark .arrow "->", mark .modifier w, mark .openParen "(", mark .closeParen ")"]

theorem derives_modifier (w : String) :
    Derives (part .modifier) [mark .arrow "->", mark .modifier w, mark .openParen "(",
      mark .closeParen ")"] (.modifiers [w]) :=
  ((((Statement.derivesAll_nil.token (mark .closeParen ")")).token (mark .openParen "(")).token
    (mark .modifier w)).token (mark .arrow "->")).node
    (r := ⟨.modifier, [tok .arrow, tok .modifier, tok .openParen, tok .closeParen], .modifier⟩)
    (by decide)

theorem derives_modifiers {us : List (Token Kind)} {ws : List String}
    (h : Derives (part .modifiers) us (.modifiers ws)) (more : List String) :
    Derives (part .modifiers) (us ++ modifierTokens more) (.modifiers (ws ++ more)) := by
  induction more generalizing us ws with
  | nil =>
    show Derives _ (us ++ []) _
    rw [List.append_nil, List.append_nil]
    exact h
  | cons w more ih =>
    have hone : Derives (part .modifiers) _ (.modifiers (ws ++ [w])) :=
      (h.cons (derives_modifier w).single).node
        (r := ⟨.modifiers, [part .modifiers, part .modifier], .modifiers⟩) (by decide)
    have hmore := ih hone
    rw [List.append_assoc, List.append_assoc] at hmore
    exact hmore

theorem derives_modifierTokens {words : List String} (h : words ≠ []) :
    Derives (part .modifiers) (modifierTokens words) (.modifiers words) := by
  cases words with
  | nil => exact absurd rfl h
  | cons w more =>
    have hone : Derives (part .modifiers) _ (.modifiers [w]) := (derives_modifier w).single.node
      (r := ⟨.modifiers, [part .modifier], .modifiers⟩) (by decide)
    exact derives_modifiers hone more

theorem flatMap_tokens_flagCalls (nullable unique : Bool) :
    (flagCalls nullable unique).flatMap Invocation.tokens =
      modifierTokens (flagWords nullable unique) := by
  unfold modifierTokens
  rw [flagCalls_eq, List.flatMap_map]
  apply List.flatMap_congr
  intro w hw
  exact tokens_of_kind (kind_flagWords nullable unique w hw) (by decide) .none

/-! ### Calls -/

/-- A line is a call behind the variable. -/
theorem Chain.means_of_call {c : Chain} (us : List (Token Kind)) {call : Call}
    (htokens : c.flatMap Invocation.tokens = mark .arrow "->" :: us)
    (h : Derives (part .call) us (.calls [call])) : c.Means call := by
  have hline := (((h.cons (Statement.derivesAll_nil.token (mark .semicolon ";"))).token
    (mark .arrow "->")).token (mark .tableVar "$table")).node
      (r := ⟨.line, [tok .tableVar, tok .arrow, part .call, tok .semicolon], .line⟩) (by decide)
  unfold Means tokens
  rw [htokens]
  exact hline

theorem means_nameless {m : String} (h : Kind.ofWord m.toList = .nameless) :
    Chain.Means [{ method := m }] (.nameless m []) := by
  have hcall : Derives (part .call) (callTokens .nameless m .none) (.calls [.nameless m []]) :=
    (((Statement.derivesAll_nil.token (mark .closeParen ")")).token (mark .openParen "(")).token
      (mark .nameless m)).node
      (r := ⟨.call, [tok .nameless, tok .openParen, tok .closeParen], .nameless⟩) (by decide)
  refine Chain.means_of_call _ ?_ hcall
  rw [List.flatMap_singleton]
  exact tokens_of_kind h (by decide) .none

theorem means_modifier {m : String} {a : Argument} (h : Kind.ofWord m.toList = .modifier)
    (ha : a.columns ≠ []) :
    Chain.Means [{ method := m, argument := a }] (.modifier m a.columns) := by
  have hcall : Derives (part .call) (callTokens .modifier m a) (.calls [.modifier m a.columns]) :=
    (((((Argument.derives ha).cons (Statement.derivesAll_nil.token (mark .closeParen ")"))).token
      (mark .openParen "(")).token (mark .modifier m))).node
      (r := ⟨.call, [tok .modifier, tok .openParen, part .columns, tok .closeParen],
        .modifierCall⟩) (by decide)
  refine Chain.means_of_call _ ?_ hcall
  rw [List.flatMap_singleton]
  exact tokens_of_kind h (by decide) a

/-- A call on one name, with the modifiers and what else stands behind it. -/
theorem derives_textCall (kind : Kind) (role : Statement.Role) (m n : String)
    (words : List String) {xs : List (Symbol Kind Part)} {us : List (Token Kind)}
    {ms : List Phrase} (h : DerivesAll xs us ms)
    (hrules : ∀ ys ∈ [[], [part .modifiers]],
      ⟨.call, [tok kind, tok .openParen, tok .text, tok .closeParen] ++ (ys ++ xs), role⟩ ∈
        Statement.grammar.rules) :
    ∃ ps, Phrase.modifiersIn ps = words ++ Phrase.modifiersIn ms ∧
      Phrase.locationIn ps = Phrase.locationIn ms ∧
      Derives (part .call) (callTokens kind m (.name n) ++ (modifierTokens words ++ us))
        (Phrase.compose role (.token (mark kind m) :: .token (mark .openParen "(") ::
          .token (mark .text n) :: .token (mark .closeParen ")") :: ps)) := by
  have hcall : ∀ {ys vs ps}, ys ∈ [[], [part .modifiers]] → DerivesAll (ys ++ xs) vs ps →
      Derives (part .call) (callTokens kind m (.name n) ++ vs)
        (Phrase.compose role (.token (mark kind m) :: .token (mark .openParen "(") ::
          .token (mark .text n) :: .token (mark .closeParen ")") :: ps)) :=
    fun hys hbehind => ((((hbehind.token (mark .closeParen ")")).token (mark .text n)).token
      (mark .openParen "(")).token (mark kind m)).node (hrules _ hys)
  by_cases hnil : words = []
  · subst hnil
    exact ⟨ms, rfl, rfl, hcall List.mem_cons_self h⟩
  · exact ⟨.modifiers words :: ms, rfl, rfl,
      hcall (List.mem_cons_of_mem _ List.mem_cons_self) ((derives_modifierTokens hnil).cons h)⟩

theorem means_column {m n : String} (h : Kind.ofWord m.toList = .type) (nullable unique : Bool) :
    Chain.Means ({ method := m, argument := .name n } :: flagCalls nullable unique)
      (.column m n (flagWords nullable unique)) := by
  obtain ⟨ps, hwords, -, hcall⟩ := derives_textCall .type .column m n
    (flagWords nullable unique) Statement.derivesAll_nil (by decide)
  change Derives _ _ (.calls [.column m n (Phrase.modifiersIn ps)]) at hcall
  rw [hwords, Phrase.modifiersIn, List.flatMap_nil, List.append_nil, List.append_nil] at hcall
  refine Chain.means_of_call _ ?_ hcall
  rw [List.flatMap_cons, flatMap_tokens_flagCalls, tokens_of_kind h (by decide)]
  rfl

theorem derives_target (keyword : String) {a : Argument} (ha : a.columns ≠ []) :
    Derives (part .target) (mark .arrow "->" :: callTokens .location keyword a)
      (.target keyword a.columns) :=
  (((((Argument.derives ha).cons (Statement.derivesAll_nil.token (mark .closeParen ")"))).token
    (mark .openParen "(")).token (mark .location keyword)).token (mark .arrow "->")).node
    (r := ⟨.target, [tok .arrow, tok .location, tok .openParen, part .columns, tok .closeParen],
      .target⟩) (by decide)

/-- The calls that say where a key points. -/
def targetCalls (a : Argument) (table : String) : Chain :=
  [{ method := "references", argument := a }, { method := "on", argument := .name table }]

theorem derives_located {a : Argument} (ha : a.columns ≠ []) (table : String) :
    Derives (part .located) ((targetCalls a table).flatMap Invocation.tokens)
      (.located (some table)) := by
  have hon : (Argument.name table).columns ≠ [] := List.cons_ne_nil _ _
  have hboth := ((derives_target "references" ha).cons
    (derives_target "on" hon).single).node
    (r := ⟨.located, [part .target, part .target], .located⟩) (by decide)
  have htokens : (targetCalls a table).flatMap Invocation.tokens =
      (mark .arrow "->" :: callTokens .location "references" a) ++
        (mark .arrow "->" :: callTokens .location "on" (.name table)) := by
    unfold targetCalls
    rw [List.flatMap_cons, List.flatMap_singleton, tokens_of_kind kind_references (by decide),
      tokens_of_kind kind_on (by decide)]
  rw [htokens]
  exact hboth

theorem means_foreign {a b : Argument} (ha : a.columns ≠ []) (hb : b.columns ≠ [])
    (table : String) :
    Chain.Means ({ method := "foreign", argument := a } :: targetCalls b table)
      (.foreignKey a.columns (some table) []) := by
  have hcall := ((((Argument.derives ha).cons ((derives_located hb table).single.token
    (mark .closeParen ")"))).token (mark .openParen "(")).token (mark .foreign "foreign")).node
    (r := ⟨.call, [tok .foreign, tok .openParen, part .columns, tok .closeParen, part .located],
      .foreign⟩) (by decide)
  refine Chain.means_of_call _ ?_ hcall
  rw [List.flatMap_cons, tokens_of_kind kind_foreign (by decide)]
  unfold callTokens
  rw [List.cons_append, List.cons_append, List.cons_append, List.append_assoc]
  rfl

/-- A key whose column tells the class that it refers to. -/
theorem means_constrained (n table : String) (nullable unique : Bool) :
    Chain.Means ({ method := "foreignId", argument := .name n } :: flagCalls nullable unique ++
      [{ method := "constrained", argument := .name table }])
      (.foreignKey [n] none (flagWords nullable unique)) := by
  obtain ⟨ps, hwords, hlocation, hcall⟩ := derives_textCall .foreignId .foreignId "foreignId" n
    (flagWords nullable unique) Statement.derivesAll_nil (by decide)
  change Derives _ _ (.calls [.foreignKey [n] (Phrase.locationIn ps) (Phrase.modifiersIn ps)])
    at hcall
  rw [hwords, hlocation, Phrase.modifiersIn, List.flatMap_nil, List.append_nil,
    List.append_nil] at hcall
  refine Chain.means_of_call _ ?_ hcall
  rw [List.flatMap_append, List.flatMap_cons, flatMap_tokens_flagCalls, List.flatMap_singleton,
    tokens_of_kind kind_foreignId (by decide), tokens_constrained, List.append_nil]
  rfl

/-- A key that names the table it refers to. -/
theorem means_located {b : Argument} (hb : b.columns ≠ []) (n table : String)
    (nullable unique : Bool) :
    Chain.Means ({ method := "foreignId", argument := .name n } :: flagCalls nullable unique ++
      targetCalls b table) (.foreignKey [n] (some table) (flagWords nullable unique)) := by
  obtain ⟨ps, hwords, hlocation, hcall⟩ := derives_textCall .foreignId .foreignId "foreignId" n
    (flagWords nullable unique) (derives_located hb table).single (by decide)
  change Derives _ _ (.calls [.foreignKey [n] (Phrase.locationIn ps) (Phrase.modifiersIn ps)])
    at hcall
  rw [hwords, hlocation, Phrase.modifiersIn, List.flatMap_singleton, List.append_nil] at hcall
  refine Chain.means_of_call _ ?_ hcall
  rw [List.flatMap_append, List.flatMap_cons, flatMap_tokens_flagCalls,
    tokens_of_kind kind_foreignId (by decide), List.cons_append, List.cons_append,
    List.append_assoc]

end SchemaBridge.Output
