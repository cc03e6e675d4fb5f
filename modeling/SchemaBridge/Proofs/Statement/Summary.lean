/-
  What a statement says, told from its tokens: what it does to which table, and a clause for each
  call. A clause takes the names between the parentheses of its call and the keywords among the
  tokens behind them; further arguments, the order of chained modifiers and whether they come twice
  play no part, and of the calls that say where a key points only the last `on` does. This is what
  the derivation of a statement means.
  Main result: `summary_of_read`.
-/
import SchemaBridge.Proofs.Statement.Acceptance

namespace SchemaBridge.Statement

/-! ## Summaries -/

/-- A foreign key: the class it refers to, its columns and the flags chained to it. -/
structure Reference where
  related : String
  columns : List String
  flags : Flags
  deriving DecidableEq, Repr

/-- A call, by what it has for a schema. -/
inductive Clause
  | column (field : Field)
  | reference (key : Reference)
  | /-- Flags for columns declared anywhere. -/ flags (columns : List String) (flags : Flags)
  | dropColumns (columns : List String)
  | /-- A dropped foreign key, by the class it refers to. -/ dropReference (related : String)
  deriving DecidableEq, Repr

structure Summary where
  action : TableAction
  table : String
  clauses : List Clause
  deriving DecidableEq, Repr

/-- The flags that are among the keywords. -/
def flagsAmong (keywords : List String) : Flags :=
  ⟨keywords.contains "nullable", keywords.contains "unique", keywords.contains "primary"⟩

/-- The texts of the tokens of a kind. -/
def wordsOf (kind : Kind) (ts : List (Token Kind)) : List String :=
  (ts.filter (·.kind == kind)).map Token.text

/-- The first name behind the last `on`. -/
def pointedAt : List (Token Kind) → Option String
  | [] => none
  | t :: rest =>
    (pointedAt rest).or
      (if t.kind = .location ∧ t.text = "on" then (wordsOf .text rest).head? else none)

/-- The names between the first parentheses. -/
def argumentsOf (ts : List (Token Kind)) : List String :=
  wordsOf .text (ts.takeWhile (·.kind != .closeParen))

/-- The class that a foreign key refers to: that of the table it names, or else that of its first
column. -/
def relatedTo (table : Option String) (first : String) : String :=
  match table with
  | some t => Naming.className t
  | none => Naming.relatedClass first

/-- The clause of a call, from the token of its method and those behind it. -/
def clauseOf (method : Token Kind) (rest : List (Token Kind)) : Option Clause :=
  let names := argumentsOf rest
  let flags := flagsAmong (wordsOf .modifier rest)
  match method.kind with
  | .type => names.head?.map fun name => .column ⟨name, ColumnType.ofMethod? method.text, flags⟩
  | .nameless =>
    if method.text = "id" then
      some (.column ⟨"id", some .int, { flags with primary := true }⟩)
    else none
  | .modifier => some (.flags names (flagsAmong [method.text]))
  | .foreign | .foreignId =>
    names.head?.map fun first => .reference ⟨relatedTo (pointedAt rest) first, names, flags⟩
  | .dropColumn => some (.dropColumns names)
  | .dropForeign => names.head?.map fun first => .dropReference (Naming.relatedClass first)
  | _ => none

/-- The clause of a line. -/
def clauseOfLine : List (Token Kind) → Option Clause
  | _ :: _ :: method :: rest => clauseOf method rest
  | _ => none

/-- The clauses of the lines, each of which a semicolon ends. -/
def clausesIn (ts : List (Token Kind)) : List Clause :=
  (ts.splitOnP (·.kind == .semicolon)).filterMap clauseOfLine

/-- The third token says what is done to the table and the fifth is its name; the body begins
behind the brace. -/
def summaryOf : List (Token Kind) → Summary
  | _ :: _ :: action :: _ :: table :: rest =>
    { action := actionOf action.kind
      table := table.text
      clauses := clausesIn ((rest.dropWhile (·.kind != .openBrace)).drop 1) }
  | _ => ⟨.drop, "", []⟩

/-! ## What calls mean -/

/-- The clause that a call stands for. -/
def Call.clause : Call → Option Clause
  | .column method name modifiers =>
    some (.column ⟨name, ColumnType.ofMethod? method, flagsAmong modifiers⟩)
  | .nameless method modifiers =>
    if method = "id" then
      some (.column ⟨"id", some .int, { flagsAmong modifiers with primary := true }⟩)
    else none
  | .modifier keyword columns => some (.flags columns (flagsAmong [keyword]))
  | .foreignKey columns table modifiers =>
    columns.head?.map fun first =>
      .reference ⟨relatedTo table first, columns, flagsAmong modifiers⟩
  | .dropColumns columns => some (.dropColumns columns)
  | .dropForeign columns =>
    columns.head?.map fun first => .dropReference (Naming.relatedClass first)

namespace Phrase

/-- The calls that a phrase is. -/
def callsOf : Phrase → List Call
  | calls cs => cs
  | _ => []

/-- The modifiers that a phrase is. -/
def keywordsOf : Phrase → List String
  | modifiers ks => ks
  | _ => []

/-- The clauses that a phrase stands for. -/
def clauses (m : Phrase) : List Clause :=
  m.callsOf.filterMap Call.clause

/-- The table that a phrase locates. -/
def locationOf : Phrase → Option String
  | located table => table
  | _ => none

theorem clauses_singleton (call : Call) : (calls [call]).clauses = call.clause.toList := by
  unfold clauses callsOf
  rw [List.filterMap_cons, List.filterMap_nil]
  cases call.clause <;> rfl

theorem clauses_lines (ms : List Phrase) : (compose .lines ms).clauses = ms.flatMap clauses := by
  show (ms.flatMap callsOf).filterMap Call.clause = _
  rw [List.filterMap_flatMap]
  rfl

theorem locationIn_eq (ms : List Phrase) : locationIn ms = ms.findSome? locationOf := rfl

end Phrase

/-! ## Tokens and the parts that hold them -/

open Phrase (compose callsIn modifiersIn)

variable {x : Symbol Kind Part} {xs : List (Symbol Kind Part)} {ts us : List (Token Kind)}
  {m : Phrase} {ms : List Phrase} {k : Kind}

/-- Lists of names, and arguments without a meaning. -/
def listParts : List Part :=
  [.columns, .texts, .arguments, .argument, .values, .value]

/-- The calls that say where a key points. -/
def pointerParts : List Part :=
  .located :: .target :: listParts

theorem wordsOf_append (k : Kind) (ts us : List (Token Kind)) :
    wordsOf k (ts ++ us) = wordsOf k ts ++ wordsOf k us := by
  unfold wordsOf
  rw [List.filter_append, List.map_append]

theorem wordsOf_eq_nil (h : ∀ u ∈ ts, u.kind ≠ k) : wordsOf k ts = [] := by
  unfold wordsOf
  rw [List.map_eq_nil_iff, List.filter_eq_nil_iff]
  exact fun u hu hk => h u hu (beq_iff_eq.mp hk)

theorem wordsOf_cons_of_ne {u : Token Kind} (h : u.kind ≠ k) (ts : List (Token Kind)) :
    wordsOf k (u :: ts) = wordsOf k ts := by
  unfold wordsOf
  rw [List.filter_cons_of_neg (by simpa using h)]

theorem wordsOf_cons_of_eq {u : Token Kind} (h : u.kind = k) (ts : List (Token Kind)) :
    wordsOf k (u :: ts) = u.text :: wordsOf k ts := by
  unfold wordsOf
  rw [List.filter_cons_of_pos (by simpa using h), List.map_cons]

/-! ## Names and modifiers -/

/-- The names in a list of names are its texts. -/
theorem nameList_of_derives (hx : ∀ p ∈ x.nonterminal?, p = .texts ∨ p = .columns)
    (h : Derives x ts m) : m.nameList = wordsOf .text ts := by
  refine derives_induct (P := fun x ts m => (∀ p ∈ x.nonterminal?, p = .texts ∨ p = .columns) →
    m.nameList = wordsOf .text ts) ?_ ?_ h hx
  · intro u _
    unfold Phrase.nameList
    dsimp only
    split
    · rename_i hk
      rw [wordsOf_cons_of_eq hk]
      rfl
    · rename_i hk
      rw [wordsOf_cons_of_ne hk]
      rfl
  · intro r hr ts ms hms hp
    have hrules : ∀ r ∈ grammar.rules, (r.lhs = .texts ∨ r.lhs = .columns) → r.tag = .names ∧
        ∀ x ∈ r.rhs, ∀ p ∈ x.nonterminal?, p = .texts ∨ p = .columns := by
      decide
    obtain ⟨htag, hrhs⟩ := hrules r hr (hp r.lhs rfl)
    rw [htag]
    have hpieces : Pieces (fun _ ts m => m.nameList = wordsOf .text ts) r.rhs ts ms :=
      hms.imp fun x hx _ _ h => h.2 (hrhs x hx)
    exact hpieces.flatMap_eq rfl (wordsOf_append .text)

/-- A list of names is not empty. -/
theorem nameList_ne_nil {p : Part} (hp : p = .texts ∨ p = .columns) (h : Derives (part p) ts m) :
    m.nameList ≠ [] := by
  have hx : ∀ q ∈ (part p).nonterminal?, q = .texts ∨ q = .columns := by
    intro q hq
    cases hq
    exact hp
  rw [nameList_of_derives hx h]
  refine derives_induct (P := fun x ts _ => x = tok .text ∨ x = part .texts ∨ x = part .columns →
    wordsOf .text ts ≠ []) ?_ ?_ h (.inr (hp.imp (congrArg part) (congrArg part)))
  · intro u hu
    rcases hu with hu | hu | hu
    · rw [wordsOf_cons_of_eq (Symbol.terminal.inj hu)]
      exact List.cons_ne_nil _ _
    · cases hu
    · cases hu
  · intro r hr ts ms hms hp
    have hrules : ∀ r ∈ grammar.rules, (r.lhs = .texts ∨ r.lhs = .columns) →
        ∃ x ∈ r.rhs, x = tok .text ∨ x = part .texts ∨ x = part .columns := by
      decide
    have hlhs : r.lhs = .texts ∨ r.lhs = .columns := by
      rcases hp with hp | hp | hp
      · cases hp
      · exact .inl (Symbol.nonterminal.inj hp)
      · exact .inr (Symbol.nonterminal.inj hp)
    obtain ⟨x, hx, hname⟩ := hrules r hr hlhs
    obtain ⟨us, n, ⟨-, hus⟩, hsub⟩ := hms.exists_of_mem hx
    intro hnil
    have hwords := (hsub.filter (·.kind == .text)).map Token.text
    exact hus hname (List.sublist_nil.mp (hnil ▸ hwords))

/-- The parts of a call behind its first parenthesis. -/
def tailParts : List Part :=
  .modifiers :: .modifier :: pointerParts

theorem keywordsOf_compose {role : Role} (h : role ≠ .modifiers) (h' : role ≠ .modifier)
    (ms : List Phrase) : (compose role ms).keywordsOf = [] := by
  unfold compose
  split <;> first | rfl | exact absurd rfl h | exact absurd rfl h'

/-- The modifiers in a part are the keywords among its tokens. -/
theorem keywordsOf_of_derives (hx : x ≠ tok .modifier) (hp : ∀ p ∈ x.nonterminal?, p ∈ tailParts)
    (h : Derives x ts m) : m.keywordsOf = wordsOf .modifier ts := by
  refine derives_induct (P := fun x ts m => x ≠ tok .modifier →
    (∀ p ∈ x.nonterminal?, p ∈ tailParts) → m.keywordsOf = wordsOf .modifier ts) ?_ ?_ h hx hp
  · intro u hu _
    rw [wordsOf_cons_of_ne fun hk => hu (congrArg tok hk)]
    rfl
  · intro r hr ts ms hms _ hp
    have hrules : ∀ r ∈ grammar.rules, r.lhs ∈ tailParts →
        (r.tag = .modifiers ∧
          ∀ x ∈ r.rhs, x ≠ tok .modifier ∧ ∀ p ∈ x.nonterminal?, p ∈ tailParts) ∨
        (r.tag = .modifier ∧ r.rhs = [tok .arrow, tok .modifier, tok .openParen, tok .closeParen]) ∨
        ((r.tag ≠ .modifiers ∧ r.tag ≠ .modifier) ∧
          ∀ x ∈ r.rhs, x ≠ tok .modifier ∧ ∀ p ∈ x.nonterminal?, p ∈ pointerParts) := by
      decide
    obtain ⟨htag, hrhs⟩ | ⟨htag, hrhs⟩ | ⟨htag, hrhs⟩ := hrules r hr (hp r.lhs rfl)
    · have hpieces : Pieces (fun _ ts m => m.keywordsOf = wordsOf .modifier ts) r.rhs ts ms :=
        hms.imp fun x hx _ _ h => h.2 (hrhs x hx).1 (hrhs x hx).2
      rw [htag]
      exact hpieces.flatMap_eq rfl (wordsOf_append .modifier)
    · rw [hrhs] at hms
      have htokens := hms.imp fun _ _ _ _ h => h.1
      obtain ⟨u1, _, _, rfl, rfl, hk1, htokens⟩ := htokens.split_token
      obtain ⟨u2, _, _, rfl, rfl, hk2, htokens⟩ := htokens.split_token
      obtain ⟨u3, _, _, rfl, rfl, hk3, htokens⟩ := htokens.split_token
      obtain ⟨u4, _, _, rfl, rfl, hk4, htokens⟩ := htokens.split_token
      obtain ⟨rfl, rfl⟩ := htokens.eq_nil
      rw [htag]
      simp [wordsOf, hk1, hk2, hk3, hk4, compose, Phrase.keywordsOf]
    · have hlacks : Lacks pointerParts .modifier := by decide
      have hnone : wordsOf .modifier ts = [] := by
        have hpieces : Pieces (fun _ ts _ => ∀ u ∈ ts, u.kind ≠ .modifier) r.rhs ts ms :=
          hms.imp fun x hx _ _ h => kind_ne_of_derives hlacks (hrhs x hx).1 (hrhs x hx).2 h.1
        exact wordsOf_eq_nil hpieces.forall_mem
      rw [hnone]
      exact keywordsOf_compose htag.1 htag.2 ms

/-! ## Where keys point -/

theorem pointedAt_cons_of_ne {u : Token Kind} (h : u.kind ≠ .location) (ts : List (Token Kind)) :
    pointedAt (u :: ts) = pointedAt ts := by
  rw [pointedAt, if_neg fun hu => h hu.1, Option.or_none]

theorem pointedAt_append (h : ∀ u ∈ ts, u.kind ≠ .location) (us : List (Token Kind)) :
    pointedAt (ts ++ us) = pointedAt us := by
  induction ts with
  | nil => rfl
  | cons u rest ih =>
    obtain ⟨hu, hrest⟩ := List.forall_mem_cons.mp h
    rw [List.cons_append, pointedAt_cons_of_ne hu, ih hrest]

theorem exists_target (h : Derives (part .target) ts m) : ∃ keyword names, names ≠ [] ∧
    m = .target keyword names ∧ ∀ us, pointedAt (ts ++ us) =
      (pointedAt us).or (if keyword = "on" then names.head? else none) := by
  obtain ⟨r, hr, ms, hms, rfl⟩ := derives_part h
  obtain rfl : r = ⟨.target, [tok .arrow, tok .location, tok .openParen, part .columns,
      tok .closeParen], .target⟩ := List.mem_singleton.mp hr
  obtain ⟨a, _, _, rfl, rfl, ha, hms⟩ := hms.split_token
  obtain ⟨u, _, _, rfl, rfl, hu, hms⟩ := hms.split_token
  obtain ⟨o, _, _, rfl, rfl, ho, hms⟩ := hms.split_token
  obtain ⟨cs, _, columns, _, rfl, rfl, hcolumns, hms⟩ := hms.split
  obtain ⟨c, _, _, rfl, rfl, hc, hms⟩ := hms.split_token
  obtain ⟨rfl, rfl⟩ := hms.eq_nil
  have hnames := nameList_of_derives (by decide) hcolumns
  have hne := nameList_ne_nil (.inr rfl) hcolumns
  have hlacks : Lacks listParts .location := by decide
  have hplain := kind_ne_of_derives hlacks (by decide) (by decide) hcolumns
  refine ⟨u.text, columns.nameList, hne, rfl, fun us => ?_⟩
  have hbehind : ∀ v ∈ o :: (cs ++ [c]), v.kind ≠ .location := by
    simp only [List.mem_cons, List.mem_append, List.not_mem_nil, or_false]
    rintro v (rfl | hv | rfl)
    · simp [ho]
    · exact hplain v hv
    · simp [hc]
  have hwords : (wordsOf .text (o :: (cs ++ c :: us))).head? = columns.nameList.head? := by
    rw [wordsOf_cons_of_ne (by simp [ho]), wordsOf_append, ← hnames, List.head?_append_of_ne_nil _ hne]
  show pointedAt (a :: u :: (o :: (cs ++ [c]) ++ us)) = _
  rw [pointedAt_cons_of_ne (by simp [ha]), pointedAt, pointedAt_append hbehind]
  simp only [hu, true_and, List.cons_append, List.append_assoc, List.nil_append, hwords]

theorem meaning_located (h : Derives (part .located) ts m) : m = .located (pointedAt ts) := by
  obtain ⟨r, hr, ms, hms, rfl⟩ := derives_part h
  obtain rfl : r = ⟨.located, [part .target, part .target], .located⟩ := List.mem_singleton.mp hr
  obtain ⟨t1, _, _, _, rfl, rfl, h1, hms⟩ := hms.split
  obtain ⟨t2, _, _, _, rfl, rfl, h2, hms⟩ := hms.split
  obtain ⟨rfl, rfl⟩ := hms.eq_nil
  obtain ⟨k1, n1, hne1, rfl, hp1⟩ := exists_target h1
  obtain ⟨k2, n2, hne2, rfl, hp2⟩ := exists_target h2
  rw [hp1, hp2]
  show Phrase.located (if k2 = "on" then n2.head? else if k1 = "on" then n1.head? else none) = _
  obtain ⟨a, _, rfl⟩ := List.exists_cons_of_ne_nil hne2
  by_cases hon : k2 = "on"
  · rw [if_pos hon, if_pos hon]
    rfl
  · rw [if_neg hon, if_neg hon]
    rfl

/-! ## Calls -/

/-- What may stand behind the parentheses of a call. -/
def tails : List (List (Symbol Kind Part)) :=
  [[], [part .modifiers], [part .located], [part .modifiers, part .located]]

theorem modifiersIn_of_pieces (h : Pieces Derives xs ts ms)
    (hxs : ∀ x ∈ xs, x ≠ tok .modifier ∧ ∀ p ∈ x.nonterminal?, p ∈ tailParts) :
    modifiersIn ms = wordsOf .modifier ts := by
  have hpieces : Pieces (fun _ ts m => m.keywordsOf = wordsOf .modifier ts) xs ts ms :=
    h.imp fun x hx _ _ hm => keywordsOf_of_derives (hxs x hx).1 (hxs x hx).2 hm
  exact hpieces.flatMap_eq rfl (wordsOf_append .modifier)

theorem locationOf_modifiers (h : Derives (part .modifiers) ts m) : m.locationOf = none := by
  obtain ⟨r, hr, ms, -, rfl⟩ := derives_part h
  have htag : r.tag = .modifiers := by
    have hall : ∀ r ∈ Part.modifiers.rules, r.tag = .modifiers := by decide
    exact hall r hr
  rw [htag]
  rfl

theorem findSome?_located (table : Option String) :
    [Phrase.located table].findSome? Phrase.locationOf = table := by
  cases table <;> rfl

theorem locationIn_tail (h : Pieces Derives xs ts ms) (hxs : xs ∈ tails) :
    Phrase.locationIn ms = pointedAt ts := by
  have hlacks : Lacks (.modifiers :: .modifier :: []) .location := by decide
  rw [Phrase.locationIn_eq]
  simp only [tails, List.mem_cons, List.not_mem_nil, or_false] at hxs
  rcases hxs with rfl | rfl | rfl | rfl
  · obtain ⟨rfl, rfl⟩ := h.eq_nil
    rfl
  · obtain ⟨t1, _, m1, _, rfl, rfl, h1, h⟩ := h.split
    obtain ⟨rfl, rfl⟩ := h.eq_nil
    rw [pointedAt_append (kind_ne_of_derives hlacks (by decide) (by decide) h1),
      List.findSome?_cons, locationOf_modifiers h1]
    rfl
  · obtain ⟨t1, _, m1, _, rfl, rfl, h1, h⟩ := h.split
    obtain ⟨rfl, rfl⟩ := h.eq_nil
    rw [meaning_located h1, List.append_nil]
    exact findSome?_located _
  · obtain ⟨t1, _, m1, _, rfl, rfl, h1, h⟩ := h.split
    obtain ⟨t2, _, m2, _, rfl, rfl, h2, h⟩ := h.split
    obtain ⟨rfl, rfl⟩ := h.eq_nil
    rw [pointedAt_append (kind_ne_of_derives hlacks (by decide) (by decide) h1),
      List.findSome?_cons, locationOf_modifiers h1, meaning_located h2, List.append_nil]
    exact findSome?_located _

/-- What stands in the parentheses of a call. -/
def IsInside (xs : List (Symbol Kind Part)) : Prop :=
  ∀ x ∈ xs, x ∉ [tok .closeParen, tok .modifier, tok .location] ∧ ∀ p ∈ x.nonterminal?, p ∈ listParts

instance : DecidablePred IsInside :=
  fun xs => inferInstanceAs (Decidable (∀ x ∈ xs, _ ∧ ∀ p ∈ x.nonterminal?, _))

/-- No token of these kinds stands inside the parentheses. -/
theorem kind_ne_of_inside (hxs : IsInside xs) (hk : k ∈ [Kind.closeParen, .modifier, .location])
    (h : Pieces Derives xs ts ms) : ∀ u ∈ ts, u.kind ≠ k := by
  have hlacks : ∀ k ∈ [Kind.closeParen, .modifier, .location], Lacks listParts k := by decide
  have hpieces : Pieces (fun _ ts _ => ∀ u ∈ ts, u.kind ≠ k) xs ts ms := by
    refine h.imp fun x hx _ _ hm => kind_ne_of_derives (hlacks k hk) ?_ (hxs x hx).2 hm
    rintro rfl
    exact (hxs _ hx).1 (List.mem_map_of_mem (f := tok) hk)
  exact hpieces.forall_mem

/-- A call by its parts: the names between its parentheses, its modifiers and the table that it
points at. -/
theorem exists_call {inner tail : List (Symbol Kind Part)}
    (h : Pieces Derives (tok k :: tok .openParen :: (inner ++ tok .closeParen :: tail)) ts ms)
    (hinner : IsInside inner) (htail : tail ∈ tails) :
    ∃ method rest o inside front close back, method.kind = k ∧ ts = method :: rest ∧
      ms = .token method :: .token o :: (front ++ .token close :: back) ∧
      Pieces Derives inner inside front ∧ argumentsOf rest = wordsOf .text inside ∧
      wordsOf .modifier rest = modifiersIn back ∧ pointedAt rest = Phrase.locationIn back := by
  obtain ⟨method, _, _, rfl, rfl, hk, h⟩ := h.split_token
  obtain ⟨o, _, _, rfl, rfl, ho, h⟩ := h.split_token
  obtain ⟨inside, _, front, _, rfl, rfl, hinside, h⟩ := h.append
  obtain ⟨close, behind, back, rfl, rfl, hc, htailed⟩ := h.split_token
  have hnone : ∀ k ∈ [Kind.closeParen, .modifier, .location], ∀ u ∈ inside, u.kind ≠ k :=
    fun k hk => kind_ne_of_inside hinner hk hinside
  have htailwords : modifiersIn back = wordsOf .modifier behind := by
    apply modifiersIn_of_pieces htailed
    have hall : ∀ xs ∈ tails, ∀ x ∈ xs, x ≠ tok .modifier ∧ ∀ p ∈ x.nonterminal?, p ∈ tailParts := by
      decide
    exact hall tail htail
  refine ⟨method, o :: (inside ++ close :: behind), o, inside, front, close, back, hk, rfl, rfl,
    hinside, ?_, ?_, ?_⟩
  · unfold argumentsOf
    rw [List.takeWhile_cons_of_pos (by simp [ho]), List.takeWhile_append_of_pos,
      List.takeWhile_cons_of_neg (by simp [hc]), List.append_nil, wordsOf_cons_of_ne (by simp [ho])]
    exact fun u hu => bne_iff_ne.mpr (hnone _ (by decide) u hu)
  · rw [wordsOf_cons_of_ne (by simp [ho]), wordsOf_append, wordsOf_eq_nil (hnone _ (by decide)),
      wordsOf_cons_of_ne (by simp [hc]), htailwords]
    rfl
  · rw [pointedAt_cons_of_ne (by simp [ho]), pointedAt_append (hnone _ (by decide)),
      pointedAt_cons_of_ne (by simp [hc]), locationIn_tail htailed htail]

/-- The calls of the grammar: what they stand for, their method and what stands in their
parentheses. -/
def callShapes : List (Role × Kind × List (Symbol Kind Part)) :=
  [(.column, .type, [tok .text]), (.column, .type, [tok .text, tok .comma, part .arguments]),
    (.nameless, .nameless, []), (.modifierCall, .modifier, [part .columns]),
    (.foreign, .foreign, [part .columns]), (.foreignId, .foreignId, [tok .text]),
    (.dropColumn, .dropColumn, [part .columns]), (.dropForeign, .dropForeign, [part .columns])]

/-- Where only names stand in the parentheses, they are the texts there. -/
theorem exists_names {inside : List (Token Kind)} {front : List Phrase}
    (h : Pieces Derives [x] inside front) (hx : ∀ p ∈ x.nonterminal?, p = .texts ∨ p = .columns) :
    ∃ names, front = [names] ∧ names.nameList = wordsOf .text inside := by
  obtain ⟨us, _, names, _, rfl, rfl, hnames, h⟩ := h.split
  obtain ⟨rfl, rfl⟩ := h.eq_nil
  refine ⟨names, rfl, ?_⟩
  rw [List.append_nil, nameList_of_derives hx hnames]

/-- Further arguments are no modifiers. -/
theorem modifiersIn_arguments (h : Derives (part .arguments) ts m) (comma close : Token Kind)
    (back : List Phrase) :
    modifiersIn (.token comma :: m :: .token close :: back) = modifiersIn back := by
  have hlacks : Lacks listParts .modifier := by decide
  have hnone : m.keywordsOf = [] := by
    rw [keywordsOf_of_derives (by decide) (by decide) h]
    exact wordsOf_eq_nil (kind_ne_of_derives hlacks (by decide) (by decide) h)
  show [] ++ (m.keywordsOf ++ ([] ++ modifiersIn back)) = _
  rw [hnone]
  rfl

/-- The clauses of a call are told from its tokens. -/
theorem clauses_call (h : Derives (part .call) ts m) :
    ∃ method rest, ts = method :: rest ∧ m.clauses = (clauseOf method rest).toList := by
  obtain ⟨r, hr, ms, hms, rfl⟩ := derives_part h
  have hshapes : ∀ r ∈ Part.call.rules, ∃ e ∈ callShapes, ∃ tail ∈ tails, r.tag = e.1 ∧
      r.rhs = tok e.2.1 :: tok .openParen :: (e.2.2 ++ tok .closeParen :: tail) := by
    decide
  have hinside : ∀ e ∈ callShapes, IsInside e.2.2 := by decide
  obtain ⟨⟨role, k, inner⟩, he, tail, htail, htag, hrhs⟩ := hshapes r hr
  rw [hrhs] at hms
  rw [htag]
  obtain ⟨method, rest, o, inside, front, close, back, hk, rfl, rfl, hfront, harguments, hmodifiers,
    hlocation⟩ := exists_call hms (hinside _ he) htail
  refine ⟨method, rest, rfl, ?_⟩
  unfold clauseOf
  dsimp only at hk hfront ⊢
  rw [hk, harguments, hmodifiers, hlocation]
  simp only [callShapes, List.mem_cons, Prod.mk.injEq, List.not_mem_nil, or_false] at he
  rcases he with ⟨rfl, rfl, rfl⟩ | ⟨rfl, rfl, rfl⟩ | ⟨rfl, rfl, rfl⟩ | ⟨rfl, rfl, rfl⟩ |
    ⟨rfl, rfl, rfl⟩ | ⟨rfl, rfl, rfl⟩ | ⟨rfl, rfl, rfl⟩ | ⟨rfl, rfl, rfl⟩
  · -- a column
    obtain ⟨name, _, _, rfl, rfl, hname, hfront⟩ := hfront.split_token
    obtain ⟨rfl, rfl⟩ := hfront.eq_nil
    rw [wordsOf_cons_of_eq hname]
    rfl
  · -- a column with further arguments
    obtain ⟨name, _, _, rfl, rfl, hname, hfront⟩ := hfront.split_token
    obtain ⟨comma, _, _, rfl, rfl, -, hfront⟩ := hfront.split_token
    obtain ⟨_, _, arguments, _, rfl, rfl, hargs, hfront⟩ := hfront.split
    obtain ⟨rfl, rfl⟩ := hfront.eq_nil
    rw [← modifiersIn_arguments hargs comma close, wordsOf_cons_of_eq hname]
    rfl
  · -- a column of a fixed name
    obtain ⟨rfl, rfl⟩ := hfront.eq_nil
    exact Phrase.clauses_singleton _
  · -- a modifier
    obtain ⟨names, rfl, hnames⟩ := exists_names hfront (by decide)
    rw [← hnames]
    rfl
  · -- a foreign key
    obtain ⟨names, rfl, hnames⟩ := exists_names hfront (by decide)
    rw [← hnames]
    exact Phrase.clauses_singleton _
  · -- a foreign key of one column
    obtain ⟨names, rfl, hnames⟩ := exists_names hfront (by decide)
    rw [← hnames]
    exact Phrase.clauses_singleton _
  · -- dropped columns
    obtain ⟨names, rfl, hnames⟩ := exists_names hfront (by decide)
    rw [← hnames]
    rfl
  · -- a dropped foreign key
    obtain ⟨names, rfl, hnames⟩ := exists_names hfront (by decide)
    rw [← hnames]
    exact Phrase.clauses_singleton _

/-! ## Lines -/

theorem clausesIn_append {semicolon : Token Kind} (hsemicolon : semicolon.kind = .semicolon)
    (h : ∀ u ∈ ts, u.kind ≠ .semicolon) (us : List (Token Kind)) :
    clausesIn (ts ++ semicolon :: us) = (clauseOfLine ts).toList ++ clausesIn us := by
  have hsplit : ts.splitOnP (·.kind == .semicolon) = [ts] :=
    List.splitOnP_eq_singleton (by simpa using h)
  unfold clausesIn
  rw [List.splitOnP_append_cons _ _ (by simpa using hsemicolon), hsplit, List.filterMap_append,
    List.filterMap_cons, List.filterMap_nil]
  cases clauseOfLine ts <;> rfl

/-- The clauses of a line come first among those of the tokens from there on. -/
theorem clausesIn_line (h : Derives (part .line) ts m) (us : List (Token Kind)) :
    clausesIn (ts ++ us) = m.clauses ++ clausesIn us := by
  obtain ⟨r, hr, ms, hms, rfl⟩ := derives_part h
  have hrules : ∀ r ∈ Part.line.rules,
      r = ⟨.line, [tok .tableVar, tok .arrow, part .call, tok .semicolon], .line⟩ ∨
      r = ⟨.line, [tok .tableVar, tok .semicolon], .emptyLine⟩ := by
    decide
  rcases hrules r hr with rfl | rfl
  · obtain ⟨table, _, _, rfl, rfl, ht, hms⟩ := hms.split_token
    obtain ⟨arrow, _, _, rfl, rfl, ha, hms⟩ := hms.split_token
    obtain ⟨cs, _, call, _, rfl, rfl, hcall, hms⟩ := hms.split
    obtain ⟨semicolon, _, _, rfl, rfl, hs, hms⟩ := hms.split_token
    obtain ⟨rfl, rfl⟩ := hms.eq_nil
    have hplain : ∀ u ∈ table :: arrow :: cs, u.kind ≠ .semicolon := by
      have hlacks : Lacks (.call :: tailParts) .semicolon := by decide
      have hcs := kind_ne_of_derives hlacks (by decide) (by decide) hcall
      simp only [List.mem_cons]
      rintro u (rfl | rfl | hu)
      · simp [ht]
      · simp [ha]
      · exact hcs u hu
    obtain ⟨method, rest, rfl, hclauses⟩ := clauses_call hcall
    have hline : (compose .line [.token table, .token arrow, call, .token semicolon]).clauses =
        call.clauses := by
      show (call.callsOf ++ []).filterMap Call.clause = _
      rw [List.append_nil]
      rfl
    rw [hline, hclauses]
    calc
      clausesIn (table :: arrow :: (method :: rest ++ [semicolon]) ++ us)
      _ = clausesIn (table :: arrow :: method :: rest ++ semicolon :: us) := by simp
      _ = (clauseOf method rest).toList ++ clausesIn us := clausesIn_append hs hplain us
  · obtain ⟨table, _, _, rfl, rfl, ht, hms⟩ := hms.split_token
    obtain ⟨semicolon, _, _, rfl, rfl, hs, hms⟩ := hms.split_token
    obtain ⟨rfl, rfl⟩ := hms.eq_nil
    have hplain : ∀ u ∈ [table], u.kind ≠ .semicolon := by
      simp [ht]
    exact clausesIn_append hs hplain us

/-- The clauses of lines come first among those of the tokens from there on. -/
theorem clausesIn_lines (h : Derives (part .lines) ts m) (us : List (Token Kind)) :
    clausesIn (ts ++ us) = m.clauses ++ clausesIn us := by
  refine derives_induct (P := fun x ts m => x = part .lines →
    ∀ us, clausesIn (ts ++ us) = m.clauses ++ clausesIn us) ?_ ?_ h rfl us
  · intro u hu
    cases hu
  · intro r hr ts ms hms hlines
    have hrules : ∀ r ∈ grammar.rules, r.lhs = .lines → r.tag = .lines ∧
        ∀ x ∈ r.rhs, x = part .line ∨ x = part .lines := by
      decide
    obtain ⟨htag, hrhs⟩ := hrules r hr (Symbol.nonterminal.inj hlines)
    rw [htag, Phrase.clauses_lines]
    refine Pieces.flatMap_prefix (hms.imp fun x hx ts m h => ?_)
    rcases hrhs x hx with rfl | rfl
    · exact clausesIn_line h.1
    · exact h.2 rfl

/-! ## Statements -/

/-- The clauses are those behind the brace. -/
theorem summaryOf_head (h : Derives (part .head) ts m) : ∃ action table, m = .head action table ∧
    ∀ brace us, brace.kind = .openBrace →
      summaryOf (ts ++ brace :: us) = ⟨action, table, clausesIn us⟩ := by
  obtain ⟨t1, t2, action, t4, table, rest, rfl, rfl, hplain⟩ := head_of_derives h
  refine ⟨_, _, rfl, fun brace us hbrace => ?_⟩
  simp only [List.cons_append, summaryOf]
  rw [List.dropWhile_append_of_pos fun u hu => bne_iff_ne.mpr (hplain u hu),
    List.dropWhile_cons_of_neg (by simp [hbrace])]
  rfl

/-- No clause comes from the end of the closure. -/
theorem clausesIn_end (h : Pieces Derives [tok .closeBrace, tok .closeParen, tok .semicolon] ts ms) :
    clausesIn ts = [] ∧ callsIn ms = [] := by
  obtain ⟨brace, _, _, rfl, rfl, hbrace, h⟩ := h.split_token
  obtain ⟨paren, _, _, rfl, rfl, hparen, h⟩ := h.split_token
  obtain ⟨semicolon, _, _, rfl, rfl, hsemicolon, h⟩ := h.split_token
  obtain ⟨rfl, rfl⟩ := h.eq_nil
  have hplain : ∀ u ∈ [brace, paren], u.kind ≠ .semicolon := by
    simp [hbrace, hparen]
  exact ⟨clausesIn_append hsemicolon hplain [], rfl⟩

/-- The summary of tokens is that of the statement they are. -/
theorem summaryOf_of_derives {s : SchemaBridge.Statement}
    (h : Derives (part .definition) ts (.statement s)) :
    summaryOf ts = ⟨s.action, s.table, s.calls.filterMap Call.clause⟩ := by
  obtain ⟨r, hr, ms, hms, hs⟩ := derives_part h
  have hrules : ∀ r ∈ Part.definition.rules,
      r = ⟨.definition, [part .head, tok .openBrace, part .lines, tok .closeBrace, tok .closeParen,
        tok .semicolon], .block⟩ ∨
      r = ⟨.definition, [part .head, tok .openBrace, tok .closeBrace, tok .closeParen,
        tok .semicolon], .block⟩ ∨
      r = ⟨.definition, [tok .facade, tok .doubleColon, tok .drop, tok .openParen, tok .text,
        tok .closeParen, tok .semicolon], .dropTable⟩ := by
    decide
  rcases hrules r hr with rfl | rfl | rfl
  · obtain ⟨head, _, _, _, rfl, rfl, hhead, hms⟩ := hms.split
    obtain ⟨brace, _, _, rfl, rfl, hbrace, hms⟩ := hms.split_token
    obtain ⟨lines, _, body, ns, rfl, rfl, hlines, hms⟩ := hms.split
    obtain ⟨hclauses, hcalls⟩ := clausesIn_end hms
    obtain ⟨action, table, rfl, hsummary⟩ := summaryOf_head hhead
    obtain rfl := Phrase.statement.inj hs
    rw [hsummary _ _ hbrace, clausesIn_lines hlines, hclauses, List.append_nil]
    show _ = Summary.mk action table ((body.callsOf ++ callsIn ns).filterMap Call.clause)
    rw [hcalls, List.append_nil]
    rfl
  · obtain ⟨head, _, _, _, rfl, rfl, hhead, hms⟩ := hms.split
    obtain ⟨brace, _, ns, rfl, rfl, hbrace, hms⟩ := hms.split_token
    obtain ⟨hclauses, hcalls⟩ := clausesIn_end hms
    obtain ⟨action, table, rfl, hsummary⟩ := summaryOf_head hhead
    obtain rfl := Phrase.statement.inj hs
    rw [hsummary _ _ hbrace, hclauses]
    show _ = Summary.mk action table ((callsIn ns).filterMap Call.clause)
    rw [hcalls]
    rfl
  · obtain ⟨t1, t2, drop, t4, table, _, _, rfl, rfl, hdrop, hms⟩ := hms.split_five
    obtain ⟨paren, _, _, rfl, rfl, hparen, hms⟩ := hms.split_token
    obtain ⟨semicolon, _, _, rfl, rfl, hsemicolon, hms⟩ := hms.split_token
    obtain ⟨rfl, rfl⟩ := hms.eq_nil
    obtain rfl := Phrase.statement.inj hs
    have hbody : ([paren, semicolon].dropWhile (·.kind != .openBrace)).drop 1 = [] := by
      simp [hparen, hsemicolon]
    show Summary.mk (actionOf drop.kind) table.text
      (clausesIn (([paren, semicolon].dropWhile (·.kind != .openBrace)).drop 1)) = _
    rw [hdrop, hbody]
    rfl

theorem meaning_of_ofTree? {t : Derivation} {s : SchemaBridge.Statement} (h : ofTree? t = some s) :
    t.meaning = .statement s := by
  unfold ofTree? at h
  unfold Derivation.meaning
  split at h
  · rename_i hfold
    rw [hfold, Option.some.inj h]
  · cases h

theorem ofTree?_of_ofOutcome {text : String} {s : SchemaBridge.Statement} {t : Derivation}
    (h : ofOutcome text (.accepted t) = .ok s) : ofTree? t = some s := by
  unfold ofOutcome at h
  dsimp only at h
  cases ht : ofTree? t with
  | some s' =>
    rw [ht] at h
    rw [Except.ok.inj h]
  | none =>
    rw [ht] at h
    cases h

/-- A text that is read as a statement is derived as it. -/
theorem derives_of_read {text : String} {s : SchemaBridge.Statement} (h : read text = .ok s) :
    Derives (part .definition) (tokenize text).tokens (.statement s) := by
  have hverdict := Grammar.parse_verdict compile_grammar productive_grammar conflictFree_grammar
    (tokenize text) (Text.byteLength text.toList)
  unfold read derive automaton at h
  generalize grammar.tables.parse (tokenize text) (Text.byteLength text.toList) = outcome
    at hverdict h
  cases hverdict with
  | @accepted t hfailure ht =>
    exact ⟨t, ht.valid, ht.root_eq, ht.leaves_eq, meaning_of_ofTree? (ofTree?_of_ofOutcome h)⟩
  | _ => cases h

/-- What a statement says is told from its tokens. -/
theorem summary_of_read {text : String} {s : SchemaBridge.Statement} (h : read text = .ok s) :
    summaryOf (tokenize text).tokens = ⟨s.action, s.table, s.calls.filterMap Call.clause⟩ :=
  summaryOf_of_derives (derives_of_read h)

/-! ## Texts -/

/-- The text has the form of a statement, and this is what it says. -/
structure Says (text : String) (m : Summary) : Prop where
  failure_eq : (tokenize text).failure = none
  mem_language : (tokenize text).tokens.map Token.kind ∈ language
  summary_eq : summaryOf (tokenize text).tokens = m

instance (text : String) (m : Summary) : Decidable (Says text m) :=
  decidable_of_iff ((tokenize text).failure = none ∧
      (tokenize text).tokens.map Token.kind ∈ language ∧ summaryOf (tokenize text).tokens = m)
    ⟨fun ⟨hfailure, hmem, hsummary⟩ => ⟨hfailure, hmem, hsummary⟩,
      fun h => ⟨h.failure_eq, h.mem_language, h.summary_eq⟩⟩

theorem Says.read {text : String} {m : Summary} (h : Says text m) :
    ∃ s, read text = .ok s ∧ m = ⟨s.action, s.table, s.calls.filterMap Call.clause⟩ := by
  obtain ⟨s, hread⟩ := exists_read h.failure_eq h.mem_language
  exact ⟨s, hread, h.summary_eq.symm.trans (summary_of_read hread)⟩

end SchemaBridge.Statement
