/-
  What is derived, piece by piece: tokens derived from a part come from one of its rules, as tokens
  derived from the symbols of the rule one after the other. A property that every rule keeps holds
  of all derivations.
  Main results: `derives_induct`, `derives_part` and `statement_of_derives`.
-/
import SchemaBridge.Proofs.Statement.Form

namespace SchemaBridge.Statement

/-! ## Pieces -/

open Phrase (compose)

/-- Tokens and meanings that belong to symbols one after the other. -/
inductive Pieces (P : Symbol Kind Part → List (Token Kind) → Phrase → Prop) :
    List (Symbol Kind Part) → List (Token Kind) → List Phrase → Prop
  | nil : Pieces P [] [] []
  | cons {x : Symbol Kind Part} {xs : List (Symbol Kind Part)} {ts us : List (Token Kind)}
      {m : Phrase} {ms : List Phrase} (head : P x ts m) (tail : Pieces P xs us ms) :
      Pieces P (x :: xs) (ts ++ us) (m :: ms)

variable {P Q : Symbol Kind Part → List (Token Kind) → Phrase → Prop} {x : Symbol Kind Part}
  {xs ys : List (Symbol Kind Part)} {ts us : List (Token Kind)} {m : Phrase} {ms : List Phrase}
  {k : Kind}

theorem Pieces.imp (h : Pieces P xs ts ms) (hPQ : ∀ x ∈ xs, ∀ ts m, P x ts m → Q x ts m) :
    Pieces Q xs ts ms := by
  induction h with
  | nil => exact .nil
  | cons head _ ih =>
    obtain ⟨hx, hxs⟩ := List.forall_mem_cons.mp hPQ
    exact .cons (hx _ _ head) (ih hxs)

theorem Pieces.split (h : Pieces P (x :: xs) ts ms) : ∃ us vs m ns, ts = us ++ vs ∧ ms = m :: ns ∧
    P x us m ∧ Pieces P xs vs ns := by
  cases h with
  | cons head tail => exact ⟨_, _, _, _, rfl, rfl, head, tail⟩

theorem Pieces.eq_nil (h : Pieces P [] ts ms) : ts = [] ∧ ms = [] := by
  cases h
  exact ⟨rfl, rfl⟩

theorem Pieces.append (h : Pieces P (xs ++ ys) ts ms) : ∃ us vs ns os, ts = us ++ vs ∧
    ms = ns ++ os ∧ Pieces P xs us ns ∧ Pieces P ys vs os := by
  induction xs generalizing ts ms with
  | nil => exact ⟨[], ts, [], ms, rfl, rfl, .nil, h⟩
  | cons x xs ih =>
    obtain ⟨us, vs, m, ns, rfl, rfl, head, tail⟩ := h.split
    obtain ⟨us', vs', ns', os, rfl, rfl, hxs, hys⟩ := ih tail
    exact ⟨us ++ us', vs', m :: ns', os, (List.append_assoc _ _ _).symm, rfl, .cons head hxs, hys⟩

/-- What is collected from the meanings and what is from the tokens agree if they do on each
piece. -/
theorem Pieces.flatMap_eq {α : Type} {f : Phrase → List α} {g : List (Token Kind) → List α}
    (hnil : g [] = []) (happend : ∀ ts us, g (ts ++ us) = g ts ++ g us)
    (h : Pieces (fun _ ts m => f m = g ts) xs ts ms) : ms.flatMap f = g ts := by
  induction h with
  | nil => exact hnil.symm
  | cons head _ ih => rw [List.flatMap_cons, happend, head, ih]

/-- What tokens put in front of a list agrees with their meanings if it does on each piece. -/
theorem Pieces.flatMap_prefix {α : Type} {f : Phrase → List α} {g : List (Token Kind) → List α}
    (h : Pieces (fun _ ts m => ∀ us, g (ts ++ us) = f m ++ g us) xs ts ms) (us : List (Token Kind)) :
    g (ts ++ us) = ms.flatMap f ++ g us := by
  induction h with
  | nil => rfl
  | cons head _ ih => rw [List.append_assoc, head, ih, List.flatMap_cons, List.append_assoc]

theorem Pieces.forall_mem {Q : Token Kind → Prop} (h : Pieces (fun _ ts _ => ∀ u ∈ ts, Q u) xs ts ms) :
    ∀ u ∈ ts, Q u := by
  induction h with
  | nil => exact List.forall_mem_nil _
  | cons head _ ih => exact List.forall_mem_append.mpr ⟨head, ih⟩

theorem Pieces.exists_of_mem (h : Pieces P xs ts ms) (hx : x ∈ xs) :
    ∃ us m, P x us m ∧ us.Sublist ts := by
  induction h with
  | nil => exact absurd hx List.not_mem_nil
  | cons head _ ih =>
    rcases List.mem_cons.mp hx with rfl | hx
    · exact ⟨_, _, head, List.sublist_append_left _ _⟩
    · obtain ⟨us, m, hm, hsub⟩ := ih hx
      exact ⟨us, m, hm, hsub.trans (List.sublist_append_right _ _)⟩

/-! ## Rules -/

theorem foldAll_eq_map (ts : List Derivation) :
    Tree.foldAll Phrase.token Phrase.compose ts = ts.map Derivation.meaning := by
  induction ts with
  | nil => rfl
  | cons t rest ih => rw [Tree.foldAll, ih]; rfl

theorem meaning_node (r : Rule Kind Part Role) (children : List Derivation) :
    Derivation.meaning (.node r children) =
      Phrase.compose r.tag (children.map Derivation.meaning) := by
  rw [← foldAll_eq_map]
  rfl

/-- What holds of tokens and is kept by every rule holds of all derivations. -/
theorem derives_induct (htoken : ∀ u, P (tok u.kind) [u] (.token u))
    (hrule : ∀ r ∈ grammar.rules, ∀ ts ms, Pieces (fun x ts m => Derives x ts m ∧ P x ts m) r.rhs ts
      ms → P (part r.lhs) ts (compose r.tag ms)) (h : Derives x ts m) : P x ts m := by
  have htree : ∀ t : Derivation, t.Valid grammar.rules → P t.root t.leaves t.meaning := by
    intro t
    induction t using Tree.induct with
    | leaf u => exact fun _ => htoken u
    | node r children ih =>
      intro hvalid
      obtain ⟨hr, hroots, hall⟩ := hvalid
      rw [Tree.validAll_iff] at hall
      have hpieces : ∀ cs : List Derivation, (∀ c ∈ cs, c ∈ children) →
          Pieces (fun x ts m => Derives x ts m ∧ P x ts m) (cs.map Tree.root) (Tree.leavesOf cs)
            (cs.map Derivation.meaning) := by
        intro cs
        induction cs with
        | nil => exact fun _ => .nil
        | cons c rest ihcs =>
          intro hcs
          obtain ⟨hc, hrest⟩ := List.forall_mem_cons.mp hcs
          exact .cons ⟨⟨c, hall c hc, rfl, rfl, rfl⟩, ih c hc (hall c hc)⟩ (ihcs hrest)
      have hrhs := hpieces children fun _ hc => hc
      rw [hroots] at hrhs
      rw [meaning_node]
      exact hrule r hr _ _ hrhs
  obtain ⟨t, hvalid, rfl, rfl, rfl⟩ := h
  exact htree t hvalid

theorem derives_token (h : Derives (tok k) ts m) : ∃ u, u.kind = k ∧ ts = [u] ∧ m = .token u := by
  obtain ⟨t, -, hroot, rfl, rfl⟩ := h
  cases t with
  | leaf u => exact ⟨u, Symbol.terminal.inj hroot, rfl, rfl⟩
  | node => cases hroot

theorem Pieces.split_token (h : Pieces Derives (tok k :: xs) ts ms) : ∃ u us ns,
    ts = u :: us ∧ ms = .token u :: ns ∧ u.kind = k ∧ Pieces Derives xs us ns := by
  obtain ⟨_, us, _, ns, rfl, rfl, hu, hxs⟩ := h.split
  obtain ⟨u, hk, rfl, rfl⟩ := derives_token hu
  exact ⟨u, us, ns, rfl, rfl, hk, hxs⟩

/-- A part is derived by one of its rules. -/
theorem derives_part {p : Part} (h : Derives (part p) ts m) :
    ∃ r ∈ p.rules, ∃ ms, Pieces Derives r.rhs ts ms ∧ m = compose r.tag ms := by
  have hrule : ∀ q, part p = part q →
      ∃ r ∈ q.rules, ∃ ms, Pieces Derives r.rhs ts ms ∧ m = compose r.tag ms := by
    refine derives_induct (P := fun x ts m => ∀ q, x = part q →
      ∃ r ∈ q.rules, ∃ ms, Pieces Derives r.rhs ts ms ∧ m = compose r.tag ms) ?_ ?_ h
    · intro u q hq
      cases hq
    · intro r hr ts ms hms q hq
      refine ⟨r, ?_, ms, hms.imp fun _ _ _ _ h => h.1, rfl⟩
      rw [← rules_of_part]
      exact List.mem_filter.mpr ⟨hr, beq_iff_eq.mpr (Symbol.nonterminal.inj hq)⟩
  exact hrule p rfl

/-! ## Tokens that do not occur -/

/-- The parts hold no token of the kind, at least not one that a rule puts there. -/
def Lacks (ps : List Part) (k : Kind) : Prop :=
  ∀ r ∈ grammar.rules, r.lhs ∈ ps → ∀ x ∈ r.rhs, x ≠ tok k ∧ ∀ p ∈ x.nonterminal?, p ∈ ps

instance (ps : List Part) (k : Kind) : Decidable (Lacks ps k) :=
  inferInstanceAs (Decidable (∀ r ∈ grammar.rules, _ → ∀ x ∈ r.rhs, _ ∧ ∀ p ∈ x.nonterminal?, _))

theorem kind_ne_of_derives {ps : List Part} (hlacks : Lacks ps k) (hx : x ≠ tok k)
    (hps : ∀ p ∈ x.nonterminal?, p ∈ ps) (h : Derives x ts m) : ∀ u ∈ ts, u.kind ≠ k := by
  refine derives_induct (P := fun x ts _ => x ≠ tok k → (∀ p ∈ x.nonterminal?, p ∈ ps) →
    ∀ u ∈ ts, u.kind ≠ k) ?_ ?_ h hx hps
  · intro u hu _ v hv
    rw [List.mem_singleton.mp hv]
    exact fun hk => hu (congrArg tok hk)
  · intro r hr ts ms hms _ hp
    have hrhs := hlacks r hr (hp r.lhs rfl)
    have hpieces : Pieces (fun _ ts _ => ∀ u ∈ ts, u.kind ≠ k) r.rhs ts ms :=
      hms.imp fun x hx _ _ h => h.2 (hrhs x hx).1 (hrhs x hx).2
    exact hpieces.forall_mem

/-! ## Statements -/

/-- What a method of the facade does to a table. -/
def actionOf : Kind → TableAction
  | .create => .create
  | .modify => .modify
  | _ => .drop

/-- Five tokens begin a statement; the third says what is done to the table that the fifth names. -/
theorem Pieces.split_five {a b action d e : Kind}
    (h : Pieces Derives (tok a :: tok b :: tok action :: tok d :: tok e :: xs) ts ms) :
    ∃ t1 t2 t3 t4 table us ns, ts = t1 :: t2 :: t3 :: t4 :: table :: us ∧
      ms = .token t1 :: .token t2 :: .token t3 :: .token t4 :: .token table :: ns ∧
      t3.kind = action ∧ Pieces Derives xs us ns := by
  obtain ⟨t1, _, _, rfl, rfl, -, h⟩ := h.split_token
  obtain ⟨t2, _, _, rfl, rfl, -, h⟩ := h.split_token
  obtain ⟨t3, _, _, rfl, rfl, hk, h⟩ := h.split_token
  obtain ⟨t4, _, _, rfl, rfl, -, h⟩ := h.split_token
  obtain ⟨table, us, ns, rfl, rfl, -, h⟩ := h.split_token
  exact ⟨t1, t2, t3, t4, table, us, ns, rfl, rfl, hk, h⟩

/-- A head says what is done to which table, and holds no brace. -/
theorem head_of_derives (h : Derives (part .head) ts m) :
    ∃ t1 t2 action t4 table rest, ts = t1 :: t2 :: action :: t4 :: table :: rest ∧
      m = .head (actionOf action.kind) table.text ∧ ∀ u ∈ rest, u.kind ≠ .openBrace := by
  obtain ⟨r, hr, ms, hms, rfl⟩ := derives_part h
  have hrules : ∀ r ∈ Part.head.rules, ∃ e ∈ [(Kind.create, Role.createHead), (.modify, .modifyHead)],
      r.tag = e.2 ∧ r.rhs = tok .facade :: tok .doubleColon :: tok e.1 :: tok .openParen ::
        tok .text :: r.rhs.drop 5 ∧
      ∀ x ∈ r.rhs.drop 5, x ≠ tok .openBrace ∧ x.nonterminal? = none := by
    decide
  obtain ⟨e, he, htag, hrhs, hrest⟩ := hrules r hr
  rw [hrhs] at hms
  obtain ⟨t1, t2, action, t4, table, rest, ns, rfl, rfl, haction, hms⟩ := hms.split_five
  refine ⟨t1, t2, action, t4, table, rest, rfl, ?_, ?_⟩
  · rw [htag, haction]
    simp only [List.mem_cons, List.not_mem_nil, or_false] at he
    rcases he with rfl | rfl <;> rfl
  · have hlacks : Lacks [] .openBrace := by decide
    have hpieces : Pieces (fun _ ts _ => ∀ u ∈ ts, u.kind ≠ .openBrace) (r.rhs.drop 5) rest ns :=
      hms.imp fun x hx _ _ h => kind_ne_of_derives hlacks (hrest x hx).1
        (by rw [(hrest x hx).2]; exact fun _ hp => by cases hp) h
    exact hpieces.forall_mem

/-- What is derived as a whole is a statement. -/
theorem statement_of_derives (h : Derives (part .definition) ts m) : ∃ s, m = .statement s := by
  obtain ⟨r, hr, ms, hms, rfl⟩ := derives_part h
  have hrules : ∀ r ∈ Part.definition.rules,
      (r.tag = .block ∧ r.rhs = part .head :: r.rhs.drop 1) ∨
      (r.tag = .dropTable ∧ r.rhs = [tok .facade, tok .doubleColon, tok .drop, tok .openParen,
        tok .text, tok .closeParen, tok .semicolon]) := by
    decide
  rcases hrules r hr with ⟨htag, hrhs⟩ | ⟨htag, hrhs⟩
  · rw [hrhs] at hms
    obtain ⟨_, _, _, _, rfl, rfl, hhead, -⟩ := hms.split
    obtain ⟨_, _, _, _, _, _, -, rfl, -⟩ := head_of_derives hhead
    rw [htag]
    exact ⟨_, rfl⟩
  · rw [hrhs] at hms
    obtain ⟨_, _, _, _, _, _, _, rfl, rfl, -, hms⟩ := hms.split_five
    obtain ⟨_, _, _, rfl, rfl, -, hms⟩ := hms.split_token
    obtain ⟨_, _, _, rfl, rfl, -, hms⟩ := hms.split_token
    obtain ⟨rfl, rfl⟩ := hms.eq_nil
    rw [htag]
    exact ⟨_, rfl⟩

end SchemaBridge.Statement
