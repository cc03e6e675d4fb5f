/-
  Statements that have a derivation are read as what it means. `Derives x ts m` says that the
  tokens `ts` are derived from the symbol `x` with the meaning `m`; where the tokens stand plays no
  part, neither for the derivation nor for its meaning.
  Main result: `read_of_derives`.
-/
import SchemaBridge.Statement.Read
import SchemaBridge.Proofs.Grammar.Size
import SchemaBridge.Proofs.Statement.Lexer

namespace SchemaBridge.Statement

/-! ## The grammar of statements -/

/-- How far the rules of one symbol lead down from a part. -/
def Part.rank : Part → Nat
  | .arguments => 3
  | .argument | .values | .lines | .modifiers => 2
  | _ => 1

theorem descends_grammar : grammar.Descends Part.rank 3 := by
  refine ⟨fun n => ?_, fun n => ?_, by decide, fun r hr x hx => ?_⟩
  · cases n <;> decide
  · cases n <;> decide
  · have hunit : ∀ r ∈ grammar.rules, ∀ x ∈ r.rhs.head?, r.rhs.length = 1 →
        x.rank Part.rank < Part.rank r.lhs := by
      decide
    exact hunit r hr x (by rw [hx]; rfl) (by rw [hx]; rfl)

/-! ## Meanings without places -/

namespace Phrase

/-- The phrase without the place of its token. -/
def placeless : Phrase → Phrase
  | token t => token t.placeless
  | p => p

@[simp] theorem nameList_placeless (p : Phrase) : p.placeless.nameList = p.nameList := by
  cases p <;> rfl

@[simp] theorem modifiersIn_placeless (ps : List Phrase) :
    modifiersIn (ps.map placeless) = modifiersIn ps := by
  unfold modifiersIn
  rw [List.flatMap_map]
  congr 1
  funext p
  cases p <;> rfl

@[simp] theorem callsIn_placeless (ps : List Phrase) :
    callsIn (ps.map placeless) = callsIn ps := by
  unfold callsIn
  rw [List.flatMap_map]
  congr 1
  funext p
  cases p <;> rfl

@[simp] theorem tableIn_placeless (ps : List Phrase) :
    tableIn (ps.map placeless) = tableIn ps := by
  unfold tableIn
  rw [List.foldl_map]
  congr 1
  funext found p
  cases p <;> rfl

@[simp] theorem locationIn_placeless (ps : List Phrase) :
    locationIn (ps.map placeless) = locationIn ps := by
  unfold locationIn
  rw [List.findSome?_map]
  congr 1
  funext p
  cases p <;> rfl

@[simp] theorem names_placeless (ps : List Phrase) :
    (ps.map placeless).flatMap nameList = ps.flatMap nameList := by
  rw [List.flatMap_map]
  congr 1
  funext p
  exact nameList_placeless p

/-- What a whole means does not depend on where its tokens stand. Only tokens at fixed positions
and the names, modifiers, calls and locations among the parts are looked at. -/
theorem compose_placeless (role : Role) (ps : List Phrase) :
    compose role (ps.map placeless) = compose role ps := by
  cases role with
  | block =>
    rcases ps with _ | ⟨p, rest⟩
    · rfl
    · cases p <;> simp [compose, placeless]
  | dropTable =>
    rcases ps with _ | ⟨a, _ | ⟨b, _ | ⟨c, _ | ⟨d, _ | ⟨e, _ | ⟨f, _ | ⟨g, _ | ⟨h, rest⟩⟩⟩⟩⟩⟩⟩⟩ <;>
      first | rfl | (cases e <;> rfl)
  | createHead | modifyHead =>
    rcases ps with _ | ⟨a, _ | ⟨b, _ | ⟨c, _ | ⟨d, _ | ⟨e, rest⟩⟩⟩⟩⟩ <;>
      first | rfl | (cases e <;> rfl)
  | column =>
    rcases ps with _ | ⟨a, _ | ⟨b, _ | ⟨c, rest⟩⟩⟩
    · rfl
    · cases a <;> rfl
    · cases a <;> rfl
    · cases a <;> cases c <;> simp [compose, placeless, Token.placeless]
  | nameless =>
    rcases ps with _ | ⟨a, rest⟩
    · rfl
    · cases a <;> simp [compose, placeless, Token.placeless]
  | modifierCall =>
    rcases ps with _ | ⟨a, _ | ⟨b, _ | ⟨c, rest⟩⟩⟩
    · rfl
    · cases a <;> rfl
    · cases a <;> rfl
    · cases a with
      | token t =>
        show calls [.modifier t.text c.placeless.nameList] = calls [.modifier t.text c.nameList]
        rw [nameList_placeless]
      | _ => rfl
  | foreign | foreignId | dropColumn | dropForeign =>
    rcases ps with _ | ⟨a, _ | ⟨b, _ | ⟨c, rest⟩⟩⟩
    · rfl
    · rfl
    · rfl
    · simp [compose]
  | target =>
    rcases ps with _ | ⟨a, _ | ⟨b, _ | ⟨c, _ | ⟨d, rest⟩⟩⟩⟩
    · rfl
    · rfl
    · cases b <;> rfl
    · cases b <;> rfl
    · cases b with
      | token t =>
        show target t.text d.placeless.nameList = target t.text d.nameList
        rw [nameList_placeless]
      | _ => rfl
  | modifier =>
    rcases ps with _ | ⟨a, _ | ⟨b, rest⟩⟩
    · rfl
    · rfl
    · cases b <;> rfl
  | lines | line | located | modifiers | names => simp [compose]
  | emptyLine | argument => rfl

theorem compose_congr {role : Role} {ps qs : List Phrase}
    (h : ps.map placeless = qs.map placeless) : compose role ps = compose role qs := by
  rw [← compose_placeless, h, compose_placeless]

end Phrase

/-! ## Derivations -/

open Phrase (compose)

abbrev Derivation := Tree Kind Part Role

/-- The meaning of a derivation. -/
def Derivation.meaning (t : Derivation) : Phrase :=
  t.fold .token compose

/-- A derivation over tokens at some places is one over the same tokens at other places. -/
def Movable (t : Derivation) : Prop :=
  t.Valid grammar.rules → ∀ ts : List (Token Kind),
    ts.map Token.placeless = t.leaves.map Token.placeless →
      ∃ u : Derivation, u.Valid grammar.rules ∧ u.root = t.root ∧ u.leaves = ts ∧
        u.meaning.placeless = t.meaning.placeless

theorem movable_forest {trees : List Derivation} (h : ∀ t ∈ trees, Movable t)
    (hvalid : ∀ t ∈ trees, t.Valid grammar.rules) (ts : List (Token Kind))
    (hts : ts.map Token.placeless = (Tree.leavesOf trees).map Token.placeless) :
    ∃ us : List Derivation, (∀ u ∈ us, u.Valid grammar.rules) ∧
      us.map Tree.root = trees.map Tree.root ∧ Tree.leavesOf us = ts ∧
      (Tree.foldAll .token compose us).map Phrase.placeless =
        (Tree.foldAll .token compose trees).map Phrase.placeless := by
  induction trees generalizing ts with
  | nil =>
    rw [Tree.leavesOf, List.map_nil, List.map_eq_nil_iff] at hts
    exact ⟨[], fun u hu => absurd hu List.not_mem_nil, rfl, hts.symm, rfl⟩
  | cons t rest ih =>
    rw [Tree.leavesOf, List.map_append] at hts
    obtain ⟨a, b, rfl, ha, hb⟩ := List.map_eq_append_iff.mp hts
    obtain ⟨u, hu, huroot, huleaves, humeaning⟩ :=
      h t List.mem_cons_self (hvalid t List.mem_cons_self) a ha
    obtain ⟨us, hus, husroot, husleaves, husmeaning⟩ :=
      ih (fun v hv => h v (List.mem_cons_of_mem _ hv))
        (fun v hv => hvalid v (List.mem_cons_of_mem _ hv)) b hb
    refine ⟨u :: us, List.forall_mem_cons.mpr ⟨hu, hus⟩, ?_, ?_, ?_⟩
    · rw [List.map_cons, List.map_cons, huroot, husroot]
    · rw [Tree.leavesOf, huleaves, husleaves]
    · rw [Tree.foldAll, Tree.foldAll, List.map_cons, List.map_cons, husmeaning]
      exact congrArg (· :: _) humeaning

theorem movable (t : Derivation) : Movable t := by
  induction t using Tree.induct with
  | leaf token =>
    intro _ ts hts
    rw [Tree.leaves, List.map_singleton] at hts
    obtain ⟨u, rfl, hu⟩ := List.map_eq_singleton_iff.mp hts
    have hkind : u.placeless.kind = token.placeless.kind := by rw [hu]
    refine ⟨.leaf u, trivial, ?_, rfl, ?_⟩
    · exact congrArg Symbol.terminal hkind
    · exact congrArg Phrase.token hu
  | node rule children ih =>
    intro hvalid ts hts
    obtain ⟨hrule, hroots, hall⟩ := hvalid
    rw [Tree.validAll_iff] at hall
    obtain ⟨us, hus, husroot, husleaves, husmeaning⟩ := movable_forest ih hall ts hts
    refine ⟨.node rule us, ⟨hrule, husroot.trans hroots, ?_⟩, rfl, husleaves, ?_⟩
    · rwa [Tree.validAll_iff]
    · exact congrArg Phrase.placeless (Phrase.compose_congr husmeaning)

/-- The tokens are derived from the symbol, and this is what they mean. -/
def Derives (x : Symbol Kind Part) (ts : List (Token Kind)) (m : Phrase) : Prop :=
  ∃ t : Derivation, t.Valid grammar.rules ∧ t.root = x ∧ t.leaves = ts ∧ t.meaning = m

/-- The tokens are derived from the symbols in turn, and this is what each part means. -/
def DerivesAll (xs : List (Symbol Kind Part)) (ts : List (Token Kind)) (ms : List Phrase) : Prop :=
  ∃ trees : List Derivation, (∀ t ∈ trees, t.Valid grammar.rules) ∧ trees.map Tree.root = xs ∧
    Tree.leavesOf trees = ts ∧ Tree.foldAll .token compose trees = ms

variable {x : Symbol Kind Part} {xs : List (Symbol Kind Part)} {ts us : List (Token Kind)}
  {m : Phrase} {ms : List Phrase}

theorem derivesAll_nil : DerivesAll [] [] [] :=
  ⟨[], List.forall_mem_nil _, rfl, rfl, rfl⟩

theorem Derives.cons (h : Derives x ts m) (hs : DerivesAll xs us ms) :
    DerivesAll (x :: xs) (ts ++ us) (m :: ms) := by
  obtain ⟨t, hvalid, hroot, hleaves, hmeaning⟩ := h
  obtain ⟨trees, hvalids, hroots, hleaves', hmeanings⟩ := hs
  refine ⟨t :: trees, List.forall_mem_cons.mpr ⟨hvalid, hvalids⟩, ?_, ?_, ?_⟩
  · rw [List.map_cons, hroot, hroots]
  · rw [Tree.leavesOf, hleaves, hleaves']
  · rw [Tree.foldAll, hmeanings, ← hmeaning]
    rfl

theorem DerivesAll.token (hs : DerivesAll xs us ms) (t : Token Kind) :
    DerivesAll (tok t.kind :: xs) (t :: us) (.token t :: ms) := by
  have hleaf : Derives (tok t.kind) [t] (.token t) := ⟨.leaf t, trivial, rfl, rfl, rfl⟩
  exact hleaf.cons hs

theorem Derives.single (h : Derives x ts m) : DerivesAll [x] ts [m] := by
  have hone := h.cons derivesAll_nil
  rwa [List.append_nil] at hone

theorem DerivesAll.node {r : Rule Kind Part Role} (h : DerivesAll r.rhs ts ms)
    (hr : r ∈ grammar.rules) : Derives (part r.lhs) ts (compose r.tag ms) := by
  obtain ⟨trees, hvalids, hroots, hleaves, hmeanings⟩ := h
  refine ⟨.node r trees, ⟨hr, hroots, ?_⟩, rfl, hleaves, ?_⟩
  · rwa [Tree.validAll_iff]
  · unfold Derivation.meaning
    rw [Tree.fold, hmeanings]

/-! ## Reading -/

theorem derive_of_lexes {text : String} (hlex : Lexes text.toList ts)
    (h : Derives (part .definition) ts m) :
    ∃ t : Derivation, derive text = .accepted t ∧ t.meaning.placeless = m.placeless := by
  obtain ⟨hfailure, htokens⟩ := hlex (Text.byteLength text.toList)
  obtain ⟨t, hvalid, hroot, hleaves, hmeaning⟩ := h
  have hsame : (tokenize text).tokens.map Token.placeless = t.leaves.map Token.placeless := by
    unfold tokenize
    rw [hleaves, ← htokens, List.map_map]
    rfl
  obtain ⟨u, huvalid, huroot, huleaves, humeaning⟩ := movable t hvalid _ hsame
  refine ⟨u, ?_, humeaning.trans (congrArg Phrase.placeless hmeaning)⟩
  have hparse := Grammar.parse_accepts (E := LexFailure) conflictFree_grammar descends_grammar
    (Nat.le_refl 3) huvalid (huroot.trans hroot) (Text.byteLength text.toList)
  have hsource : tokenize text = ⟨u.leaves, none⟩ := by
    rw [huleaves, ← hfailure]
    rfl
  unfold derive
  rw [hsource]
  exact hparse

/-- A text that is derived as a statement is read as that statement. -/
theorem read_of_derives {text : String} {s : SchemaBridge.Statement}
    (hlex : Lexes text.toList ts) (h : Derives (part .definition) ts (.statement s)) :
    read text = .ok s := by
  obtain ⟨t, hderive, hmeaning⟩ := derive_of_lexes hlex h
  have hstatement : t.meaning = .statement s := by
    cases ht : t.meaning with
    | token u =>
      rw [ht] at hmeaning
      cases hmeaning
    | statement s' =>
      rw [ht] at hmeaning
      exact hmeaning
    | _ =>
      rw [ht] at hmeaning
      cases hmeaning
  have hfold : t.fold Phrase.token Phrase.compose = .statement s := hstatement
  have htree : ofTree? t = some s := by
    unfold ofTree?
    rw [hfold]
  unfold read
  rw [hderive]
  unfold ofOutcome
  dsimp only
  rw [htree]

end SchemaBridge.Statement
