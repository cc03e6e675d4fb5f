/-
  The tokens of a written diagram. `Lexes s ts` says that the text `s` has the tokens `ts`; each
  lemma puts one piece before a text: white space, a sign, a name or a multiplicity in quotes. A
  name has to be kept apart from what follows it, and no other piece has.
  Main result: `lexes_write`.
-/
import SchemaBridge.Diagram.Write
import SchemaBridge.Proofs.Diagram.Names
import SchemaBridge.Proofs.Statement.Lexer

namespace SchemaBridge.Diagram

open Text

/-- The text has these tokens. -/
def Lexes (s : List Char) (ts : List Token) : Prop :=
  tokens s = .ok ts

/-- The text goes on with something that belongs to no name. -/
def Apart (s : List Char) : Prop :=
  ∃ c rest, s = c :: rest ∧ isNameChar c = false

variable {s rest : List Char} {c : Char} {t : Token} {ts : List Token}

/-! ## One step -/

theorem tokens_congr {u : List Char} (h : skipBlank false s = skipBlank false u) :
    tokens s = tokens u := by
  rw [tokens.eq_def s, tokens.eq_def u]
  generalize skipBlank false s = v at h ⊢
  subst h
  rfl

theorem Lexes.blank (h : Lexes rest ts) (hblank : isWhiteSpace c = true) :
    Lexes (c :: rest) ts := by
  unfold Lexes
  rw [tokens_congr (u := rest)]
  · exact h
  · rw [skipBlank]
    simp only [Bool.false_eq_true, if_false, hblank, if_true]

theorem Lexes.token (h : Lexes rest ts) (hstart : skipBlank false (c :: s) = c :: s)
    (hread : readToken c s = .ok (t, rest)) : Lexes (c :: s) (t :: ts) := by
  unfold Lexes
  rw [tokens]
  split
  · rename_i hnil
    rw [hstart] at hnil
    cases hnil
  · rename_i hcons
    rw [hstart] at hcons
    cases hcons
    split
    · rename_i hread'
      rw [hread] at hread'
      cases hread'
    · rename_i hread'
      rw [hread] at hread'
      cases hread'
      rw [h]
      rfl

theorem lexes_nil : Lexes [] [] := by
  unfold Lexes
  rw [tokens]
  rfl

/-! ## Names -/

/-- The code points of white space. -/
def blankCodes : List Nat :=
  [9, 10, 11, 12, 13, 32, 0x85, 0xa0, 0x1680, 0x2000, 0x2001, 0x2002, 0x2003, 0x2004, 0x2005,
    0x2006, 0x2007, 0x2008, 0x2009, 0x200a, 0x2028, 0x2029, 0x202f, 0x205f, 0x3000]

theorem mem_blankCodes (h : isWhiteSpace c = true) : c.toNat ∈ blankCodes := by
  unfold isWhiteSpace at h
  split at h
  · unfold isAsciiBlank at h
    rw [Bool.or_eq_true, Bool.and_eq_true, decide_eq_true_iff, decide_eq_true_iff, beq_iff_eq] at h
    rcases h with rfl | h
    · decide
    · simp only [blankCodes, List.mem_cons]
      omega
  · rw [Bool.or_eq_true, Bool.and_eq_true, decide_eq_true_iff, decide_eq_true_iff,
      List.contains_iff_mem] at h
    simp only [blankCodes, List.mem_cons, List.not_mem_nil, or_false] at h ⊢
    omega

theorem isWhiteSpace_of_isNameChar (h : isNameChar c = true) : isWhiteSpace c = false := by
  have hcodes : ∀ n ∈ blankCodes, isNameChar (Char.ofNat n) = false := by decide +kernel
  by_contra hblank
  have hc := hcodes c.toNat (mem_blankCodes (Bool.of_not_eq_false hblank))
  rw [Char.ofNat_toNat, h] at hc
  cases hc

theorem skipBlank_of_isNameChar (h : isNameChar c = true) (s : List Char) :
    skipBlank false (c :: s) = c :: s := by
  have hhash : c ≠ '#' := by
    rintro rfl
    exact absurd h (by decide)
  have hquote : c ≠ '\'' := by
    rintro rfl
    exact absurd h (by decide)
  rw [skipBlank]
  simp only [Bool.false_eq_true, if_false, isWhiteSpace_of_isNameChar h, hhash, hquote,
    decide_false, Bool.or_self]

theorem readToken_of_isNameChar (h : isNameChar c = true) (s : List Char) :
    readToken c s =
      .ok (.ident (String.ofList (c :: s.takeWhile isNameChar)), s.dropWhile isNameChar) := by
  unfold readToken
  split
  case h_8 => rw [if_pos h]
  all_goals exact absurd h (by decide)

theorem Lexes.name (h : Lexes rest ts) {name : String} (hname : IsName name)
    (hapart : Apart rest) : Lexes (name.toList ++ rest) (.ident name :: ts) := by
  obtain ⟨e, more, rfl, he⟩ := hapart
  have hchars : ∀ d ∈ name.toList, isNameChar d = true := hname.chars
  cases hlist : name.toList with
  | nil => exact absurd (String.toList_eq_nil_iff.mp hlist) hname.nonempty
  | cons c cs =>
    rw [hlist] at hchars
    obtain ⟨hc, hcs⟩ := List.forall_mem_cons.mp hchars
    have hread := readToken_of_isNameChar hc (cs ++ e :: more)
    rw [Statement.takeWhile_append_cons hcs he, Statement.dropWhile_append_cons hcs he, ← hlist,
      String.ofList_toList] at hread
    exact h.token (skipBlank_of_isNameChar hc _) hread

/-! ## White space, signs and quotes -/

theorem apart_cons (hc : isNameChar c = false) (rest : List Char) : Apart (c :: rest) :=
  ⟨c, rest, rfl, hc⟩

theorem Lexes.space (h : Lexes rest ts) : Lexes (' ' :: rest) ts :=
  h.blank rfl

theorem Lexes.newline (h : Lexes rest ts) : Lexes ('\n' :: rest) ts :=
  h.blank rfl

/-- The signs that are tokens by themselves. -/
def signs : List (Char × Token) :=
  [('\x7b', .openBrace), ('\x7d', .closeBrace), (':', .colon), (',', .comma), ('@', .atSign)]

theorem Lexes.sign (h : Lexes rest ts) (hsign : (c, t) ∈ signs) : Lexes (c :: rest) (t :: ts) := by
  simp only [signs, List.mem_cons, Prod.mk.injEq, List.not_mem_nil, or_false] at hsign
  rcases hsign with ⟨rfl, rfl⟩ | ⟨rfl, rfl⟩ | ⟨rfl, rfl⟩ | ⟨rfl, rfl⟩ | ⟨rfl, rfl⟩
  all_goals exact h.token rfl rfl

theorem Lexes.dash (h : Lexes rest ts) : Lexes ('-' :: '-' :: rest) (.dash :: ts) :=
  h.token rfl rfl

theorem Lexes.multiplicity (h : Lexes rest ts) (m : Multiplicity) :
    Lexes ('"' :: ((multiplicityText m).toList ++ '"' :: rest))
      (.text (multiplicityText m) :: ts) := by
  refine h.token rfl ?_
  cases m <;> rfl

/-! ## Fields -/

/-- How a diagram writes the type of a field. -/
def typeText (type : Option ColumnType) : String :=
  match type with
  | some t => " : " ++ t.name
  | none => ""

/-- How a diagram writes the modifiers of a field. -/
def flagsText (flags : Flags) : String :=
  match modifierNames flags with
  | [] => ""
  | names => " \x7b" ++ ", ".intercalate names ++ "\x7d"

theorem writeField_eq (f : Field) :
    writeField f = "    " ++ f.name ++ typeText f.type ++ flagsText f.flags ++ "\n" := rfl

def typeTokens (type : Option ColumnType) : List Token :=
  match type with
  | some t => [.colon, .ident t.name]
  | none => []

/-- The tokens of names in a list. -/
def listTokens (names : List String) : List Token :=
  (names.map Token.ident).intersperse .comma

def flagsTokens (flags : Flags) : List Token :=
  match modifierNames flags with
  | [] => []
  | names => .openBrace :: (listTokens names ++ [.closeBrace])

def fieldTokens (f : Field) : List Token :=
  .ident f.name :: (typeTokens f.type ++ flagsTokens f.flags)

theorem isName_of_mem_modifierNames {flags : Flags} {name : String}
    (h : name ∈ modifierNames flags) : IsName name := by
  have hsub : ∀ n u p, modifierNames ⟨n, u, p⟩ ⊆ ["pk", "unique", "nullable"] := by decide
  have hmem := hsub _ _ _ h
  simp only [List.mem_cons, List.not_mem_nil, or_false] at hmem
  rcases hmem with rfl | rfl | rfl <;> decide

theorem Lexes.names (h : Lexes rest ts) (hapart : Apart rest) {names : List String}
    (hnames : ∀ name ∈ names, IsName name) :
    Lexes ((", ".intercalate names).toList ++ rest) (listTokens names ++ ts) := by
  rw [String.toList_intercalate]
  unfold listTokens
  induction names with
  | nil => exact h
  | cons name more ih =>
    obtain ⟨hname, hmore⟩ := List.forall_mem_cons.mp hnames
    have hrest := ih hmore
    cases more with
    | nil =>
      rw [List.map_singleton, List.intercalate_singleton]
      exact h.name hname hapart
    | cons other more =>
      rw [List.map_cons, List.map_cons, List.intercalate_cons_cons, List.append_assoc,
        List.append_assoc]
      refine Lexes.name ?_ hname (apart_cons (by decide) _)
      exact (hrest.space).sign (c := ',') (by decide)

theorem Lexes.flags (h : Lexes rest ts) (flags : Flags) :
    Lexes ((flagsText flags).toList ++ rest) (flagsTokens flags ++ ts) := by
  have hnames : ∀ name ∈ modifierNames flags, IsName name := fun _ => isName_of_mem_modifierNames
  unfold flagsText flagsTokens
  split
  · exact h
  · rw [String.toList_append, String.toList_append, List.append_assoc, List.append_assoc,
      List.cons_append, List.append_assoc]
    refine (Lexes.sign ?_ (c := '\x7b') (by decide)).space
    exact (h.sign (c := '\x7d') (by decide)).names (apart_cons (by decide) _) hnames

theorem Lexes.type (h : Lexes rest ts) (hapart : Apart rest) {type : Option ColumnType}
    (htype : ∀ t, type = some t → t.Writable) :
    Lexes ((typeText type).toList ++ rest) (typeTokens type ++ ts) := by
  cases type with
  | none => exact h
  | some t =>
    unfold typeText
    rw [String.toList_append, List.append_assoc]
    exact ((h.name (htype t rfl).isName hapart).space.sign (c := ':') (by decide)).space

theorem apart_flags (flags : Flags) (hapart : Apart rest) :
    Apart ((flagsText flags).toList ++ rest) := by
  unfold flagsText
  split
  · exact hapart
  · rw [String.toList_append, String.toList_append, List.append_assoc]
    exact apart_cons (by decide) _

theorem apart_type (type : Option ColumnType) (hapart : Apart rest) :
    Apart ((typeText type).toList ++ rest) := by
  cases type with
  | none => exact hapart
  | some t =>
    unfold typeText
    rw [String.toList_append, List.append_assoc]
    exact apart_cons (by decide) _

theorem Lexes.field (h : Lexes rest ts) {f : Field} (hf : f.Writable) :
    Lexes ((writeField f).toList ++ rest) (fieldTokens f ++ ts) := by
  rw [writeField_eq]
  simp only [String.toList_append, List.append_assoc]
  unfold fieldTokens
  rw [List.cons_append, List.append_assoc]
  have hline : Apart ("\n".toList ++ rest) := apart_cons (by decide) _
  have hflags := apart_flags f.flags hline
  have hname := ((h.newline.flags f.flags).type hflags hf.type).name hf.name (apart_type f.type hflags)
  exact hname.space.space.space.space

/-! ## Classes and relations -/

def classTokens (name : String) (fields : List Field) : List Token :=
  .ident "class" :: .ident name :: .openBrace :: (fields.flatMap fieldTokens ++ [.closeBrace])

def relationTokens (r : Relation) : List Token :=
  [.ident r.source.cls, .text (multiplicityText r.source.multiplicity), .dash,
    .text (multiplicityText r.target.multiplicity), .ident r.target.cls]

theorem Lexes.fields (h : Lexes rest ts) {fields : List Field} (hfields : ∀ f ∈ fields, f.Writable) :
    Lexes ((String.join (fields.map writeField)).toList ++ rest)
      (fields.flatMap fieldTokens ++ ts) := by
  rw [String.toList_join, List.flatMap_map]
  induction fields with
  | nil => exact h
  | cons f more ih =>
    obtain ⟨hf, hmore⟩ := List.forall_mem_cons.mp hfields
    rw [List.flatMap_cons, List.flatMap_cons, List.append_assoc, List.append_assoc]
    exact (ih hmore).field hf

theorem Lexes.class (h : Lexes rest ts) {c : Class} (hname : IsName c.name)
    (hfields : ∀ f ∈ c.fields, f.Writable) :
    Lexes ((writeClass c).toList ++ rest) (classTokens c.name c.fields ++ ts) := by
  have hkeyword : IsName "class" := by decide
  unfold writeClass classTokens
  simp only [String.toList_append, List.append_assoc, List.cons_append]
  have hbody := (h.newline.sign (c := '\x7d') (t := .closeBrace) (by decide)).fields hfields
  have hopen := hbody.newline.sign (c := '\x7b') (t := .openBrace) (by decide)
  have hcls := hopen.space.name hname (apart_cons (by decide) _)
  exact (hcls.space.name hkeyword (apart_cons (by decide) _)).newline

theorem Lexes.relation (h : Lexes rest ts) {r : Relation} (hsource : IsName r.source.cls)
    (htarget : IsName r.target.cls) :
    Lexes ((writeRelation r).toList ++ rest) (relationTokens r ++ ts) := by
  unfold writeRelation relationTokens
  simp only [String.toList_append, List.append_assoc, List.cons_append]
  have hend := h.newline.name htarget (apart_cons (by decide) _)
  have hfar := hend.space.multiplicity r.target.multiplicity
  have hnear := hfar.space.dash.space.multiplicity r.source.multiplicity
  exact hnear.space.name hsource (apart_cons (by decide) _)

/-! ## Schemas -/

/-- The tokens of the written diagram. -/
def schemaTokens (s : Schema) : List Token :=
  .atSign :: .ident "startuml" :: (s.classes.flatMap (fun c => classTokens c.name c.fields) ++
    (s.relations.flatMap (fun p => relationTokens p.2) ++ [.atSign, .ident "enduml"]))

/-- The lines of the relations. -/
def relationsText (relations : List (RelationId × Relation)) : String :=
  match relations with
  | [] => ""
  | rs => "\n" ++ String.join (rs.map fun p => writeRelation p.2)

theorem write_eq (s : Schema) :
    write s = "@startuml\n" ++ String.join (s.classes.map writeClass) ++ relationsText s.relations
      ++ "\n@enduml\n" := rfl

theorem Lexes.classes (h : Lexes rest ts) {classes : List Class}
    (hclasses : ∀ c ∈ classes, IsName c.name ∧ ∀ f ∈ c.fields, f.Writable) :
    Lexes ((String.join (classes.map writeClass)).toList ++ rest)
      (classes.flatMap (fun c => classTokens c.name c.fields) ++ ts) := by
  rw [String.toList_join, List.flatMap_map]
  induction classes with
  | nil => exact h
  | cons c more ih =>
    obtain ⟨⟨hname, hfields⟩, hmore⟩ := List.forall_mem_cons.mp hclasses
    rw [List.flatMap_cons, List.flatMap_cons, List.append_assoc, List.append_assoc]
    exact (ih hmore).class hname hfields

theorem Lexes.relations (h : Lexes rest ts) {relations : List (RelationId × Relation)}
    (hrelations : ∀ p ∈ relations, IsName p.2.source.cls ∧ IsName p.2.target.cls) :
    Lexes ((relationsText relations).toList ++ rest)
      (relations.flatMap (fun p => relationTokens p.2) ++ ts) := by
  have hlines : Lexes ((String.join (relations.map fun p => writeRelation p.2)).toList ++ rest)
      (relations.flatMap (fun p => relationTokens p.2) ++ ts) := by
    rw [String.toList_join, List.flatMap_map]
    induction relations with
    | nil => exact h
    | cons p more ih =>
      obtain ⟨⟨hsource, htarget⟩, hmore⟩ := List.forall_mem_cons.mp hrelations
      rw [List.flatMap_cons, List.flatMap_cons, List.append_assoc, List.append_assoc]
      exact (ih hmore).relation hsource htarget
  unfold relationsText
  split
  · exact h
  · rw [String.toList_append, List.append_assoc]
    exact hlines.newline

/-- The tokens of a written schema. -/
theorem lexes_write {s : Schema} (hs : s.Writable) : Lexes (write s).toList (schemaTokens s) := by
  have hstart : IsName "startuml" := by decide
  have hend : IsName "enduml" := by decide
  have hclasses : ∀ c ∈ s.classes, IsName c.name ∧ ∀ f ∈ c.fields, f.Writable :=
    List.forall_mem_map.mp hs.classes
  rw [write_eq]
  unfold schemaTokens
  simp only [String.toList_append, List.append_assoc]
  have hlast := (lexes_nil.newline.name hend (apart_cons (by decide) _)).sign
    (c := '@') (t := .atSign) (by decide)
  have hbody := (hlast.newline.relations hs.spelled.relations).classes hclasses
  exact (hbody.newline.name hstart (apart_cons (by decide) _)).sign (by decide)

end SchemaBridge.Diagram
