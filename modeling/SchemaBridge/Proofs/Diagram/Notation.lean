/-
  The notation of diagrams, apart from how it is read. A diagram is a series of items, and no
  separators stand between them or between their parts; but the next token always tells whether a
  part that may be missing is there. So each reader takes just what has its form, and a list of
  tokens is read as items in one way or not at all.
  Main results: `takes_item`, `performsAll_iff` and `read_accepts_notation`.
-/
import SchemaBridge.Proofs.Diagram.RoundTrip

namespace SchemaBridge.Diagram

/-! ## Forms -/

/-- Parts one after the other. -/
inductive Series {α : Type} (form : List Token → α → Prop) : List Token → List α → Prop
  | nil : Series form [] []
  | cons {ts us : List Token} {a : α} {as : List α} (h : form ts a) (hs : Series form us as) :
      Series form (ts ++ us) (a :: as)

/-- The modifiers of fields, with the flags that they set. -/
def modifiers : List (String × Flags) :=
  [("pk", { primary := true }), ("primary", { primary := true }), ("unique", { unique := true }),
    ("nullable", { nullable := true })]

/-- Modifiers with commas between them, and the flags of all of them. -/
inductive IsModifiers : List Token → Flags → Prop
  | last {keyword : String} {flags : Flags} (h : (keyword, flags) ∈ modifiers) :
      IsModifiers [.ident keyword] flags
  | more {keyword : String} {flags others : Flags} {ts : List Token}
      (h : (keyword, flags) ∈ modifiers) (hs : IsModifiers ts others) :
      IsModifiers (.ident keyword :: .comma :: ts) (flags ∪ others)

/-- The modifiers of a field in braces, if it has any. -/
inductive IsFlags : List Token → Flags → Prop
  | absent : IsFlags [] .none
  | given {flags : Flags} {ts : List Token} (h : IsModifiers ts flags) :
      IsFlags (.openBrace :: (ts ++ [.closeBrace])) flags

/-- The type of a field behind a colon, if it has one. -/
inductive IsType : List Token → Option ColumnType → Prop
  | absent : IsType [] none
  | given (name : String) : IsType [.colon, .ident name] (some (.ofName name))

/-- A field: its name, and what may follow it. -/
inductive IsField : List Token → Field → Prop
  | mk {name : String} {type : Option ColumnType} {flags : Flags} {ts us : List Token}
      (htype : IsType ts type) (hflags : IsFlags us flags) :
      IsField (.ident name :: (ts ++ us)) { name, type, flags }

/-- How a multiplicity is written. -/
def spellings : Multiplicity → List String
  | .one => ["1"]
  | .zeroOrOne => ["0..1"]
  | .any => ["*", "0..*"]
  | .atLeastOne => ["1..*"]

/-- The multiplicity of an end, which is one if none is given. White space around it does not
count. -/
inductive IsMultiplicity : List Token → Multiplicity → Prop
  | absent : IsMultiplicity [] .one
  | given {contents : String} {m : Multiplicity}
      (h : String.ofList (Text.trim contents.toList) ∈ spellings m) :
      IsMultiplicity [.text contents] m

/-- The label of a relation, if it has one. -/
inductive IsLabel : List Token → Prop
  | absent : IsLabel []
  | name (name : String) : IsLabel [.colon, .ident name]
  | text (contents : String) : IsLabel [.colon, .text contents]

/-- What follows the first name of a relation: the multiplicities of its ends with a dash between
them, the other name, and a label. -/
inductive IsRelation (source : String) : List Token → Relation → Prop
  | mk {near far : Multiplicity} {target : String} {ts us vs : List Token}
      (hnear : IsMultiplicity ts near) (hfar : IsMultiplicity us far) (hlabel : IsLabel vs) :
      IsRelation source (ts ++ .dash :: (us ++ .ident target :: vs))
        ⟨⟨source, near⟩, ⟨target, far⟩⟩

/-- What follows the keyword of a class: its name, and its fields in braces, if it has any. -/
inductive IsClass : List Token → Item → Prop
  | bare (name : String) : IsClass [.ident name] (.cls name [])
  | body {name : String} {fields : List Field} {ts : List Token} (h : Series IsField ts fields) :
      IsClass (.ident name :: .openBrace :: (ts ++ [.closeBrace])) (.cls name fields)

/-- A marker, a class or a relation. -/
inductive IsItem : List Token → Item → Prop
  | marker {name : String} (h : name = "startuml" ∨ name = "enduml") :
      IsItem [.atSign, .ident name] .marker
  | cls {keyword : String} {ts : List Token} {item : Item}
      (h : keyword = "class" ∨ keyword = "entity") (hclass : IsClass ts item) :
      IsItem (.ident keyword :: ts) item
  | relation {source : String} {ts : List Token} {r : Relation}
      (h : ¬(source = "class" ∨ source = "entity")) (hrelation : IsRelation source ts r) :
      IsItem (.ident source :: ts) (.relation r)

/-! ## Readers and forms -/

/-- The reader takes just what has the form, where what follows cannot be taken for a part of it. -/
structure Takes {α : Type} (reader : Reader α) (form : List Token → α → Prop)
    (follow : List Token → Prop) : Prop where
  sound : ∀ {ts rest a}, reader ts = .ok (a, rest) → ∃ us, ts = us ++ rest ∧ form us a
  complete : ∀ {us rest a}, form us a → follow rest → reader (us ++ rest) = .ok (a, rest)

/-- The tokens do not begin with this one. -/
def Lacks (t : Token) (ts : List Token) : Prop :=
  ts.head? ≠ some t

theorem lacks_cons {t u : Token} (h : u ≠ t) (rest : List Token) : Lacks t (u :: rest) :=
  fun hhead => h (Option.some.inj hhead)

theorem Ends.lacks_colon {ts : List Token} (h : Ends ts) : Lacks .colon ts :=
  fun hhead => (h _ hhead).1 rfl

theorem Ends.lacks_openBrace {ts : List Token} (h : Ends ts) : Lacks .openBrace ts :=
  fun hhead => (h _ hhead).2 rfl

theorem modifierFlags_eq_ok_iff {keyword : String} {flags : Flags} :
    modifierFlags keyword = .ok flags ↔ (keyword, flags) ∈ modifiers := by
  unfold modifierFlags modifiers
  split <;> simp_all [eq_comm]

theorem multiplicityOf?_eq_some_iff {text : String} {m : Multiplicity} :
    multiplicityOf? text = some m ↔ text ∈ spellings m := by
  unfold multiplicityOf?
  split <;> cases m <;> simp_all [spellings]

theorem exists_modifiers {flags all : Flags} {ts rest : List Token}
    (h : readModifiers flags ts = .ok (all, rest)) :
    ∃ us more, ts = us ++ .closeBrace :: rest ∧ IsModifiers us more ∧ all = flags ∪ more := by
  fun_induction readModifiers flags ts with
  | case1 flags keyword ts more hmore ih =>
    obtain ⟨us, others, rfl, hus, rfl⟩ := ih h
    exact ⟨_, _, rfl, .more (modifierFlags_eq_ok_iff.mp hmore) hus, Flags.union_assoc _ _ _⟩
  | case3 flags keyword more hmore ts =>
    cases h
    exact ⟨_, more, rfl, .last (modifierFlags_eq_ok_iff.mp hmore), rfl⟩
  | _ => cases h

theorem readModifiers_of_form {ts : List Token} {more : Flags} (h : IsModifiers ts more)
    (flags : Flags) (rest : List Token) :
    readModifiers flags (ts ++ .closeBrace :: rest) = .ok (flags ∪ more, rest) := by
  induction h generalizing flags with
  | last h =>
    rw [List.singleton_append, readModifiers, modifierFlags_eq_ok_iff.mpr h]
    simp
  | more h _ ih =>
    rw [List.cons_append, List.cons_append, readModifiers, modifierFlags_eq_ok_iff.mpr h]
    dsimp only
    rw [ih, Flags.union_assoc]

theorem takes_flags : Takes readFlags IsFlags (Lacks .openBrace) := by
  constructor
  · intro ts rest flags h
    unfold readFlags at h
    split at h
    · obtain ⟨us, more, rfl, hus, rfl⟩ := exists_modifiers h
      refine ⟨.openBrace :: (us ++ [.closeBrace]), by simp, ?_⟩
      rw [Flags.none_union]
      exact .given hus
    · cases h
      exact ⟨[], rfl, .absent⟩
  · intro us rest flags h hrest
    cases h with
    | absent =>
      rw [List.nil_append]
      unfold readFlags
      split
      · exact absurd rfl hrest
      · rfl
    | given h =>
      rw [List.cons_append, List.append_assoc, List.singleton_append, readFlags,
        readModifiers_of_form h, Flags.none_union]

theorem takes_type : Takes readType IsType (Lacks .colon) := by
  constructor
  · intro ts rest type h
    unfold readType at h
    split at h
    · obtain ⟨⟨name, rest'⟩, hname, h⟩ := exists_of_bind_eq_ok h
      rw [readIdent_eq_ok_iff] at hname
      cases h
      exact ⟨[.colon, .ident name], by rw [hname]; rfl, .given name⟩
    · cases h
      exact ⟨[], rfl, .absent⟩
  · intro us rest type h hrest
    cases h with
    | absent =>
      rw [List.nil_append]
      unfold readType
      split
      · exact absurd rfl hrest
      · rfl
    | given name => rfl

theorem takes_field : Takes readField IsField Ends := by
  constructor
  · intro ts rest f h
    obtain ⟨⟨name, ts₁⟩, hname, h⟩ := exists_of_bind_eq_ok h
    obtain ⟨⟨type, ts₂⟩, htype, h⟩ := exists_of_bind_eq_ok h
    obtain ⟨⟨flags, ts₃⟩, hflags, h⟩ := exists_of_bind_eq_ok h
    cases h
    rw [readIdent_eq_ok_iff] at hname
    obtain ⟨us, rfl, hus⟩ := takes_type.sound htype
    obtain ⟨vs, rfl, hvs⟩ := takes_flags.sound hflags
    exact ⟨.ident name :: (us ++ vs), by simp [hname], .mk hus hvs⟩
  · intro us rest f h hrest
    obtain @⟨name, type, flags, ts, us, htype, hflags⟩ := h
    have hcolon : Lacks .colon (us ++ rest) := by
      cases hflags with
      | absent => exact hrest.lacks_colon
      | given => exact lacks_cons (by decide) _
    have hreadtype := takes_type.complete htype hcolon
    have hreadflags := takes_flags.complete hflags hrest.lacks_openBrace
    unfold readField
    simp only [List.cons_append, List.append_assoc, readIdent, ok_bind, hreadtype, hreadflags]

/-- What is left of the fields of a class begins with a name or with the closing brace. -/
theorem ends_fields {ts : List Token} {fields : List Field} (h : Series IsField ts fields)
    (rest : List Token) : Ends (ts ++ .closeBrace :: rest) := by
  cases h with
  | nil => exact ends_cons (by decide) rest
  | cons h =>
    obtain ⟨htype, hflags⟩ := h
    exact ends_ident _ _

theorem exists_fields {ts rest : List Token} {fields : List Field}
    (h : readFields ts = .ok (fields, rest)) :
    ∃ us, ts = us ++ .closeBrace :: rest ∧ Series IsField us fields := by
  fun_induction readFields ts generalizing fields with
  | case1 rest' =>
    cases h
    exact ⟨[], rfl, .nil⟩
  | case2 => cases h
  | case3 ts f more _ hf ih =>
    cases hmore : readFields more with
    | error e =>
      rw [hmore] at h
      cases h
    | ok p =>
      rw [hmore] at h
      cases h
      obtain ⟨us, rfl, hus⟩ := ih hmore
      obtain ⟨vs, rfl, hvs⟩ := takes_field.sound hf
      exact ⟨vs ++ us, by simp, .cons hvs hus⟩

theorem readFields_of_form {ts : List Token} {fields : List Field} (h : Series IsField ts fields)
    (rest : List Token) : readFields (ts ++ .closeBrace :: rest) = .ok (fields, rest) := by
  induction h with
  | nil => rw [List.nil_append, readFields]
  | @cons ts us f fields hf hs ih =>
    have hread := takes_field.complete hf (ends_fields hs rest)
    have hopen : (ts ++ (us ++ .closeBrace :: rest)).head? ≠ some .closeBrace := by
      obtain ⟨htype, hflags⟩ := hf
      exact lacks_cons (by simp) _
    rw [List.append_assoc, readFields_cons hread hopen, ih]
    rfl

theorem takes_class : Takes readClass IsClass (Lacks .openBrace) := by
  constructor
  · intro ts rest item h
    obtain ⟨⟨name, ts₁⟩, hname, hbody⟩ := exists_of_bind_eq_ok h
    clear h
    rw [readIdent_eq_ok_iff] at hname
    subst hname
    dsimp only at hbody
    split at hbody
    · obtain ⟨⟨fields, rest'⟩, hfields, hend⟩ := exists_of_bind_eq_ok hbody
      cases hend
      obtain ⟨us, rfl, hus⟩ := exists_fields hfields
      exact ⟨.ident name :: .openBrace :: (us ++ [.closeBrace]), by simp, .body hus⟩
    · cases hbody
      exact ⟨[.ident name], rfl, .bare name⟩
  · intro us rest item h hrest
    cases h with
    | bare name =>
      unfold readClass
      simp only [List.singleton_append, readIdent, ok_bind]
      split
      · exact absurd rfl hrest
      · rfl
    | body h =>
      have hfields := readFields_of_form h rest
      unfold readClass
      simp only [List.cons_append, List.append_assoc, List.nil_append, readIdent, ok_bind, hfields]

theorem takes_multiplicity :
    Takes readMultiplicity IsMultiplicity fun rest => ∀ contents, Lacks (.text contents) rest := by
  constructor
  · intro ts rest m h
    unfold readMultiplicity at h
    split at h
    · dsimp only at h
      split at h
      · rename_i hm
        cases h
        exact ⟨[_], rfl, .given (multiplicityOf?_eq_some_iff.mp hm)⟩
      · cases h
    · cases h
      exact ⟨[], rfl, .absent⟩
  · intro us rest m h hrest
    cases h with
    | absent =>
      rw [List.nil_append]
      unfold readMultiplicity
      split
      · exact absurd rfl (hrest _)
      · rfl
    | given h =>
      rw [List.singleton_append, readMultiplicity]
      rw [multiplicityOf?_eq_some_iff.mpr h]

theorem takes_label : Takes readLabel (fun us _ => IsLabel us) (Lacks .colon) := by
  constructor
  · intro ts rest a h
    unfold readLabel at h
    split at h
    · cases h
      exact ⟨[.colon, .ident _], rfl, .name _⟩
    · cases h
      exact ⟨[.colon, .text _], rfl, .text _⟩
    · cases h
    · cases h
      exact ⟨[], rfl, .absent⟩
  · intro us rest a h hrest
    cases h with
    | absent =>
      rw [List.nil_append]
      unfold readLabel
      split
      · exact absurd rfl hrest
      · exact absurd rfl hrest
      · exact absurd rfl hrest
      · rfl
    | name | text => rfl

theorem takes_relation (source : String) :
    Takes (readRelation source) (IsRelation source) (Lacks .colon) := by
  constructor
  · intro ts rest r h
    obtain ⟨⟨near, ts₁⟩, hnear, h⟩ := exists_of_bind_eq_ok h
    obtain ⟨⟨⟨⟩, ts₂⟩, hdash, h⟩ := exists_of_bind_eq_ok h
    obtain ⟨⟨far, ts₃⟩, hfar, h⟩ := exists_of_bind_eq_ok h
    obtain ⟨⟨target, ts₄⟩, htarget, h⟩ := exists_of_bind_eq_ok h
    obtain ⟨⟨⟨⟩, ts₅⟩, hlabel, h⟩ := exists_of_bind_eq_ok h
    cases h
    rw [readIdent_eq_ok_iff] at htarget
    have hts : ts₁ = .dash :: ts₂ := by
      unfold readDash at hdash
      split at hdash <;> cases hdash
      rfl
    obtain ⟨us, rfl, hus⟩ := takes_multiplicity.sound hnear
    obtain ⟨vs, rfl, hvs⟩ := takes_multiplicity.sound hfar
    obtain ⟨ws, rfl, hws⟩ := takes_label.sound hlabel
    refine ⟨us ++ .dash :: (vs ++ .ident target :: ws), ?_, .mk hus hvs hws⟩
    simp [hts, htarget]
  · intro us rest r h hrest
    obtain @⟨near, far, target, ts, us, vs, hnear, hfar, hlabel⟩ := h
    have hreadnear (more : List Token) := takes_multiplicity.complete hnear
      fun contents => lacks_cons (show .dash ≠ Token.text contents by simp) more
    have hreadfar (more : List Token) := takes_multiplicity.complete hfar
      fun contents => lacks_cons (show .ident target ≠ Token.text contents by simp) more
    have hreadlabel := takes_label.complete (a := ()) hlabel hrest
    unfold readRelation
    simp only [List.cons_append, List.append_assoc, hreadnear, ok_bind, readDash, hreadfar,
      readIdent, hreadlabel]

theorem takes_item : Takes readItem IsItem Ends := by
  constructor
  · intro ts rest item h
    unfold readItem at h
    split at h
    · split at h <;> cases h
      exact ⟨[.atSign, .ident _], rfl, .marker ‹_›⟩
    · cases h
    · split at h
      · obtain ⟨us, rfl, hus⟩ := takes_class.sound h
        exact ⟨.ident _ :: us, rfl, .cls ‹_› hus⟩
      · rename_i source ts hsource
        cases hr : readRelation source ts with
        | error e =>
          rw [hr] at h
          cases h
        | ok p =>
          rw [hr] at h
          cases h
          obtain ⟨us, rfl, hus⟩ := (takes_relation source).sound hr
          exact ⟨.ident source :: us, rfl, .relation hsource hus⟩
    · cases h
  · intro us rest item h hrest
    cases h with
    | marker h =>
      rw [List.cons_append, List.singleton_append, readItem, if_pos h]
    | cls h hclass =>
      rw [List.cons_append, readItem, if_pos h]
      exact takes_class.complete hclass hrest.lacks_openBrace
    | relation h hrelation =>
      rw [List.cons_append, readItem, if_neg h,
        (takes_relation _).complete hrelation hrest.lacks_colon]
      rfl

/-- What is left of a diagram begins with a sign or a name. -/
theorem ends_items {ts : List Token} {is : List Item} (h : Series IsItem ts is) : Ends ts := by
  cases h with
  | nil => exact fun t ht => (Option.not_mem_none t ht).elim
  | cons h =>
    cases h with
    | marker => exact ends_cons (by decide) _
    | cls | relation => exact ends_ident _ _

theorem readItems_iff {ts : List Token} {is : List Item} :
    readItems ts = .ok is ↔ Series IsItem ts is := by
  constructor
  · intro h
    fun_induction readItems ts generalizing is with
    | case1 =>
      cases h
      exact .nil
    | case2 => cases h
    | case3 t ts item rest hitem ih =>
      cases hrest : readItems rest with
      | error e =>
        rw [hrest] at h
        cases h
      | ok more =>
        rw [hrest] at h
        cases h
        obtain ⟨us, hus, hform⟩ := takes_item.sound hitem
        rw [hus]
        exact .cons hform (ih hrest)
  · intro h
    induction h with
    | nil => rw [readItems]
    | @cons us ts item is hitem hs ih =>
      have hread := takes_item.complete hitem (ends_items hs)
      obtain ⟨t, more, hcons⟩ : ∃ t more, us ++ ts = t :: more := by
        cases hitem <;> exact ⟨_, _, rfl⟩
      rw [hcons] at hread ⊢
      rw [readItems_cons hread, ih]
      rfl

/-! ## Performing items -/

/-- The classes with their fields, and one of this name among them. -/
def withClass (classes : List (String × List Field)) (name : String) :
    List (String × List Field) :=
  if name ∈ classes.map Prod.fst then classes else classes ++ [(name, [])]

/-- The classes with further fields in the one of this name. -/
def withFields (classes : List (String × List Field)) (name : String) (fields : List Field) :
    List (String × List Field) :=
  classes.map fun e => if e.1 = name then (e.1, e.2 ++ fields) else e

/-- What an item makes of a schema. A class is there afterwards, with its fields behind those it
had. The classes of a relation are there, the first one made first, and the relation is the last. -/
inductive Performs : Schema → Item → Schema → Prop
  | marker (s : Schema) : Performs s .marker s
  | cls {s t : Schema} {name : String} {fields : List Field} (ht : t.Consistent)
      (houtline : t.outline = withFields (withClass s.outline name) name fields)
      (hrelations : t.relations = s.relations) (hnext : t.nextRelation = s.nextRelation) :
      Performs s (.cls name fields) t
  | relation {s t : Schema} {r : Relation} (ht : t.Consistent)
      (houtline : t.outline = withClass (withClass s.outline r.source.cls) r.target.cls)
      (hrelations : t.relations = s.relations ++ [(s.nextRelation, r)])
      (hnext : t.nextRelation = s.nextRelation + 1) : Performs s (.relation r) t

/-- Items performed from left to right. -/
inductive PerformsAll : Schema → List Item → Schema → Prop
  | nil (s : Schema) : PerformsAll s [] s
  | cons {s t u : Schema} {item : Item} {is : List Item} (h : Performs s item t)
      (hs : PerformsAll t is u) : PerformsAll s (item :: is) u

theorem outline_ensureClass (s : Schema) (name : String) :
    (s.ensureClass name).outline = withClass s.outline name := by
  unfold withClass
  rw [← Schema.names_eq_outline]
  split
  · exact Schema.outline_ensureClass_of_mem ‹_›
  · exact Schema.outline_ensureClass_of_not_mem ‹_›

variable {s t : Schema}

theorem Item.consistent_apply (hs : s.Consistent) (item : Item) : (item.apply s).Consistent := by
  cases item with
  | marker => exact hs
  | cls name fields => exact (hs.ensureClass name).modify_fields name (· ++ fields)
  | relation r => exact ((hs.ensureClass r.source.cls).ensureClass r.target.cls).addRelation r

theorem performs_apply (hs : s.Consistent) (item : Item) : Performs s item (item.apply s) := by
  have hconsistent := item.consistent_apply hs
  cases item with
  | marker => exact .marker s
  | cls name fields =>
    refine .cls hconsistent ?_ ?_ ?_
    · rw [← outline_ensureClass]
      exact Schema.outline_modify_fields _ name (· ++ fields)
    · exact Schema.relations_ensureClass s name
    · exact Schema.nextRelation_ensureClass s name
  | relation r =>
    refine .relation hconsistent ?_ ?_ ?_
    all_goals unfold Item.apply; dsimp only
    · rw [Schema.outline_addRelation, outline_ensureClass, outline_ensureClass]
    · rw [Schema.relations_addRelation, Schema.relations_ensureClass, Schema.relations_ensureClass,
        Schema.nextRelation_ensureClass, Schema.nextRelation_ensureClass]
    · rw [Schema.nextRelation_addRelation, Schema.nextRelation_ensureClass,
        Schema.nextRelation_ensureClass]

/-- What an item makes of a schema is settled by its classes, its fields and its relations. -/
theorem Performs.unique {item : Item} {u : Schema} (ht : Performs s item t)
    (hu : Performs s item u) : t = u := by
  cases ht with
  | marker =>
    cases hu
    rfl
  | cls ht houtline hrelations hnext =>
    cases hu with
    | cls hu houtline' hrelations' hnext' =>
      exact ht.ext hu (houtline.trans houtline'.symm) (hrelations.trans hrelations'.symm)
        (hnext.trans hnext'.symm)
  | relation ht houtline hrelations hnext =>
    cases hu with
    | relation hu houtline' hrelations' hnext' =>
      exact ht.ext hu (houtline.trans houtline'.symm) (hrelations.trans hrelations'.symm)
        (hnext.trans hnext'.symm)

theorem performsAll_iff (hs : s.Consistent) (is : List Item) :
    PerformsAll s is t ↔ t = is.foldl Item.apply s := by
  induction is generalizing s with
  | nil =>
    constructor
    · rintro ⟨⟩
      rfl
    · rintro rfl
      exact .nil _
  | cons item rest ih =>
    have hstep := performs_apply hs item
    rw [List.foldl_cons, ← ih (item.consistent_apply hs)]
    constructor
    · rintro (_ | ⟨hitem, hrest⟩)
      rwa [hitem.unique hstep] at hrest
    · exact .cons hstep

/-- A text is taken as a diagram just if the lexer reads it and its tokens are a series of items;
and what is read is what the items make of the empty schema, performed from left to right. -/
theorem read_accepts_notation (text : String) :
    ((∃ s, read text = .ok s) ↔
      ∃ ts is, tokens text.toList = .ok ts ∧ Series IsItem ts is) ∧
    ∀ s, read text = .ok s ↔
      ∃ ts is, tokens text.toList = .ok ts ∧ Series IsItem ts is ∧ PerformsAll .empty is s := by
  have hitems : ∀ is, items text = .ok is ↔
      ∃ ts, tokens text.toList = .ok ts ∧ Series IsItem ts is := by
    intro is
    unfold items
    cases htokens : tokens text.toList with
    | error e => simp
    | ok ts => simp [readItems_iff]
  have hread : ∀ s, read text = .ok s ↔
      ∃ is, items text = .ok is ∧ s = is.foldl Item.apply .empty := by
    intro s
    unfold read
    cases items text with
    | error e => simp [Except.map]
    | ok is => simp [Except.map, eq_comm]
  constructor
  · constructor
    · rintro ⟨s, hs⟩
      obtain ⟨is, his, -⟩ := (hread s).mp hs
      obtain ⟨ts, htokens, hseries⟩ := (hitems is).mp his
      exact ⟨ts, is, htokens, hseries⟩
    · rintro ⟨ts, is, htokens, hseries⟩
      exact ⟨_, (hread _).mpr ⟨is, (hitems is).mpr ⟨ts, htokens, hseries⟩, rfl⟩⟩
  · intro s
    rw [hread]
    constructor
    · rintro ⟨is, his, hs⟩
      obtain ⟨ts, htokens, hseries⟩ := (hitems is).mp his
      exact ⟨ts, is, htokens, hseries, (performsAll_iff Schema.consistent_empty is).mpr hs⟩
    · rintro ⟨ts, is, htokens, hseries, hperforms⟩
      exact ⟨is, (hitems is).mpr ⟨ts, htokens, hseries⟩,
        (performsAll_iff Schema.consistent_empty is).mp hperforms⟩

end SchemaBridge.Diagram
