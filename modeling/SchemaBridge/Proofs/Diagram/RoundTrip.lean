/-
  A diagram and back. The reader does not look at lines, so each piece is read in front of whatever
  follows, as long as that goes on with no colon and no brace, which would belong to the piece. What
  is read are the classes and relations in their order; the relations get new numbers, from zero on.
  Main result: `read_write`.
-/
import SchemaBridge.Proofs.Diagram.Lexer
import SchemaBridge.Proofs.Schema.Reachable

namespace SchemaBridge

/-- The relations are numbered one after the other, from zero on. -/
def Schema.Numbered (s : Schema) : Prop :=
  s.relations.map Prod.fst = List.range s.relations.length ∧
    s.nextRelation = s.relations.length

instance (s : Schema) : Decidable s.Numbered :=
  inferInstanceAs (Decidable (_ ∧ _))

namespace Diagram

/-! ## Reading tokens -/

/-- The tokens do not go on with anything that would belong to a field or a relation before. -/
def Ends (ts : List Token) : Prop :=
  ∀ t ∈ ts.head?, t ≠ .colon ∧ t ≠ .openBrace

theorem ends_cons {t : Token} (h : t ≠ .colon ∧ t ≠ .openBrace) (ts : List Token) :
    Ends (t :: ts) := by
  intro u hu
  cases hu
  exact h

theorem ends_ident (name : String) (ts : List Token) : Ends (.ident name :: ts) :=
  ends_cons ⟨Token.noConfusion, Token.noConfusion⟩ ts

variable {ts : List Token}

theorem ok_bind {ε α β : Type} (a : α) (f : α → Except ε β) : (Except.ok a >>= f) = f a := rfl

theorem readFlags_tokens (hts : Ends ts) (flags : Flags) :
    readFlags (flagsTokens flags ++ ts) = .ok (flags, ts) := by
  have hnone : readFlags ts = .ok (.none, ts) := by
    unfold readFlags
    split
    · exact absurd rfl (hts .openBrace rfl).2
    · rfl
  obtain ⟨n, u, p⟩ := flags
  cases n <;> cases u <;> cases p
  · exact hnone
  all_goals rfl

theorem ends_flags (hts : Ends ts) (flags : Flags) :
    ∀ t ∈ (flagsTokens flags ++ ts).head?, t ≠ .colon := by
  unfold flagsTokens
  split
  · exact fun t ht => (hts t ht).1
  · rintro t ⟨rfl⟩
    decide

theorem readType_tokens {type : Option ColumnType} (htype : ∀ t, type = some t → t.Writable)
    (hts : ∀ t ∈ ts.head?, t ≠ .colon) : readType (typeTokens type ++ ts) = .ok (type, ts) := by
  cases type with
  | none =>
    show readType ts = _
    unfold readType
    split
    · exact absurd rfl (hts .colon rfl)
    · rfl
  | some t =>
    show Except.ok (some (ColumnType.ofName t.name), ts) = _
    rw [(htype t rfl).ofName_name]

theorem readField_tokens (hts : Ends ts) {f : Field} (hf : f.Writable) :
    readField (fieldTokens f ++ ts) = .ok (f, ts) := by
  have htype := readType_tokens hf.type (ends_flags hts f.flags)
  have hflags := readFlags_tokens hts f.flags
  unfold fieldTokens readField
  simp only [List.cons_append, List.append_assoc, readIdent, ok_bind, htype, hflags]

theorem readFields_cons {f : Field} {rest : List Token} (h : readField ts = .ok (f, rest))
    (hopen : ts.head? ≠ some .closeBrace) :
    readFields ts = (readFields rest).map fun p => (f :: p.1, p.2) := by
  rw [readFields]
  · split
    · rename_i herror
      rw [h] at herror
      cases herror
    · rename_i hok
      rw [h] at hok
      cases hok
      rfl
  · rintro rest rfl
    exact hopen rfl

theorem readFields_tokens {fields : List Field} (hfields : ∀ f ∈ fields, f.Writable)
    (ts : List Token) :
    readFields (fields.flatMap fieldTokens ++ .closeBrace :: ts) = .ok (fields, ts) := by
  induction fields with
  | nil => 
    rw [List.flatMap_nil, List.nil_append, readFields]
  | cons f more ih =>
    obtain ⟨hf, hmore⟩ := List.forall_mem_cons.mp hfields
    have hends : Ends (more.flatMap fieldTokens ++ .closeBrace :: ts) := by
      cases more with
      | nil => exact ends_cons (by decide) _
      | cons g _ => exact ends_ident g.name _
    have hopen : (fieldTokens f ++ (more.flatMap fieldTokens ++ .closeBrace :: ts)).head? ≠
        some .closeBrace := by
      unfold fieldTokens
      simp
    rw [List.flatMap_cons, List.append_assoc, readFields_cons (readField_tokens hends hf) hopen,
      ih hmore]
    rfl

theorem readItem_class {name : String} {fields : List Field} (hfields : ∀ f ∈ fields, f.Writable)
    (ts : List Token) : readItem (classTokens name fields ++ ts) = .ok (.cls name fields, ts) := by
  have hbody := readFields_tokens hfields ts
  unfold classTokens
  rw [List.cons_append, List.cons_append, List.cons_append, List.append_assoc, readItem,
    if_pos (.inl rfl)]
  simp only [readClass, readIdent, ok_bind, List.cons_append, List.nil_append, hbody]

theorem readMultiplicity_text (m : Multiplicity) (ts : List Token) :
    readMultiplicity (.text (multiplicityText m) :: ts) = .ok (m, ts) := by
  cases m <;> rfl

theorem readLabel_of_ends (hts : Ends ts) : readLabel ts = .ok ((), ts) := by
  unfold readLabel
  split
  · exact absurd rfl (hts .colon rfl).1
  · exact absurd rfl (hts .colon rfl).1
  · exact absurd rfl (hts .colon rfl).1
  · rfl

theorem readItem_relation (hts : Ends ts) {r : Relation}
    (hsource : ¬ (r.source.cls = "class" ∨ r.source.cls = "entity")) :
    readItem (relationTokens r ++ ts) = .ok (.relation r, ts) := by
  have hread : readRelation r.source.cls ((relationTokens r).tail ++ ts) = .ok (r, ts) := by
    unfold readRelation relationTokens
    simp only [List.tail_cons, List.cons_append, List.nil_append, readMultiplicity_text, ok_bind,
      readDash, readIdent, readLabel_of_ends hts]
  show readItem (.ident r.source.cls :: ((relationTokens r).tail ++ ts)) = _
  rw [readItem, if_neg hsource, hread]
  rfl

theorem readItems_cons {t : Token} {item : Item} {rest : List Token}
    (h : readItem (t :: ts) = .ok (item, rest)) :
    readItems (t :: ts) = (readItems rest).map (item :: ·) := by
  rw [readItems]
  split
  · rename_i herror
    rw [h] at herror
    cases herror
  · rename_i hok
    rw [h] at hok
    cases hok
    rfl

/-- Items that are read one by one are read one after the other. -/
theorem readItems_flatMap {α : Type} {tokensOf : α → List Token} {itemOf : α → Item} {as : List α}
    (hread : ∀ a ∈ as, ∀ rest, Ends rest → readItem (tokensOf a ++ rest) = .ok (itemOf a, rest))
    (hbegin : ∀ a ∈ as, ∃ name more, tokensOf a = .ident name :: more) (hts : Ends ts) :
    readItems (as.flatMap tokensOf ++ ts) = (readItems ts).map (as.map itemOf ++ ·) ∧
      Ends (as.flatMap tokensOf ++ ts) := by
  induction as with
  | nil =>
    refine ⟨?_, hts⟩
    show readItems ts = (readItems ts).map id
    cases readItems ts <;> rfl
  | cons a more ih =>
    obtain ⟨hread, hmore⟩ := List.forall_mem_cons.mp hread
    obtain ⟨⟨name, rest, hhead⟩, hbegin⟩ := List.forall_mem_cons.mp hbegin
    obtain ⟨ih, hends⟩ := ih hmore hbegin
    have hitem := hread _ hends
    rw [hhead, List.cons_append] at hitem
    rw [List.flatMap_cons, List.append_assoc, hhead, List.cons_append]
    constructor
    · rw [readItems_cons hitem, ih]
      cases readItems ts <;> rfl
    · exact ends_ident name _

/-- The items of a written schema. -/
def schemaItems (s : Schema) : List Item :=
  .marker :: (s.outline.map (fun e => .cls e.1 e.2) ++
    (s.relations.map (fun p => .relation p.2) ++ [.marker]))

theorem readItems_tokens {s : Schema} (hs : s.Writable) :
    readItems (schemaTokens s) = .ok (schemaItems s) := by
  have hend : readItems [.atSign, .ident "enduml"] = .ok [.marker] := by
    have hmarker : readItem [.atSign, .ident "enduml"] = .ok (.marker, []) := rfl
    rw [readItems_cons hmarker, readItems]
    rfl
  obtain ⟨hrelations, hends⟩ :
      readItems (s.relations.flatMap (fun p => relationTokens p.2) ++ _) = (readItems _).map
        (s.relations.map (fun p => .relation p.2) ++ ·) ∧ Ends _ :=
    readItems_flatMap (fun p hp rest hrest => readItem_relation hrest (hs.sources p hp))
      (fun p _ => ⟨_, _, rfl⟩) (ends_cons (t := .atSign) (by decide) [.ident "enduml"])
  obtain ⟨hclasses, -⟩ :
      readItems (s.classes.flatMap (fun c => classTokens c.name c.fields) ++ _) = (readItems _).map
        (s.classes.map (fun c => .cls c.name c.fields) ++ ·) ∧ Ends _ :=
    readItems_flatMap
      (fun c hc rest _ => readItem_class (List.forall_mem_map.mp hs.classes c hc).2 rest)
      (fun c _ => ⟨_, _, rfl⟩) hends
  have hstart : ∀ ts, readItem (.atSign :: .ident "startuml" :: ts) = .ok (.marker, ts) :=
    fun _ => rfl
  unfold schemaTokens
  rw [readItems_cons (hstart _), hclasses, hrelations, hend]
  unfold schemaItems Schema.outline
  rw [List.map_map]
  rfl

/-! ## The schema of the items -/

variable {t : Schema}

theorem outline_apply_cls {name : String} (h : name ∉ t.names) (fields : List Field) :
    (Item.apply t (.cls name fields)).outline = t.outline ++ [(name, fields)] :=
  Schema.outline_setFields_of_not_mem h (· ++ fields)

theorem foldl_classes (entries : List (String × List Field))
    (hnodup : (t.names ++ entries.map Prod.fst).Nodup) :
    ((entries.map fun e => Item.cls e.1 e.2).foldl Item.apply t).outline = t.outline ++ entries ∧
      ((entries.map fun e => Item.cls e.1 e.2).foldl Item.apply t).relations = t.relations := by
  induction entries generalizing t with
  | nil => exact ⟨(List.append_nil _).symm, rfl⟩
  | cons e rest ih =>
    rw [List.map_cons, List.append_cons] at hnodup
    have hnew : e.1 ∉ t.names := by
      intro hmem
      have hdisjoint := (List.nodup_append.mp (List.nodup_append.mp hnodup).1).2.2
      exact hdisjoint e.1 hmem e.1 List.mem_cons_self rfl
    have houtline := outline_apply_cls hnew e.2
    have hnames : (Item.apply t (.cls e.1 e.2)).names = t.names ++ [e.1] := by
      rw [Schema.names_eq_outline, houtline, List.map_append, ← Schema.names_eq_outline]
      rfl
    rw [← hnames] at hnodup
    obtain ⟨hfold, hrelations⟩ := ih hnodup
    rw [List.map_cons, List.foldl_cons]
    refine ⟨?_, ?_⟩
    · rw [hfold, houtline, List.append_assoc]
      rfl
    · rw [hrelations]
      unfold Item.apply
      rw [Schema.relations_modify, Schema.relations_ensureClass]

theorem foldl_relations (rs : List Relation)
    (hrs : ∀ r ∈ rs, r.source.cls ∈ t.names ∧ r.target.cls ∈ t.names) :
    ((rs.map Item.relation).foldl Item.apply t).outline = t.outline ∧
      ((rs.map Item.relation).foldl Item.apply t).relations.map Prod.snd =
        t.relations.map Prod.snd ++ rs := by
  induction rs generalizing t with
  | nil => exact ⟨rfl, (List.append_nil _).symm⟩
  | cons r rest ih =>
    obtain ⟨⟨hsource, htarget⟩, hrest⟩ := List.forall_mem_cons.mp hrs
    have happly : Item.apply t (.relation r) = t.addRelation r := by
      show ((t.ensureClass r.source.cls).ensureClass r.target.cls).addRelation r = _
      rw [Schema.ensureClass_of_mem hsource, Schema.ensureClass_of_mem htarget]
    have houtline := Schema.outline_addRelation (s := t) r
    rw [List.map_cons, List.foldl_cons, happly]
    obtain ⟨hfold, hvalues⟩ := ih (t := t.addRelation r) (by
      rw [Schema.names_eq_outline, houtline, ← Schema.names_eq_outline]
      exact hrest)
    refine ⟨hfold.trans houtline, ?_⟩
    rw [hvalues, Schema.relations_addRelation, List.map_append, List.append_assoc]
    rfl

theorem exists_read_write {s : Schema} (hc : s.Consistent) (hs : s.Writable) :
    ∃ t, read (write s) = .ok t ∧ t.outline = s.outline ∧
      t.relations.map Prod.snd = s.relations.map Prod.snd := by
  have hitems : items (write s) = .ok (schemaItems s) := by
    unfold items
    rw [lexes_write hs]
    exact readItems_tokens hs
  have hnodup : (Schema.empty.names ++ s.outline.map Prod.fst).Nodup := by
    rw [← Schema.names_eq_outline]
    exact hc.names_nodup
  obtain ⟨houtline, hrelations⟩ := foldl_classes (t := .empty) s.outline hnodup
  have hrs : ∀ r ∈ s.relations.map Prod.snd,
      r.source.cls ∈ ((s.outline.map fun e => Item.cls e.1 e.2).foldl Item.apply .empty).names ∧
        r.target.cls ∈
          ((s.outline.map fun e => Item.cls e.1 e.2).foldl Item.apply .empty).names := by
    rw [Schema.names_eq_outline, houtline]
    intro r hr
    obtain ⟨p, hp, rfl⟩ := List.mem_map.mp hr
    have hclosed := hs.closed p hp
    rw [Schema.names_eq_outline] at hclosed
    exact hclosed
  obtain ⟨hfold, hvalues⟩ := foldl_relations (s.relations.map Prod.snd) hrs
  refine ⟨(schemaItems s).foldl Item.apply .empty, ?_, ?_, ?_⟩
  · unfold read
    rw [hitems]
    rfl
  all_goals
    unfold schemaItems
    rw [List.foldl_cons, List.foldl_append, List.foldl_append, List.foldl_cons, List.foldl_nil]
    rw [List.map_map] at hfold hvalues
  · exact hfold.trans houtline
  · refine hvalues.trans ?_
    rw [hrelations]
    rfl

/-! ## Numbers -/

theorem Item.numbered_apply (ht : t.Numbered) (item : Item) : (item.apply t).Numbered := by
  cases item with
  | marker => exact ht
  | cls name fields =>
    unfold Item.apply Schema.Numbered
    dsimp only
    rw [Schema.relations_modify, Schema.relations_ensureClass]
    refine ⟨ht.1, ?_⟩
    show (t.ensureClass name).nextRelation = _
    rw [Schema.nextRelation_ensureClass]
    exact ht.2
  | relation r =>
    unfold Item.apply Schema.Numbered
    dsimp only
    rw [Schema.relations_addRelation, Schema.nextRelation_addRelation,
      Schema.relations_ensureClass, Schema.relations_ensureClass, Schema.nextRelation_ensureClass,
      Schema.nextRelation_ensureClass, List.map_append, List.length_append, ht.1, ht.2]
    refine ⟨?_, rfl⟩
    rw [List.length_singleton, List.range_succ]
    rfl

theorem numbered_read {text : String} (h : read text = .ok t) : t.Numbered :=
  holds_read (P := Schema.Numbered) ⟨rfl, rfl⟩ (fun _ item hs _ => item.numbered_apply hs) h

/-- A written diagram is read as the same classes and the same relations, each in their order, and
as the same schema just if the relations were numbered from zero on. A diagram can hold every schema
that was read from one, and gives it back. -/
theorem read_write (s : Schema) :
    (s.Consistent → s.Writable → ∃ t, read (write s) = .ok t ∧ t.outline = s.outline ∧
      t.relations.map Prod.snd = s.relations.map Prod.snd ∧ (t = s ↔ s.Numbered)) ∧
    ∀ text, read text = .ok s → s.Consistent ∧ s.Writable ∧ read (write s) = .ok s := by
  have hwrite : s.Consistent → s.Writable → ∃ t, read (write s) = .ok t ∧
      t.outline = s.outline ∧ t.relations.map Prod.snd = s.relations.map Prod.snd ∧
      (t = s ↔ s.Numbered) := by
    intro hc hs
    obtain ⟨t, hread, houtline, hvalues⟩ := exists_read_write hc hs
    have hnumbered := numbered_read hread
    refine ⟨t, hread, houtline, hvalues, ?_, fun hs => ?_⟩
    · rintro rfl
      exact hnumbered
    · have hlength : t.relations.length = s.relations.length := by
        rw [← List.length_map (f := Prod.snd), hvalues, List.length_map]
      apply (reachable_read hread).consistent.ext hc houtline
      · have hids : t.relations.map Prod.fst = s.relations.map Prod.fst := by
          rw [hnumbered.1, hs.1, hlength]
        rw [← List.zip_unzip t.relations, ← List.zip_unzip s.relations, List.unzip_eq_map,
          List.unzip_eq_map, hids, hvalues]
      · rw [hnumbered.2, hs.2, hlength]
  refine ⟨hwrite, fun text h => ?_⟩
  have hc := (reachable_read h).consistent
  have hs := writable_read h
  obtain ⟨t, hread, -, -, heq⟩ := hwrite hc hs
  rw [heq.mpr (numbered_read h)] at hread
  exact ⟨hc, hs, hread⟩

/-- A field without a type before one of an unknown type, a default multiplicity and a label. -/
def albumText : String :=
  "entity Album \x7bnote tags : JSON \x7bnullable, unique\x7d\x7d Album -- \"0..*\" Song : holds" ++
    "\x0aSong \"1\" -- \"0..1\" Album"

/-- The schema of `albumText`. -/
def album : Schema :=
  let fields : List Field :=
    [⟨"note", none, .none⟩, ⟨"tags", some (.other "JSON"), { nullable := true, unique := true }⟩]
  (((Schema.empty.ensureClass "Album").modify "Album" fun c => { c with fields }).ensureClass
    "Song").addRelation ⟨⟨"Album", .one⟩, ⟨"Song", .any⟩⟩ |>.addRelation
      ⟨⟨"Song", .one⟩, ⟨"Album", .zeroOrOne⟩⟩

/-- The schema without its first relation is not numbered from zero on, and does not come back as it
was. -/
theorem read_write_album : read albumText = .ok album ∧ read (write album) = .ok album ∧
    (album.removeRelation 0).Consistent ∧ (album.removeRelation 0).Writable ∧
    ¬ (album.removeRelation 0).Numbered ∧
    ∃ t, read (write (album.removeRelation 0)) = .ok t ∧
      t.outline = (album.removeRelation 0).outline ∧
      t.relations.map Prod.snd = (album.removeRelation 0).relations.map Prod.snd ∧
      (t = album.removeRelation 0 ↔ (album.removeRelation 0).Numbered) := by
  have hread : read albumText = .ok album := read_eq_of_toOption (by decide +kernel)
  obtain ⟨hc, -, hback⟩ := (read_write album).2 albumText hread
  have hs : (album.removeRelation 0).Writable := by decide +kernel
  have hn : ¬ (album.removeRelation 0).Numbered := by decide
  exact ⟨hread, hback, hc.removeRelation 0, hs, hn,
    (read_write (album.removeRelation 0)).1 (hc.removeRelation 0) hs⟩

end Diagram

end SchemaBridge
