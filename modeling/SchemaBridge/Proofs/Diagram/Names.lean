/-
  The names in a schema that a diagram describes are names: letters, numbers and underscores. The
  reader of diagrams takes names from the text as they stand, and items put nothing else into the
  schema. A relation brings its classes with it, so none is missing, and its first class is none of
  the keywords that begin a class. Types come from their names.
  Main result: `writable_read`.
-/
import SchemaBridge.Diagram.Read
import SchemaBridge.Proofs.Naming.Harmless
import SchemaBridge.Proofs.Schema.Outline
import Mathlib.Data.List.TakeWhile

namespace SchemaBridge

/-- All names in the schema are names. -/
structure Schema.Spelled (s : Schema) : Prop where
  classes : ∀ e ∈ s.outline, IsName e.1 ∧ ∀ f ∈ e.2, IsName f.name
  relations : ∀ p ∈ s.relations, IsName p.2.source.cls ∧ IsName p.2.target.cls

/-- The classes of all relations are there. -/
def Schema.Closed (s : Schema) : Prop :=
  ∀ p ∈ s.relations, p.2.source.cls ∈ s.names ∧ p.2.target.cls ∈ s.names

/-- A type by a name of its own is written as that name, and the name is not taken for another
type. -/
def ColumnType.Writable : ColumnType → Prop
  | .other name => IsName name ∧ ofName name = .other name
  | _ => True

theorem ColumnType.Writable.isName {type : ColumnType} (h : type.Writable) : IsName type.name := by
  cases type with
  | other name => exact h.1
  | _ => decide

theorem ColumnType.Writable.ofName_name {type : ColumnType} (h : type.Writable) :
    ofName type.name = type := by
  cases type with
  | other name => exact h.2
  | _ => decide

structure Field.Writable (f : Field) : Prop where
  name : IsName f.name
  type : ∀ t, f.type = some t → t.Writable

instance : DecidablePred ColumnType.Writable
  | .other name => inferInstanceAs (Decidable (IsName name ∧ ColumnType.ofName name = .other name))
  | .string | .int | .bigint | .float | .double | .bool | .date | .datetime => .isTrue trivial

instance (f : Field) : Decidable f.Writable :=
  decidable_of_iff (IsName f.name ∧ ∀ t ∈ f.type, t.Writable)
    ⟨fun h => ⟨h.1, h.2⟩, fun h => ⟨h.name, h.type⟩⟩

/-- A diagram has a notation for everything in the schema. -/
structure Schema.Writable (s : Schema) : Prop where
  classes : ∀ e ∈ s.outline, IsName e.1 ∧ ∀ f ∈ e.2, f.Writable
  closed : s.Closed
  sources : ∀ p ∈ s.relations, ¬ (p.2.source.cls = "class" ∨ p.2.source.cls = "entity")

instance (s : Schema) : Decidable s.Closed :=
  inferInstanceAs (Decidable (∀ p ∈ s.relations, _ ∧ _))

instance (s : Schema) : Decidable s.Writable :=
  decidable_of_iff ((∀ e ∈ s.outline, IsName e.1 ∧ ∀ f ∈ e.2, f.Writable) ∧ s.Closed ∧
      ∀ p ∈ s.relations, ¬ (p.2.source.cls = "class" ∨ p.2.source.cls = "entity"))
    ⟨fun h => ⟨h.1, h.2.1, h.2.2⟩, fun h => ⟨h.classes, h.closed, h.sources⟩⟩

theorem Schema.Writable.spelled {s : Schema} (h : s.Writable) : s.Spelled := by
  have hnames : ∀ name ∈ s.names, IsName name := by
    rw [names_eq_outline]
    exact List.forall_mem_map.mpr fun e he => (h.classes e he).1
  refine ⟨fun e he => ⟨(h.classes e he).1, fun f hf => ((h.classes e he).2 f hf).name⟩, ?_⟩
  exact fun p hp => ⟨hnames _ (h.closed p hp).1, hnames _ (h.closed p hp).2⟩

theorem ColumnType.eq_of_ofName {name other : String} (h : ofName name = .other other) :
    other = name := by
  unfold ofName at h
  split at h <;> cases h
  rfl

theorem ColumnType.writable_ofName {name : String} (hname : IsName name) :
    (ofName name).Writable := by
  cases h : ofName name with
  | other n =>
    obtain rfl := eq_of_ofName h
    exact ⟨hname, h⟩
  | _ => trivial

namespace Diagram

/-! ## Readers -/

/-- The identifiers among the tokens are names. -/
def Spelled (ts : List Token) : Prop :=
  ∀ name, Token.ident name ∈ ts → IsName name

theorem Spelled.tail {t : Token} {ts : List Token} (h : Spelled (t :: ts)) : Spelled ts :=
  fun name hname => h name (List.mem_cons_of_mem _ hname)

theorem Spelled.head {name : String} {ts : List Token} (h : Spelled (.ident name :: ts)) :
    IsName name :=
  h name List.mem_cons_self

/-- What the reader returns is good, and what it leaves is spelled as what it was given. -/
def Reads {α : Type} (reader : Reader α) (good : α → Prop) : Prop :=
  ∀ ts a rest, Spelled ts → reader ts = .ok (a, rest) → good a ∧ Spelled rest

theorem isName_of_readToken {c : Char} {s rest : List Char} {name : String}
    (h : readToken c s = .ok (.ident name, rest)) : IsName name := by
  unfold readToken at h
  split at h
  case h_8 =>
    split at h
    · rename_i hc
      cases h
      refine ⟨fun hempty => ?_, fun d hd => ?_⟩
      · have hlist := congrArg String.toList hempty
        rw [String.toList_ofList] at hlist
        cases hlist
      rw [String.toList_ofList] at hd
      rcases List.mem_cons.mp hd with rfl | hd
      · exact hc
      · have h : isNameChar d = true := List.mem_takeWhile_imp hd
        exact h
    · cases h
  case h_7 =>
    split at h <;> cases h
  all_goals cases h

theorem spelled_tokens {s : List Char} {ts : List Token} (h : tokens s = .ok ts) : Spelled ts := by
  fun_induction tokens s generalizing ts with
  | case1 s hs =>
    cases h
    exact fun name hname => absurd hname List.not_mem_nil
  | case2 => cases h
  | case3 s c rest hskip t rest' hread ih =>
    cases hr : tokens rest' with
    | error e =>
      rw [hr] at h
      cases h
    | ok more =>
      rw [hr] at h
      cases h
      intro name hname
      rcases List.mem_cons.mp hname with rfl | hname
      · exact isName_of_readToken hread
      · exact ih hr name hname

theorem reads_ident : Reads readIdent IsName := by
  intro ts name rest hts h
  rw [readIdent_eq_ok_iff] at h
  subst h
  exact ⟨hts.head, hts.tail⟩

theorem reads_modifiers (flags : Flags) : Reads (readModifiers flags) fun _ => True := by
  intro ts a rest hts h
  refine ⟨trivial, ?_⟩
  fun_induction readModifiers flags ts with
  | case1 flags keyword more flag hm ih => exact ih hts.tail.tail h
  | case3 flags keyword more hm ts =>
    cases h
    exact hts.tail.tail
  | _ => cases h

theorem reads_flags : Reads readFlags fun _ => True := by
  intro ts a rest hts h
  unfold readFlags at h
  split at h
  · exact reads_modifiers _ _ _ _ hts.tail h
  · cases h
    exact ⟨trivial, hts⟩

theorem reads_type : Reads readType fun type => ∀ t, type = some t → t.Writable := by
  intro ts a rest hts h
  unfold readType at h
  split at h
  · obtain ⟨⟨name, more⟩, h1, h⟩ := exists_of_bind_eq_ok h
    obtain ⟨hname, hmore⟩ := reads_ident _ _ _ hts.tail h1
    cases h
    refine ⟨fun t ht => ?_, hmore⟩
    cases ht
    exact ColumnType.writable_ofName hname
  · cases h
    exact ⟨fun _ ht => absurd ht (Option.some_ne_none _).symm, hts⟩

theorem reads_field : Reads readField Field.Writable := by
  intro ts f rest hts h
  obtain ⟨⟨name, ts₁⟩, h1, h⟩ := exists_of_bind_eq_ok h
  obtain ⟨⟨type, ts₂⟩, h2, h⟩ := exists_of_bind_eq_ok h
  obtain ⟨⟨flags, ts₃⟩, h3, h⟩ := exists_of_bind_eq_ok h
  obtain ⟨hname, hts₁⟩ := reads_ident _ _ _ hts h1
  obtain ⟨htype, hts₂⟩ := reads_type _ _ _ hts₁ h2
  cases h
  exact ⟨⟨hname, htype⟩, (reads_flags _ _ _ hts₂ h3).2⟩

theorem reads_multiplicity : Reads readMultiplicity fun _ => True := by
  intro ts m rest hts h
  unfold readMultiplicity at h
  split at h
  · simp only at h
    split at h <;> cases h
    exact ⟨trivial, hts.tail⟩
  · cases h
    exact ⟨trivial, hts⟩

theorem reads_dash : Reads readDash fun _ => True := by
  intro ts u rest hts h
  unfold readDash at h
  split at h <;> cases h
  exact ⟨trivial, hts.tail⟩

theorem reads_label : Reads readLabel fun _ => True := by
  intro ts u rest hts h
  unfold readLabel at h
  split at h <;> cases h
  · exact ⟨trivial, hts.tail.tail⟩
  · exact ⟨trivial, hts.tail.tail⟩
  · exact ⟨trivial, hts⟩

theorem reads_relation (source : String) :
    Reads (readRelation source) fun r => r.source.cls = source ∧ IsName r.target.cls := by
  intro ts r rest hts h
  obtain ⟨⟨near, ts₁⟩, h1, h⟩ := exists_of_bind_eq_ok h
  obtain ⟨⟨⟨⟩, ts₂⟩, h2, h⟩ := exists_of_bind_eq_ok h
  obtain ⟨⟨far, ts₃⟩, h3, h⟩ := exists_of_bind_eq_ok h
  obtain ⟨⟨target, ts₄⟩, h4, h⟩ := exists_of_bind_eq_ok h
  obtain ⟨⟨⟨⟩, ts₅⟩, h5, h⟩ := exists_of_bind_eq_ok h
  have hts₁ := (reads_multiplicity _ _ _ hts h1).2
  have hts₂ := (reads_dash _ _ _ hts₁ h2).2
  have hts₃ := (reads_multiplicity _ _ _ hts₂ h3).2
  obtain ⟨htarget, hts₄⟩ := reads_ident _ _ _ hts₃ h4
  have hts₅ := (reads_label _ _ _ hts₄ h5).2
  cases h
  exact ⟨⟨rfl, htarget⟩, hts₅⟩

theorem reads_fields : Reads readFields fun fields => ∀ f ∈ fields, f.Writable := by
  intro ts fields rest hts h
  fun_induction readFields ts generalizing fields rest with
  | case1 rest => 
    cases h
    exact ⟨List.forall_mem_nil _, hts.tail⟩
  | case2 => cases h
  | case3 ts f more _ hf ih =>
    obtain ⟨hfield, hmore⟩ := reads_field _ _ _ hts hf
    cases hr : readFields more with
    | error e =>
      rw [hr] at h
      cases h
    | ok q =>
      rw [hr] at h
      cases h
      obtain ⟨hfields, hrest⟩ := ih _ _ hmore hr
      exact ⟨List.forall_mem_cons.mpr ⟨hfield, hfields⟩, hrest⟩

/-- A diagram has a notation for everything in the item. -/
def Item.Writable : Item → Prop
  | .marker => True
  | .cls name fields => IsName name ∧ ∀ f ∈ fields, f.Writable
  | .relation r => (IsName r.source.cls ∧ IsName r.target.cls) ∧
      ¬ (r.source.cls = "class" ∨ r.source.cls = "entity")

theorem reads_class : Reads readClass Item.Writable := by
  intro ts item rest hts h
  obtain ⟨⟨name, ts₁⟩, h1, hbody⟩ := exists_of_bind_eq_ok h
  clear h
  obtain ⟨hname, hts₁⟩ := reads_ident _ _ _ hts h1
  dsimp only at hbody
  split at hbody
  · obtain ⟨⟨fields, more⟩, h2, h⟩ := exists_of_bind_eq_ok hbody
    obtain ⟨hfields, hmore⟩ := reads_fields _ _ _ hts₁.tail h2
    cases h
    exact ⟨⟨hname, hfields⟩, hmore⟩
  · cases hbody
    exact ⟨⟨hname, List.forall_mem_nil _⟩, hts₁⟩

theorem reads_item : Reads readItem Item.Writable := by
  intro ts item rest hts h
  unfold readItem at h
  split at h
  · split at h <;> cases h
    exact ⟨trivial, hts.tail.tail⟩
  · cases h
  · rename_i name more
    split at h
    · exact reads_class _ _ _ hts.tail h
    · rename_i hkeyword
      cases hr : readRelation name more with
      | error e =>
        rw [hr] at h
        cases h
      | ok q =>
        rw [hr] at h
        obtain ⟨⟨hsource, htarget⟩, hrest⟩ := reads_relation _ _ _ _ hts.tail hr
        cases h
        refine ⟨⟨⟨?_, htarget⟩, ?_⟩, hrest⟩
        · rw [hsource]
          exact hts.head
        · rw [hsource]
          exact hkeyword
  · cases h

theorem writable_readItems {ts : List Token} {is : List Item} (hts : Spelled ts)
    (h : readItems ts = .ok is) : ∀ item ∈ is, item.Writable := by
  fun_induction readItems ts generalizing is with
  | case1 => 
    cases h
    exact List.forall_mem_nil _
  | case2 => cases h
  | case3 t rest item more hitem ih =>
    obtain ⟨hwritable, hmore⟩ := reads_item _ _ _ hts hitem
    cases hr : readItems more with
    | error e =>
      rw [hr] at h
      cases h
    | ok q =>
      rw [hr] at h
      cases h
      exact List.forall_mem_cons.mpr ⟨hwritable, ih hmore hr⟩

/-! ## The schema -/

theorem mem_names_ensureClass {s : Schema} {name other : String} :
    other ∈ (s.ensureClass name).names ↔ other ∈ s.names ∨ other = name := by
  by_cases hn : name ∈ s.names
  · rw [Schema.ensureClass_of_mem hn]
    exact ⟨.inl, fun h => h.elim id fun heq => heq ▸ hn⟩
  · rw [Schema.names_eq_outline, Schema.outline_ensureClass_of_not_mem hn, List.map_append,
      ← Schema.names_eq_outline, List.mem_append]
    exact or_congr_right List.mem_singleton

theorem closed_ensureClass {s : Schema} (hs : s.Closed) (name : String) :
    (s.ensureClass name).Closed := by
  intro p hp
  rw [Schema.relations_ensureClass] at hp
  obtain ⟨hsource, htarget⟩ := hs p hp
  exact ⟨mem_names_ensureClass.mpr (.inl hsource), mem_names_ensureClass.mpr (.inl htarget)⟩

theorem Item.closed_apply {s : Schema} (hs : s.Closed) (item : Item) : (item.apply s).Closed := by
  cases item with
  | marker => exact hs
  | cls name fields =>
    have hnames : (apply s (.cls name fields)).names = (s.ensureClass name).names := by
      unfold apply
      dsimp only
      rw [Schema.names_eq_outline, Schema.names_eq_outline,
        Schema.outline_modify_fields _ name (· ++ fields), List.map_map]
      apply List.map_congr_left
      intro e _
      rw [Function.comp_apply]
      split <;> rfl
    intro p hp
    rw [hnames]
    exact closed_ensureClass hs name p hp
  | relation r =>
    have hensured := closed_ensureClass (closed_ensureClass hs r.source.cls) r.target.cls
    have hnames : (apply s (.relation r)).names =
        ((s.ensureClass r.source.cls).ensureClass r.target.cls).names := by
      unfold apply
      rw [Schema.names_eq_outline, Schema.names_eq_outline, Schema.outline_addRelation]
    intro p hp
    rw [hnames]
    unfold apply at hp
    rw [Schema.relations_addRelation] at hp
    rcases List.mem_append.mp hp with hp | hp
    · exact hensured p hp
    · rw [List.mem_singleton.mp hp]
      exact ⟨mem_names_ensureClass.mpr (.inl (mem_names_ensureClass.mpr (.inr rfl))),
        mem_names_ensureClass.mpr (.inr rfl)⟩

theorem Item.writable_apply {s : Schema} (hs : s.Writable) {item : Item} (h : item.Writable) :
    (item.apply s).Writable := by
  have hensured : ∀ {t : Schema} {name : String}, IsName name →
      (∀ e ∈ t.outline, IsName e.1 ∧ ∀ f ∈ e.2, f.Writable) →
      ∀ e ∈ (t.ensureClass name).outline, IsName e.1 ∧ ∀ f ∈ e.2, f.Writable := by
    intro t name hname ht e he
    rcases Schema.mem_outline_ensureClass he with he | rfl
    · exact ht e he
    · exact ⟨hname, List.forall_mem_nil _⟩
  cases item with
  | marker => exact hs
  | cls name fields =>
    refine ⟨fun e he => ?_, closed_apply hs.closed _, fun p hp => ?_⟩
    · unfold apply at he
      dsimp only at he
      rw [Schema.outline_modify_fields _ name (· ++ fields)] at he
      obtain ⟨d, hd, rfl⟩ := List.mem_map.mp he
      obtain ⟨hdname, hdfields⟩ := hensured h.1 hs.classes d hd
      split
      · exact ⟨hdname, List.forall_mem_append.mpr ⟨hdfields, h.2⟩⟩
      · exact ⟨hdname, hdfields⟩
    · unfold apply at hp
      rw [Schema.relations_modify, Schema.relations_ensureClass] at hp
      exact hs.sources p hp
  | relation r =>
    obtain ⟨⟨hsource, htarget⟩, hkeyword⟩ := h
    refine ⟨fun e he => ?_, closed_apply hs.closed _, fun p hp => ?_⟩
    · unfold apply at he
      rw [Schema.outline_addRelation] at he
      exact hensured htarget (hensured hsource hs.classes) e he
    · unfold apply at hp
      rw [Schema.relations_addRelation, Schema.relations_ensureClass,
        Schema.relations_ensureClass] at hp
      rcases List.mem_append.mp hp with hp | hp
      · exact hs.sources p hp
      · rw [List.mem_singleton.mp hp]
        exact hkeyword

theorem writable_empty : Schema.empty.Writable :=
  ⟨List.forall_mem_nil _, List.forall_mem_nil _, List.forall_mem_nil _⟩

/-- What the schema without classes has and every item keeps, the schema of a diagram has. -/
theorem holds_read {P : Schema → Prop} (hempty : P .empty)
    (hitem : ∀ (s : Schema) (item : Item), P s → item.Writable → P (item.apply s)) {text : String}
    {s : Schema} (h : read text = .ok s) : P s := by
  unfold read items at h
  cases ht : tokens text.toList with
  | error e =>
    rw [ht] at h
    cases h
  | ok ts =>
    rw [ht] at h
    dsimp only at h
    cases hi : readItems ts with
    | error e =>
      rw [hi] at h
      cases h
    | ok is =>
      rw [hi] at h
      cases h
      have hitems := writable_readItems (spelled_tokens ht) hi
      exact List.foldlRecOn is Item.apply hempty fun t ht item hmem =>
        hitem t item ht (hitems item hmem)

/-- A diagram has a notation for everything in a schema that a diagram describes. -/
theorem writable_read {text : String} {s : Schema} (h : read text = .ok s) : s.Writable :=
  holds_read (P := Schema.Writable) writable_empty
    (fun _ _ hs hitem => Item.writable_apply hs hitem) h

theorem read_eq_of_toOption {text : String} {s : Schema} (h : (read text).toOption = some s) :
    read text = .ok s := by
  cases hread : read text with
  | error e =>
    rw [hread] at h
    cases h
  | ok t =>
    rw [hread] at h
    rw [Option.some.inj h]

/-- All names in a schema that a diagram describes are names. -/
theorem spelled_read {text : String} {s : Schema} (h : read text = .ok s) : s.Spelled :=
  (writable_read h).spelled

/-- A schema that a diagram describes has the classes of all its relations. -/
theorem closed_read {text : String} {s : Schema} (h : read text = .ok s) : s.Closed :=
  (writable_read h).closed

end Diagram

end SchemaBridge
