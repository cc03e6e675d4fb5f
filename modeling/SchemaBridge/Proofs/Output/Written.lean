/-
  The statements of a plan, each as it is written and as it is meant. The chains of a plain plan
  are of the forms that can be read, so each statement is found in its migration and read as the
  calls that its chains stand for.
  Main result: `sound_writtenIn`.
-/
import SchemaBridge.Proofs.Output.Migration
import SchemaBridge.Proofs.Plan.Plain

namespace SchemaBridge.Output

open Statement (Call TableAction Kind isPlainWord ignoredCalls)

/-! ## Calls -/

def columnCall (c : Plan.Column) : Call :=
  .column c.method c.name (flagWords c.nullable c.unique)

/-- The call of a key that refers to an `id`. -/
def idKeyCall (k : Plan.ForeignKey) (column : String) : Call :=
  .foreignKey [column] (if Naming.relatedClass column = k.related then none else some k.target)
    (flagWords k.nullable k.unique)

/-- The method that declares a column of a key. -/
def keyMethod (c : Plan.KeyColumn) : String :=
  (c.type.bind ColumnType.method?).getD "unsignedBigInteger"

def keyColumnCall (nullable unique : Bool) (c : Plan.KeyColumn) : Call :=
  .column (keyMethod c) c.name (flagWords nullable unique)

/-- The calls of a foreign key. -/
def foreignKeyCalls (k : Plan.ForeignKey) : List Call :=
  match k.columns with
  | [column] =>
    if column.references = "id" then [idKeyCall k column.name]
    else [keyColumnCall k.nullable k.unique column, .foreignKey [column.name] (some k.target) []]
  | columns =>
    columns.map (keyColumnCall k.nullable false)
      ++ (if k.unique then [.modifier "unique" (columns.map (·.name))] else [])
      ++ [.foreignKey (columns.map (·.name)) (some k.target) []]

def openingCalls (usesId timestamps : Bool) : List Call :=
  (if usesId then [.nameless "id" []] else [])
    ++ (if timestamps then [.nameless "timestamps" []] else [])

/-- The calls of the table of a class. -/
def tableCalls (t : Plan.Table) (timestamps : Bool) : List Call :=
  openingCalls t.usesId timestamps
    ++ t.columns.map columnCall
    ++ (if t.usesId then [] else [.modifier "primary" (t.keys.map (·.name))])
    ++ t.foreignKeys.flatMap foreignKeyCalls

/-- The calls of a junction. -/
def junctionCalls (j : Plan.Junction) (timestamps : Bool) : List Call :=
  openingCalls true timestamps ++ j.foreignKeys.flatMap foreignKeyCalls

/-- A statement with a body, as it is written and as it is meant. -/
structure Written where
  keyword : String
  action : TableAction
  table : String
  chains : List Chain
  calls : List Call

namespace Written

/-- The lines of the statement in `up`. -/
def lines (w : Written) : List String :=
  statementLines w.keyword w.table w.chains

/-- The text of the statement in `up`. -/
def text (w : Written) : String :=
  statementText w.keyword w.table w.chains

/-- What the statement means. -/
def statement (w : Written) : Statement :=
  ⟨w.action, w.table, w.calls⟩

def ofTable (t : Plan.Table) (timestamps : Bool) : Written :=
  ⟨"create", .create, t.table, tableChains t timestamps, tableCalls t timestamps⟩

def ofJunction (j : Plan.Junction) (timestamps : Bool) : Written :=
  ⟨"create", .create, j.table, junctionChains j timestamps, junctionCalls j timestamps⟩

def ofKey (k : Plan.ForeignKey) : Written :=
  ⟨"table", .modify, k.table, foreignKeyChains k, foreignKeyCalls k⟩

/-- The statement can be found and read. -/
structure Sound (w : Written) : Prop where
  opens : Opens w.keyword w.action
  table : Harmless w.table
  plain : ∀ c ∈ w.chains, c.Plain
  means : List.Forall₂ Chain.Means w.chains w.calls
  chains_ne : w.chains ≠ []

theorem Sound.definition {w : Written} (h : w.Sound) (down : List String) :
    Statement.definition (migrationText w.lines down) = some w.text :=
  definition_migrationText h.opens h.table h.plain down

theorem Sound.read {w : Written} (h : w.Sound) : Statement.read w.text = .ok w.statement :=
  read_statementText h.opens h.table h.plain h.means h.chains_ne

end Written

/-- The statements of a plan, in the order they are to be applied. -/
def writtenIn (p : Plan) (timestamps : Bool) : List Written :=
  p.tables.map (fun t => Written.ofTable t timestamps)
    ++ p.junctions.map (fun j => Written.ofJunction j timestamps)
    ++ p.deferred.map Written.ofKey

/-! ## Plain chains -/

/-- A call of a word that is not left out. -/
theorem legible_of_word {m : String} {a : Argument} (hword : isPlainWord m.toList = true)
    (hkind : Kind.ofWord m.toList ≠ .word) (ha : ∀ n ∈ a.columns, Harmless n) :
    Invocation.Legible ⟨m, a⟩ where
  word := hword
  names := fun n hn => quotable_of_harmless (ha n hn)
  ignored := fun h => absurd h (not_ignored hkind)

theorem isPlainWord_constrained : isPlainWord "constrained".toList = true := by decide

theorem legible_constrained {n : String} (hn : Harmless n) :
    Invocation.Legible ⟨"constrained", .name n⟩ where
  word := isPlainWord_constrained
  names := fun m hm => by
    rw [List.mem_singleton.mp hm]
    exact quotable_of_harmless hn
  ignored := fun _ => ⟨n, rfl⟩

/-- The invocation can stand in a plain chain. -/
structure Invocation.Plain (i : Invocation) : Prop where
  legible : i.Legible
  harmless : ∀ n ∈ i.argument.columns, Harmless n

theorem Chain.plain_of_forall {c : Chain} (h : ∀ i ∈ c, i.Plain) : c.Plain :=
  ⟨fun i hi => (h i hi).legible, fun i hi => (h i hi).harmless⟩

theorem plain_of_word {m : String} {a : Argument} (hword : isPlainWord m.toList = true)
    (hkind : Kind.ofWord m.toList ≠ .word) (ha : ∀ n ∈ a.columns, Harmless n) :
    Invocation.Plain ⟨m, a⟩ :=
  ⟨legible_of_word hword hkind ha, ha⟩

theorem plain_flagCalls (nullable unique : Bool) : ∀ i ∈ flagCalls nullable unique, i.Plain := by
  intro i hi
  have hwords : ∀ w ∈ flagWords nullable unique, isPlainWord w.toList = true := by
    cases nullable <;> cases unique <;> decide
  rw [flagCalls_eq] at hi
  obtain ⟨w, hw, rfl⟩ := List.mem_map.mp hi
  refine plain_of_word (hwords w hw) ?_ (List.forall_mem_nil _)
  rw [kind_flagWords nullable unique w hw]
  decide

theorem columns_columnsArgument (columns : List String) :
    (columnsArgument columns).columns = columns := by
  unfold columnsArgument
  split <;> rfl

theorem columns_name_ne_nil (n : String) : (Argument.name n).columns ≠ [] :=
  List.cons_ne_nil _ _

theorem forall_harmless_name {n : String} (h : Harmless n) :
    ∀ m ∈ (Argument.name n).columns, Harmless m :=
  List.forall_mem_singleton.mpr h

/-! ## Lines -/

/-- A chain is sound for a call if it is plain and means it. -/
structure Chain.Sound (c : Chain) (call : Call) : Prop where
  plain : c.Plain
  means : c.Means call

theorem sound_nameless {m : String} (hword : isPlainWord m.toList = true)
    (h : Kind.ofWord m.toList = .nameless) :
    Chain.Sound [{ method := m }] (.nameless m []) where
  plain := Chain.plain_of_forall <| List.forall_mem_singleton.mpr <|
    plain_of_word hword (by rw [h]; decide) (List.forall_mem_nil _)
  means := means_nameless h

theorem sound_modifier {m : String} {a : Argument} (hword : isPlainWord m.toList = true)
    (h : Kind.ofWord m.toList = .modifier) (hne : a.columns ≠ [])
    (ha : ∀ n ∈ a.columns, Harmless n) :
    Chain.Sound [{ method := m, argument := a }] (.modifier m a.columns) where
  plain := Chain.plain_of_forall <| List.forall_mem_singleton.mpr <|
    plain_of_word hword (by rw [h]; decide) ha
  means := means_modifier h hne

theorem sound_column {m n : String} (hm : Plan.IsMethod m) (hn : Harmless n)
    (nullable unique : Bool) :
    Chain.Sound ({ method := m, argument := .name n } :: flagCalls nullable unique)
      (.column m n (flagWords nullable unique)) where
  plain := Chain.plain_of_forall <| List.forall_mem_cons.mpr
    ⟨plain_of_word hm.word (by rw [hm.kind]; decide) (forall_harmless_name hn),
      plain_flagCalls nullable unique⟩
  means := means_column hm.kind nullable unique

theorem plain_targetCalls {a : Argument} {table : String} (ha : ∀ n ∈ a.columns, Harmless n)
    (htable : Harmless table) : ∀ i ∈ targetCalls a table, i.Plain := by
  have hreferences : Invocation.Plain ⟨"references", a⟩ :=
    plain_of_word (by decide) (by rw [kind_references]; decide) ha
  have hon : Invocation.Plain ⟨"on", .name table⟩ :=
    plain_of_word (by decide) (by rw [kind_on]; decide) (forall_harmless_name htable)
  exact List.forall_mem_cons.mpr ⟨hreferences, List.forall_mem_singleton.mpr hon⟩

theorem sound_foreign {a b : Argument} {table : String} (hane : a.columns ≠ [])
    (hbne : b.columns ≠ []) (ha : ∀ n ∈ a.columns, Harmless n) (hb : ∀ n ∈ b.columns, Harmless n)
    (htable : Harmless table) :
    Chain.Sound ({ method := "foreign", argument := a } :: targetCalls b table)
      (.foreignKey a.columns (some table) []) where
  plain := Chain.plain_of_forall <| List.forall_mem_cons.mpr
    ⟨plain_of_word (by decide) (by rw [kind_foreign]; decide) ha, plain_targetCalls hb htable⟩
  means := means_foreign hane hbne table

theorem plain_foreignId {n : String} (hn : Harmless n) :
    Invocation.Plain ⟨"foreignId", .name n⟩ :=
  plain_of_word (by decide) (by rw [kind_foreignId]; decide) (forall_harmless_name hn)

/-! ## Foreign keys -/

variable {k : Plan.ForeignKey}

theorem isMethod_keyMethod (c : Plan.KeyColumn) : Plan.IsMethod (keyMethod c) := by
  unfold keyMethod
  cases h : c.type.bind ColumnType.method? with
  | none => exact ⟨by decide, by decide⟩
  | some m =>
    obtain ⟨t, -, hm⟩ := Option.bind_eq_some_iff.mp h
    exact Plan.isMethod_of_method? hm

theorem sound_keyColumn {c : Plan.KeyColumn} (hc : Harmless c.name) (nullable unique : Bool) :
    Chain.Sound (keyColumnChain nullable unique c) (keyColumnCall nullable unique c) :=
  sound_column (isMethod_keyMethod c) hc nullable unique

theorem sound_idKey (hk : k.Writable) {column : String} (hcolumn : Harmless column) :
    Chain.Sound (idKeyChain k column) (idKeyCall k column) := by
  have hopening : ∀ i ∈ { method := "foreignId", argument := .name column } ::
      flagCalls k.nullable k.unique, Invocation.Plain i :=
    List.forall_mem_cons.mpr ⟨plain_foreignId hcolumn, plain_flagCalls k.nullable k.unique⟩
  unfold idKeyChain idKeyCall
  by_cases hrelated : Naming.relatedClass column = k.related
  · rw [if_pos hrelated, if_pos hrelated]
    have hend : Invocation.Plain ⟨"constrained", .name k.target⟩ :=
      ⟨legible_constrained hk.target, forall_harmless_name hk.target⟩
    exact ⟨Chain.plain_of_forall <| List.forall_mem_append.mpr
        ⟨hopening, List.forall_mem_singleton.mpr hend⟩,
      means_constrained column k.target k.nullable k.unique⟩
  · rw [if_neg hrelated, if_neg hrelated]
    have hend := plain_targetCalls (forall_harmless_name Plan.harmless_id) hk.target
    exact ⟨Chain.plain_of_forall <| List.forall_mem_append.mpr ⟨hopening, hend⟩,
      means_located (columns_name_ne_nil _) column k.target k.nullable k.unique⟩

/-- What is made of one list in two ways corresponds, item by item. -/
theorem forall₂_map {α β γ : Type} {R : β → γ → Prop} {f : α → β} {g : α → γ} {l : List α}
    (h : ∀ a ∈ l, R (f a) (g a)) : List.Forall₂ R (l.map f) (l.map g) := by
  rw [List.forall₂_map_left_iff, List.forall₂_map_right_iff, List.forall₂_same]
  exact h

theorem foreignKeyChains_of_single {column : Plan.KeyColumn} (h : k.columns = [column]) :
    foreignKeyChains k = if column.references = "id" then [idKeyChain k column.name]
      else [keyColumnChain k.nullable k.unique column,
        { method := "foreign", argument := .name column.name } ::
          targetCalls (.name column.references) k.target] := by
  unfold foreignKeyChains
  rw [h]
  rfl

theorem foreignKeyCalls_of_single {column : Plan.KeyColumn} (h : k.columns = [column]) :
    foreignKeyCalls k = if column.references = "id" then [idKeyCall k column.name]
      else [keyColumnCall k.nullable k.unique column,
        .foreignKey [column.name] (some k.target) []] := by
  unfold foreignKeyCalls
  rw [h]

theorem foreignKeyChains_of_several (h : ¬∃ column, k.columns = [column]) :
    foreignKeyChains k = k.columns.map (keyColumnChain k.nullable false)
      ++ (if k.unique then [[{ method := "unique", argument := .names (k.columns.map (·.name)) }]]
        else [])
      ++ [{ method := "foreign", argument := .names (k.columns.map (·.name)) } ::
          targetCalls (.names (k.columns.map (·.references))) k.target] := by
  unfold foreignKeyChains
  split
  · rename_i column hcolumns
    exact absurd ⟨column, hcolumns⟩ h
  · rfl

theorem foreignKeyCalls_of_several (h : ¬∃ column, k.columns = [column]) :
    foreignKeyCalls k = k.columns.map (keyColumnCall k.nullable false)
      ++ (if k.unique then [.modifier "unique" (k.columns.map (·.name))] else [])
      ++ [.foreignKey (k.columns.map (·.name)) (some k.target) []] := by
  unfold foreignKeyCalls
  split
  · rename_i column hcolumns
    exact absurd ⟨column, hcolumns⟩ h
  · rfl

theorem sound_foreignKey (hk : k.Writable) :
    List.Forall₂ Chain.Sound (foreignKeyChains k) (foreignKeyCalls k) := by
  by_cases hsingle : ∃ column, k.columns = [column]
  · obtain ⟨column, hcolumns⟩ := hsingle
    obtain ⟨hname, hreferences⟩ := hk.columns column (hcolumns ▸ List.mem_singleton.mpr rfl)
    rw [foreignKeyChains_of_single hcolumns, foreignKeyCalls_of_single hcolumns]
    split
    · exact .cons (sound_idKey hk hname) .nil
    · exact .cons (sound_keyColumn hname _ _) <| .cons
        (sound_foreign (columns_name_ne_nil _) (columns_name_ne_nil _)
          (forall_harmless_name hname) (forall_harmless_name hreferences) hk.target) .nil
  · rw [foreignKeyChains_of_several hsingle, foreignKeyCalls_of_several hsingle]
    have hnames : k.columns.map (·.name) ≠ [] := fun h => hk.columns_ne (List.map_eq_nil_iff.mp h)
    have hreferences : k.columns.map (·.references) ≠ [] :=
      fun h => hk.columns_ne (List.map_eq_nil_iff.mp h)
    have hname : ∀ n ∈ k.columns.map (·.name), Harmless n :=
      List.forall_mem_map.mpr fun c hc => (hk.columns c hc).1
    have hreference : ∀ n ∈ k.columns.map (·.references), Harmless n :=
      List.forall_mem_map.mpr fun c hc => (hk.columns c hc).2
    refine List.rel_append (List.rel_append ?_ ?_) ?_
    · exact forall₂_map fun c hc => sound_keyColumn (hk.columns c hc).1 _ _
    · split
      · exact .cons (sound_modifier (a := .names _) (by decide) (by decide) hnames hname) .nil
      · exact .nil
    · exact .cons (sound_foreign (a := .names _) (b := .names _) hnames hreferences hname
        hreference hk.target) .nil

theorem sound_foreignKeys {ks : List Plan.ForeignKey} (h : ∀ k ∈ ks, k.Plain) :
    List.Forall₂ Chain.Sound (ks.flatMap foreignKeyChains) (ks.flatMap foreignKeyCalls) := by
  induction ks with
  | nil => exact .nil
  | cons k rest ih =>
    rw [List.flatMap_cons, List.flatMap_cons]
    exact List.rel_append (sound_foreignKey (h k List.mem_cons_self).writable)
      (ih fun l hl => h l (List.mem_cons_of_mem _ hl))

theorem foreignKeyChains_ne_nil (k : Plan.ForeignKey) : foreignKeyChains k ≠ [] := by
  unfold foreignKeyChains
  split
  · split <;> exact List.cons_ne_nil _ _
  · exact List.append_ne_nil_of_right_ne_nil _ (List.cons_ne_nil _ _)

/-! ## Statements -/

theorem sound_opening (usesId timestamps : Bool) :
    List.Forall₂ Chain.Sound (openingChains usesId timestamps)
      (openingCalls usesId timestamps) := by
  have hid := sound_nameless (m := "id") (by decide) (by decide)
  have htimes := sound_nameless (m := "timestamps") (by decide) (by decide)
  cases usesId <;> cases timestamps
  · exact .nil
  · exact .cons htimes .nil
  · exact .cons hid .nil
  · exact .cons hid (.cons htimes .nil)

theorem plain_of_sound {chains : List Chain} {calls : List Call}
    (h : List.Forall₂ Chain.Sound chains calls) : ∀ c ∈ chains, c.Plain := by
  induction h with
  | nil => exact List.forall_mem_nil _
  | cons hc _ ih => exact List.forall_mem_cons.mpr ⟨hc.plain, ih⟩

namespace Written

theorem sound_of_chains {w : Written} (hopens : Opens w.keyword w.action)
    (htable : Harmless w.table) (hne : w.chains ≠ [])
    (h : List.Forall₂ Chain.Sound w.chains w.calls) : w.Sound where
  opens := hopens
  table := htable
  plain := plain_of_sound h
  means := h.imp fun _ _ hc => hc.means
  chains_ne := hne

theorem sound_ofTable {t : Plan.Table} (ht : t.Plain) (timestamps : Bool) :
    (ofTable t timestamps).Sound := by
  have hkeys : (columnsArgument (t.keys.map (·.name))).columns = t.keys.map (·.name) :=
    columns_columnsArgument _
  refine sound_of_chains .create ht.table ?_ ?_
  · -- The table has a column `id`, or else a line for its key.
    show tableChains t timestamps ≠ []
    unfold tableChains openingChains
    cases t.usesId with
    | true => exact List.cons_ne_nil _ _
    | false =>
      exact List.append_ne_nil_of_left_ne_nil
        (List.append_ne_nil_of_right_ne_nil _ (List.cons_ne_nil _ _)) _
  · show List.Forall₂ Chain.Sound (tableChains t timestamps) (tableCalls t timestamps)
    unfold tableChains tableCalls
    refine List.rel_append (List.rel_append (List.rel_append ?_ ?_) ?_) ?_
    · exact sound_opening t.usesId timestamps
    · exact forall₂_map fun c hc =>
        sound_column (ht.columns c hc).method (ht.columns c hc).name c.nullable c.unique
    · split
      · exact .nil
      · have hprimary := sound_modifier (m := "primary")
          (a := columnsArgument (t.keys.map (·.name))) (by decide) (by decide)
          (by rw [hkeys]; exact fun h => ht.keys_ne (List.map_eq_nil_iff.mp h))
          (by rw [hkeys]; exact List.forall_mem_map.mpr ht.keys)
        rw [hkeys] at hprimary
        exact .cons hprimary .nil
    · exact sound_foreignKeys ht.foreignKeys

theorem sound_ofJunction {j : Plan.Junction} (hj : j.Plain) (timestamps : Bool) :
    (ofJunction j timestamps).Sound :=
  sound_of_chains .create hj.table (List.cons_ne_nil _ _)
    (List.rel_append (sound_opening true timestamps) (sound_foreignKeys hj.foreignKeys))

theorem sound_ofKey {k : Plan.ForeignKey} (hk : k.Writable) : (ofKey k).Sound :=
  sound_of_chains .modify hk.table (foreignKeyChains_ne_nil k) (sound_foreignKey hk)

end Written

/-- Every statement of a plain plan can be found in its migration and read. -/
theorem sound_writtenIn {p : Plan} (hp : p.Plain) (timestamps : Bool) :
    ∀ w ∈ writtenIn p timestamps, w.Sound := by
  intro w hw
  unfold writtenIn at hw
  rcases List.mem_append.mp hw with hw | hw
  · rcases List.mem_append.mp hw with hw | hw
    · obtain ⟨t, ht, rfl⟩ := List.mem_map.mp hw
      exact Written.sound_ofTable (hp.tables t ht) timestamps
    · obtain ⟨j, hj, rfl⟩ := List.mem_map.mp hw
      exact Written.sound_ofJunction (hp.junctions j hj) timestamps
  · obtain ⟨k, hk, rfl⟩ := List.mem_map.mp hw
    exact Written.sound_ofKey (hp.deferred k hk).writable

/-! ## Files -/

/-- The file is a migration with this statement in `up`. -/
def Written.StandsIn (w : Written) (contents : String) : Prop :=
  ∃ down, contents = migrationText w.lines down

theorem standsIn_drafts (p : Plan) (timestamps : Bool) :
    List.Forall₂ (fun (w : Written) (d : Draft) => w.StandsIn d.contents)
      (writtenIn p timestamps) (drafts p timestamps) := by
  unfold writtenIn drafts
  refine List.rel_append (List.rel_append ?_ ?_) ?_
  · exact forall₂_map fun t _ => ⟨_, rfl⟩
  · exact forall₂_map fun j _ => ⟨_, rfl⟩
  · exact forall₂_map fun k _ => ⟨_, rfl⟩

/-- The files of a plan have its statements, in order. -/
theorem standsIn_migrations (p : Plan) (options : Options) :
    List.Forall₂ (fun (w : Written) (f : GeneratedFile) => w.StandsIn f.contents)
      (writtenIn p options.timestamps) (migrations p options) := by
  unfold migrations
  rw [List.forall₂_map_right_iff]
  have hzip : ∀ (ws : List Written) (ds : List Draft) (n : Nat),
      List.Forall₂ (fun (w : Written) (d : Draft) => w.StandsIn d.contents) ws ds →
        List.Forall₂ (fun (w : Written) (d : Draft × Nat) => w.StandsIn d.1.contents) ws
          (ds.zipIdx n) := by
    intro ws ds n h
    induction h generalizing n with
    | nil => exact .nil
    | cons hd _ ih => exact .cons hd (ih (n + 1))
  exact hzip _ _ 1 (standsIn_drafts p options.timestamps)

end SchemaBridge.Output
