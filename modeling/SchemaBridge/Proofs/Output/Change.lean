/-
  The changes that the statements of a plan stand for. The calls of a foreign key declare the key
  and, where it does not refer to an `id`, fields for its columns. The fields are taken in again,
  and the key ends with the flags that the plan has for it, however many columns it has.
  Main results: `foldl_foreignKeyCalls`, `bound_withKeys` and `takeAll_declaredKey`.
-/
import SchemaBridge.Proofs.Output.Written
import SchemaBridge.Proofs.Statement.TableChange

namespace SchemaBridge.Output

open Statement (Call KeyDeclaration TableChange)

/-! ## Foreign keys -/

/-- The names of the columns of a key. -/
def columnNames (k : Plan.ForeignKey) : List String :=
  k.columns.map (·.name)

/-- The key as it ends up. -/
def settledKey (k : Plan.ForeignKey) : KeyDeclaration where
  related := k.related
  columns := columnNames k
  here := if k.unique then .zeroOrOne else .any
  there := if k.nullable then .zeroOrOne else .one

/-- The key as it is declared. The flags of a key that refers to an `id` are part of that. -/
def declaredKey (k : Plan.ForeignKey) : KeyDeclaration :=
  if k.isId then settledKey k else { related := k.related, columns := columnNames k }

/-- The flags of the columns of a key. Several columns are unique only together. -/
def columnFlags (k : Plan.ForeignKey) : Flags :=
  ⟨k.nullable, k.unique && k.columns.length == 1, false⟩

/-- The fields that are declared for the columns of a key. -/
def keyFields (k : Plan.ForeignKey) : List Field :=
  if k.isId then []
  else k.columns.map fun c => ⟨c.name, ColumnType.ofMethod? (keyMethod c), columnFlags k⟩

/-- The modifiers for the columns of a key. -/
def keyModifiers (k : Plan.ForeignKey) : List (String × Flags) :=
  if k.unique && k.columns.length != 1 then (columnNames k).map (·, { unique := true }) else []

/-- The change with a foreign key declared in it. -/
def withKey (c : TableChange) (k : Plan.ForeignKey) : TableChange :=
  TableChange.addKey { c with
    fields := c.fields ++ keyFields k
    flags := c.flags ++ keyModifiers k } (declaredKey k)

theorem ofKeywords_flagWords (nullable unique : Bool) :
    Flags.ofKeywords (flagWords nullable unique) = ⟨nullable, unique, false⟩ := by
  cases nullable <;> cases unique <;> rfl

/-- Calls that declare columns add their fields. -/
theorem foldl_columns {α : Type} (method name : α → String) (words : α → List String)
    (l : List α) (c : TableChange) :
    (l.map fun a => Call.column (method a) (name a) (words a)).foldl TableChange.addCall c =
      { c with fields := c.fields ++ l.map fun a =>
          ⟨name a, ColumnType.ofMethod? (method a), .ofKeywords (words a)⟩ } := by
  induction l generalizing c with
  | nil =>
    rw [List.map_nil, List.map_nil, List.foldl_nil, List.append_nil]
  | cons a rest ih =>
    rw [List.map_cons, List.map_cons, List.foldl_cons, ih]
    unfold TableChange.addCall
    dsimp only
    rw [List.append_assoc]
    rfl

theorem addCall_foreignKey (c : TableChange) {columns : List String} {first : String}
    (hfirst : columns.head? = some first) (table : Option String) (modifiers : List String) :
    c.addCall (.foreignKey columns table modifiers) =
      c.addKey (KeyDeclaration.apply
        { related := match table with
            | some t => Naming.className t
            | none => Naming.relatedClass first
          columns } (.ofKeywords modifiers)) := by
  obtain ⟨rest, rfl⟩ := List.head?_eq_some_iff.mp hfirst
  rfl

variable {k : Plan.ForeignKey}

theorem isId_of_single {column : Plan.KeyColumn} (h : k.columns = [column]) :
    k.isId = (column.references == "id") := by
  unfold Plan.ForeignKey.isId
  rw [h]

theorem isId_of_several (h : ¬∃ column, k.columns = [column]) : k.isId = false := by
  unfold Plan.ForeignKey.isId
  split
  · rename_i column hcolumns
    exact absurd ⟨column, hcolumns⟩ h
  · rfl

theorem length_of_several (h : ¬∃ column, k.columns = [column]) : k.columns.length ≠ 1 :=
  fun hone => h (List.length_eq_one_iff.mp hone)

theorem settledKey_of_apply (k : Plan.ForeignKey) :
    KeyDeclaration.apply { related := k.related, columns := columnNames k }
      ⟨k.nullable, k.unique, false⟩ = settledKey k := rfl

theorem declaredKey_of_not_isId (h : k.isId = false) :
    declaredKey k = { related := k.related, columns := columnNames k } :=
  if_neg (by rw [h]; exact Bool.false_ne_true)

theorem keyFields_of_not_isId (h : k.isId = false) :
    keyFields k = k.columns.map fun c =>
      ⟨c.name, ColumnType.ofMethod? (keyMethod c), columnFlags k⟩ :=
  if_neg (by rw [h]; exact Bool.false_ne_true)

/-! ### A key of one column -/

section Single

variable {column : Plan.KeyColumn}

theorem columnNames_of_single (h : k.columns = [column]) : columnNames k = [column.name] := by
  unfold columnNames
  rw [h]
  rfl

theorem keyModifiers_of_single (h : k.columns = [column]) : keyModifiers k = [] := by
  unfold keyModifiers
  rw [h]
  exact if_neg (by simp)

theorem columnFlags_of_single (h : k.columns = [column]) :
    columnFlags k = ⟨k.nullable, k.unique, false⟩ := by
  unfold columnFlags
  rw [h]
  exact congrArg (Flags.mk k.nullable · false) (Bool.and_true k.unique)

/-- A key that refers to an `id` is declared by its column, which names the class or its table. -/
theorem addCall_idKeyCall (h : k.columns = [column]) (hid : k.isId = true)
    (htarget : Naming.className k.target = k.related) (c : TableChange) :
    c.addCall (idKeyCall k column.name) = withKey c k := by
  have hrelated : (match (if Naming.relatedClass column.name = k.related then none
      else some k.target : Option String) with
      | some t => Naming.className t
      | none => Naming.relatedClass column.name) = k.related := by
    by_cases heq : Naming.relatedClass column.name = k.related
    · rw [if_pos heq]
      exact heq
    · rw [if_neg heq]
      exact htarget
  unfold idKeyCall withKey declaredKey keyFields
  rw [addCall_foreignKey c rfl, hrelated, ofKeywords_flagWords, if_pos hid, if_pos hid,
    keyModifiers_of_single h, List.append_nil, List.append_nil, ← settledKey_of_apply,
    columnNames_of_single h]

/-- Any other key of one column declares the column first. -/
theorem addCall_keyColumnCall (h : k.columns = [column]) (hid : k.isId = false)
    (htarget : Naming.className k.target = k.related) (c : TableChange) :
    (c.addCall (keyColumnCall k.nullable k.unique column)).addCall
      (.foreignKey [column.name] (some k.target) []) = withKey c k := by
  have hfields : keyFields k = [⟨column.name, ColumnType.ofMethod? (keyMethod column),
      ⟨k.nullable, k.unique, false⟩⟩] := by
    rw [keyFields_of_not_isId hid, columnFlags_of_single h, h]
    rfl
  unfold withKey
  rw [addCall_foreignKey _ rfl, declaredKey_of_not_isId hid, keyModifiers_of_single h, hfields,
    columnNames_of_single h]
  unfold keyColumnCall TableChange.addCall
  dsimp only
  rw [ofKeywords_flagWords, List.append_nil, htarget]
  rfl

end Single

/-! ### A key of several columns -/

theorem keyFields_of_several (h : ¬∃ column, k.columns = [column]) :
    keyFields k = k.columns.map fun c =>
      ⟨c.name, ColumnType.ofMethod? (keyMethod c), ⟨k.nullable, false, false⟩⟩ := by
  have hflags : columnFlags k = ⟨k.nullable, false, false⟩ := by
    unfold columnFlags
    rw [beq_false_of_ne (length_of_several h), Bool.and_false]
  rw [keyFields_of_not_isId (isId_of_several h), hflags]

theorem keyModifiers_of_several (h : ¬∃ column, k.columns = [column]) :
    keyModifiers k = if k.unique then (columnNames k).map (·, { unique := true }) else [] := by
  unfold keyModifiers
  rw [bne_iff_ne.mpr (length_of_several h), Bool.and_true]

/-- The call that declares the key comes last, after those for its columns. -/
theorem addCall_of_several (h : ¬∃ column, k.columns = [column]) (hne : k.columns ≠ [])
    (htarget : Naming.className k.target = k.related) (c : TableChange) :
    c.addCall (.foreignKey (columnNames k) (some k.target) []) = c.addKey (declaredKey k) := by
  obtain ⟨first, hfirst⟩ : ∃ first, (columnNames k).head? = some first := by
    cases hcolumns : k.columns with
    | nil => exact absurd hcolumns hne
    | cons first rest =>
      unfold columnNames
      rw [hcolumns]
      exact ⟨first.name, rfl⟩
  rw [addCall_foreignKey c hfirst, declaredKey_of_not_isId (isId_of_several h)]
  dsimp only
  rw [htarget]
  rfl

theorem foldl_of_several (h : ¬∃ column, k.columns = [column]) (hne : k.columns ≠ [])
    (htarget : Naming.className k.target = k.related) (c : TableChange) :
    (foreignKeyCalls k).foldl TableChange.addCall c = withKey c k := by
  rw [foreignKeyCalls_of_several h, List.foldl_append, List.foldl_append, List.foldl_cons,
    List.foldl_nil]
  unfold keyColumnCall
  rw [foldl_columns keyMethod (·.name) (fun _ => flagWords k.nullable false),
    ofKeywords_flagWords, ← keyFields_of_several h]
  show TableChange.addCall _ (.foreignKey (columnNames k) (some k.target) []) = _
  rw [addCall_of_several h hne htarget]
  unfold withKey
  rw [keyModifiers_of_several h]
  cases k.unique with
  | true => rfl
  | false =>
    rw [if_neg Bool.false_ne_true, if_neg Bool.false_ne_true, List.append_nil]
    rfl

/-- The calls of a foreign key declare it. -/
theorem foldl_foreignKeyCalls (hne : k.columns ≠ [])
    (htarget : Naming.className k.target = k.related) (c : TableChange) :
    (foreignKeyCalls k).foldl TableChange.addCall c = withKey c k := by
  by_cases hsingle : ∃ column, k.columns = [column]
  · obtain ⟨column, hcolumns⟩ := hsingle
    have hisId := isId_of_single hcolumns
    rw [foreignKeyCalls_of_single hcolumns]
    by_cases hid : column.references = "id"
    · rw [hid] at hisId
      rw [if_pos hid]
      exact addCall_idKeyCall hcolumns hisId htarget c
    · rw [if_neg hid]
      exact addCall_keyColumnCall hcolumns (hisId.trans (beq_false_of_ne hid)) htarget c
  · exact foldl_of_several hsingle hne htarget c

/-! ### Several keys -/

/-- The columns of keys, which the change binds. -/
def namesOf (ks : List Plan.ForeignKey) : List String :=
  ks.flatMap columnNames

/-- The change with foreign keys declared in it. -/
def withKeys (c : TableChange) (ks : List Plan.ForeignKey) : TableChange :=
  ks.foldl withKey c

theorem foldl_foreignKeys {ks : List Plan.ForeignKey}
    (hks : ∀ k ∈ ks, k.columns ≠ [] ∧ Naming.className k.target = k.related) (c : TableChange) :
    (ks.flatMap foreignKeyCalls).foldl TableChange.addCall c = withKeys c ks := by
  induction ks generalizing c with
  | nil => rfl
  | cons k rest ih =>
    obtain ⟨hne, htarget⟩ := hks k List.mem_cons_self
    rw [List.flatMap_cons, List.foldl_append, foldl_foreignKeyCalls hne htarget,
      ih fun l hl => hks l (List.mem_cons_of_mem _ hl)]
    rfl

theorem columns_declaredKey (k : Plan.ForeignKey) : (declaredKey k).columns = columnNames k := by
  unfold declaredKey
  split <;> rfl

theorem keyOf_withKey (c : TableChange) (k : Plan.ForeignKey) (column : String) :
    (withKey c k).keyOf column =
      if column ∈ columnNames k then some c.keys.length else c.keyOf column := by
  unfold withKey
  rw [TableChange.keyOf_addKey, columns_declaredKey]
  rfl

/-- A column belongs to no key if it belonged to none and is no column of the new ones. -/
theorem keyOf_withKeys_eq_none_iff {c : TableChange} {ks : List Plan.ForeignKey}
    {column : String} : (withKeys c ks).keyOf column = none ↔
      c.keyOf column = none ∧ column ∉ namesOf ks := by
  unfold withKeys namesOf
  induction ks generalizing c with
  | nil => simp
  | cons k rest ih =>
    rw [List.foldl_cons, ih, keyOf_withKey, List.flatMap_cons, List.mem_append]
    by_cases hk : column ∈ columnNames k
    · simp [hk]
    · simp [hk]

/-- What declared keys leave alone, and what they add. -/
theorem withKeys_eq (c : TableChange) (ks : List Plan.ForeignKey) :
    withKeys c ks = { c with
      fields := c.fields ++ ks.flatMap keyFields
      flags := c.flags ++ ks.flatMap keyModifiers
      keys := c.keys ++ ks.map declaredKey
      keyColumns := (withKeys c ks).keyColumns } := by
  unfold withKeys
  induction ks generalizing c with
  | nil =>
    rw [List.foldl_nil, List.flatMap_nil, List.flatMap_nil, List.map_nil, List.append_nil,
      List.append_nil, List.append_nil]
  | cons k rest ih =>
    rw [List.foldl_cons, ih]
    unfold withKey TableChange.addKey
    dsimp only
    rw [List.flatMap_cons, List.flatMap_cons, List.map_cons, List.append_assoc, List.append_assoc,
      List.append_assoc]
    rfl

/-- The keys have no column in common. -/
def Apart (ks : List Plan.ForeignKey) : Prop :=
  ks.Pairwise fun k l => ∀ column ∈ columnNames k, column ∉ columnNames l

theorem bound_withKeys {c : TableChange} {ks : List Plan.ForeignKey} (hc : c.Bound)
    (hks : Apart ks) (hfresh : ∀ column ∈ namesOf ks, c.keyOf column = none) :
    (withKeys c ks).Bound := by
  unfold withKeys
  unfold namesOf at hfresh
  induction ks generalizing c with
  | nil => exact hc
  | cons k rest ih =>
    obtain ⟨hapart, hrest⟩ := List.pairwise_cons.mp hks
    rw [List.foldl_cons]
    apply ih
    · apply TableChange.bound_addKey hc
      intro column hcolumn
      rw [columns_declaredKey] at hcolumn
      exact hfresh column (List.mem_flatMap.mpr ⟨k, List.mem_cons_self, hcolumn⟩)
    · exact hrest
    · intro column hcolumn
      obtain ⟨l, hl, hcl⟩ := List.mem_flatMap.mp hcolumn
      have hnot : column ∉ columnNames k := fun hk => hapart l hl column hk hcl
      rw [keyOf_withKey, if_neg hnot]
      exact hfresh column (List.mem_append_right _ hcolumn)

/-! ### The flags of a key -/

/-- Among these fields and modifiers, those for the columns of the key are its own. -/
structure OwnedBy (k : Plan.ForeignKey) (fields : List Field) (modifiers : List (String × Flags)) :
    Prop where
  fields_own : ∀ f ∈ fields, f.name ∈ columnNames k → f ∈ keyFields k
  fields_all : ∀ f ∈ keyFields k, f ∈ fields
  modifiers_own : ∀ m ∈ modifiers, m.1 ∈ columnNames k → m ∈ keyModifiers k
  modifiers_all : ∀ m ∈ keyModifiers k, m ∈ modifiers

theorem name_mem_of_mem_keyFields {f : Field} (h : f ∈ keyFields k) : f.name ∈ columnNames k := by
  unfold keyFields at h
  split at h
  · exact absurd h List.not_mem_nil
  · obtain ⟨c, hc, rfl⟩ := List.mem_map.mp h
    exact List.mem_map.mpr ⟨c, hc, rfl⟩

theorem name_mem_of_mem_keyModifiers {m : String × Flags} (h : m ∈ keyModifiers k) :
    m.1 ∈ columnNames k := by
  unfold keyModifiers at h
  split at h
  · obtain ⟨n, hn, rfl⟩ := List.mem_map.mp h
    exact hn
  · exact absurd h List.not_mem_nil

theorem keyModifiers_of_isId (hid : k.isId = true) : keyModifiers k = [] := by
  unfold Plan.ForeignKey.isId at hid
  unfold keyModifiers
  split at hid
  · rename_i hcolumns
    rw [hcolumns]
    simp
  · cases hid

/-- A key without modifiers of its own takes none. -/
theorem OwnedBy.takeAll_modifiers {fields : List Field} {modifiers : List (String × Flags)}
    (h : OwnedBy k fields modifiers) (hnone : keyModifiers k = []) {d : KeyDeclaration}
    (hd : d.columns = columnNames k) : d.takeAll modifiers = d := by
  apply KeyDeclaration.takeAll_of_not_mem
  intro m hm hmem
  have hown := h.modifiers_own m hm (hd ▸ hmem)
  rw [hnone] at hown
  exact absurd hown List.not_mem_nil

/-- A key that refers to an `id` is declared with its flags, and there are none besides. -/
theorem takeAll_of_isId (hid : k.isId = true) {fields : List Field}
    {modifiers : List (String × Flags)} (h : OwnedBy k fields modifiers) :
    ((declaredKey k).takeAll (TableChange.given fields)).takeAll modifiers = settledKey k := by
  have hfields : keyFields k = [] := if_pos hid
  have hdeclared : declaredKey k = settledKey k := if_pos hid
  have hgiven : (settledKey k).takeAll (TableChange.given fields) = settledKey k := by
    apply KeyDeclaration.takeAll_of_not_mem
    intro g hg hmem
    obtain ⟨f, hf, rfl⟩ := List.mem_map.mp hg
    have hown := h.fields_own f hf hmem
    rw [hfields] at hown
    exact absurd hown List.not_mem_nil
  rw [hdeclared, hgiven]
  exact h.takeAll_modifiers (keyModifiers_of_isId hid) rfl

/-- Any other key takes the flags of the fields for its columns. -/
theorem takeAll_given (hid : k.isId = false) (hne : k.columns ≠ []) {fields : List Field}
    {modifiers : List (String × Flags)} (h : OwnedBy k fields modifiers) :
    (declaredKey k).takeAll (TableChange.given fields) =
      (declaredKey k).apply (columnFlags k) := by
  have hfields := keyFields_of_not_isId hid
  obtain ⟨column, hcolumn⟩ := List.exists_mem_of_ne_nil _ hne
  apply KeyDeclaration.takeAll_of_same
  · intro g hg hmem
    rw [columns_declaredKey] at hmem
    obtain ⟨f, hf, rfl⟩ := List.mem_map.mp hg
    have hown := h.fields_own f hf hmem
    rw [hfields] at hown
    obtain ⟨c, -, rfl⟩ := List.mem_map.mp hown
    rfl
  · have hall := h.fields_all ⟨column.name, ColumnType.ofMethod? (keyMethod column),
      columnFlags k⟩ (by rw [hfields]; exact List.mem_map_of_mem hcolumn)
    rw [columns_declaredKey]
    exact ⟨_, List.mem_map_of_mem hall, List.mem_map.mpr ⟨column, hcolumn, rfl⟩⟩

/-- Columns that are unique together are so by a modifier for each of them. -/
theorem takeAll_of_unique (hseveral : (k.unique && k.columns.length != 1) = true)
    (hne : k.columns ≠ []) {fields : List Field} {modifiers : List (String × Flags)}
    (h : OwnedBy k fields modifiers) {d : KeyDeclaration} (hd : d.columns = columnNames k) :
    d.takeAll modifiers = d.apply { unique := true } := by
  have hmodifiers : keyModifiers k = (columnNames k).map (·, { unique := true }) := if_pos hseveral
  apply KeyDeclaration.takeAll_of_same
  · intro m hm hmem
    have hown := h.modifiers_own m hm (hd ▸ hmem)
    rw [hmodifiers] at hown
    obtain ⟨n, -, rfl⟩ := List.mem_map.mp hown
    rfl
  · obtain ⟨column, hcolumn⟩ := List.exists_mem_of_ne_nil _ hne
    have hname : column.name ∈ columnNames k := List.mem_map.mpr ⟨column, hcolumn, rfl⟩
    have hall := h.modifiers_all (column.name, { unique := true })
      (by rw [hmodifiers]; exact List.mem_map_of_mem hname)
    exact ⟨_, hall, hd ▸ hname⟩

/-- With the flags of its own fields and modifiers, a declared key is settled. -/
theorem takeAll_declaredKey (hne : k.columns ≠ []) {fields : List Field}
    {modifiers : List (String × Flags)} (h : OwnedBy k fields modifiers) :
    ((declaredKey k).takeAll (TableChange.given fields)).takeAll modifiers = settledKey k := by
  cases hid : k.isId with
  | true => exact takeAll_of_isId hid h
  | false =>
    rw [takeAll_given hid hne h, declaredKey_of_not_isId hid, ← settledKey_of_apply]
    by_cases hseveral : (k.unique && k.columns.length != 1) = true
    · obtain ⟨hunique, hlength⟩ := Bool.and_eq_true_iff.mp hseveral
      have hmany : (k.columns.length == 1) = false := beq_false_of_ne (bne_iff_ne.mp hlength)
      rw [takeAll_of_unique hseveral hne h rfl]
      unfold columnFlags
      rw [hunique, hmany]
      rfl
    · have hflags : columnFlags k = ⟨k.nullable, k.unique, false⟩ := by
        unfold columnFlags
        congr 1
        cases hunique : k.unique with
        | false => rfl
        | true =>
          rw [hunique, Bool.true_and, bne_iff_ne, ne_eq, Decidable.not_not] at hseveral
          rw [hseveral]
          rfl
      rw [hflags]
      exact h.takeAll_modifiers (if_neg hseveral) rfl

end SchemaBridge.Output
