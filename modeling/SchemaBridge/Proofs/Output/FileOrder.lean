/-
  The order of migration files by name. Their numbers are written without leading zeros, and what
  follows a number comes after all digits; so the names ascend as long as the numbers have one
  digit, and the tenth file stands before the first.
  Main result: `names_ascend_iff`.
-/
import SchemaBridge.Project
import SchemaBridge.Proofs.Plan.Realisation

namespace SchemaBridge

namespace Output

/-! ## Two orders of names -/

/-- The bytes of a text. -/
def bytes (text : String) : List UInt8 :=
  text.toByteArray.data.toList

/-- A spelling goes piece by piece, has one letter for each of the ten digits, in their order, and
has them all before the underscore. -/
structure IsSpelling {α : Type} [LT α] (spell : String → List α) : Prop where
  append : ∀ a b, spell (a ++ b) = spell a ++ spell b
  digit_lt : ∀ n ≤ 9, ∀ m < n, ∃ d e, spell (toString m) = [d] ∧ spell (toString n) = [e] ∧ d < e
  tenth_lt : ∃ d z u, spell (toString 1) = [d] ∧ spell (toString 10) = [d, z] ∧ spell "_" = [u] ∧
    z < u

theorem isSpelling_bytes : IsSpelling bytes where
  append a b := by
    unfold bytes
    rw [String.toByteArray_append, ByteArray.toList_data_append]
  digit_lt := by
    have hdigit : ∀ n ≤ 9, bytes (toString n) = [UInt8.ofNat (48 + n)] := by decide
    have hlt : ∀ n ≤ 9, ∀ m < n, UInt8.ofNat (48 + m) < UInt8.ofNat (48 + n) := by decide
    exact fun n hn m hm => ⟨_, _, hdigit m (by omega), hdigit n hn, hlt n hn m hm⟩
  tenth_lt := ⟨49, 48, 95, by decide, by decide, by decide, by decide⟩

theorem isSpelling_toList : IsSpelling String.toList where
  append _ _ := String.toList_append
  digit_lt := by
    have hdigit : ∀ n ≤ 9, (toString n).toList = [Char.ofNat (48 + n)] := by decide
    have hlt : ∀ n ≤ 9, ∀ m < n, Char.ofNat (48 + m) < Char.ofNat (48 + n) := by decide
    exact fun n hn m hm => ⟨_, _, hdigit m (by omega), hdigit n hn, hlt n hn m hm⟩
  tenth_lt := ⟨'1', '0', '_', by decide, by decide, by decide, by decide⟩

namespace IsSpelling

variable {α : Type} [LT α] {spell : String → List α}

/-- A name as its stamp and what follows. -/
theorem migrationName_eq (h : IsSpelling spell) (stamp : String) (index : Nat) (action : String) :
    spell (migrationName stamp index action) =
      spell (stamp ++ "_") ++ (spell (toString index) ++ (spell "_" ++ spell (action ++ ".php"))) := by
  have hpieces : migrationName stamp index action =
      (stamp ++ "_") ++ (toString index ++ ("_" ++ (action ++ ".php"))) := by
    unfold migrationName
    simp only [String.append_assoc]
  rw [hpieces, h.append (stamp ++ "_"), h.append (toString index), h.append "_"]

/-- Names with one digit ascend. -/
theorem name_lt (h : IsSpelling spell) (stamp : String) {m n : Nat} (hmn : m < n) (hn : n ≤ 9)
    (a b : String) : spell (migrationName stamp m a) < spell (migrationName stamp n b) := by
  obtain ⟨d, e, hd, he, hlt⟩ := h.digit_lt n hn m hmn
  rw [h.migrationName_eq, h.migrationName_eq, hd, he]
  apply List.append_left_lt
  exact List.cons_lt_cons_iff.mpr (.inl hlt)

/-- The tenth name stands before the first. -/
theorem tenth_name_lt (h : IsSpelling spell) (stamp a b : String) :
    spell (migrationName stamp 10 a) < spell (migrationName stamp 1 b) := by
  obtain ⟨d, z, u, hone, hten, hunderscore, hlt⟩ := h.tenth_lt
  rw [h.migrationName_eq, h.migrationName_eq, hone, hten, hunderscore]
  apply List.append_left_lt
  apply @List.append_left_lt _ _ [d]
  exact List.cons_lt_cons_iff.mpr (.inl hlt)

end IsSpelling

/-! ## The names of the files of a plan -/

/-- The names of the migration files of a plan, in the order they are to be applied. -/
def fileNames (p : Plan) (options : Options) : List String :=
  (migrations p options).map GeneratedFile.name

theorem exists_fileNames_eq (p : Plan) (options : Options) {i : Nat}
    (hi : i < (fileNames p options).length) :
    ∃ action, (fileNames p options)[i] = migrationName options.stamp (i + 1) action := by
  unfold fileNames migrations at hi ⊢
  simp only [List.getElem_map, List.getElem_zipIdx]
  exact ⟨_, by rw [Nat.add_comm]⟩

variable {α : Type} [LT α] {spell : String → List α}

theorem pairwise_fileNames (h : IsSpelling spell) {p : Plan} {options : Options}
    (hfew : (fileNames p options).length ≤ 9) :
    (fileNames p options).Pairwise fun a b => spell a < spell b := by
  apply List.pairwise_iff_getElem.mpr
  intro i j hi hj hij
  obtain ⟨a, ha⟩ := exists_fileNames_eq p options hi
  obtain ⟨b, hb⟩ := exists_fileNames_eq p options hj
  rw [ha, hb]
  exact h.name_lt options.stamp (by omega) (by omega) a b

/-- No name stands before an earlier one only if there are nine at most. -/
theorem length_fileNames_le (h : IsSpelling spell) {p : Plan} {options : Options}
    (hascend : (fileNames p options).Pairwise fun a b => ¬ spell b < spell a) :
    (fileNames p options).length ≤ 9 := by
  by_contra hmany
  obtain ⟨a, ha⟩ := exists_fileNames_eq p options (i := 0) (by omega)
  obtain ⟨b, hb⟩ := exists_fileNames_eq p options (i := 9) (by omega)
  have hnot := List.pairwise_iff_getElem.mp hascend 0 9 (by omega) (by omega) (by decide)
  rw [ha, hb] at hnot
  exact hnot (h.tenth_name_lt options.stamp b a)

theorem pairwise_bytes_iff (p : Plan) (options : Options) :
    (fileNames p options).Pairwise (fun a b => bytes a < bytes b) ↔
      (fileNames p options).length ≤ 9 :=
  ⟨fun hascend => length_fileNames_le isSpelling_bytes (hascend.imp List.lt_asymm),
    pairwise_fileNames isSpelling_bytes⟩

/-- The reader of a directory sorts names; the files are in that order just if there are nine at
most. -/
theorem mergeSort_fileNames_iff (p : Plan) (options : Options) :
    (fileNames p options).mergeSort (fun a b => a ≤ b) = fileNames p options ↔
      (fileNames p options).length ≤ 9 := by
  have hle : ∀ a b : String, decide (a ≤ b) = true ↔ ¬ b.toList < a.toList := fun a b => by
    rw [decide_eq_true_iff, ← String.lt_iff_toList_lt, String.not_lt]
  constructor
  · intro hsorted
    have hpairwise := @List.pairwise_mergeSort _ (fun a b : String => decide (a ≤ b))
      (fun a b c hab hbc => by
        rw [decide_eq_true_iff] at *
        exact String.le_trans hab hbc)
      (fun a b => by
        rw [Bool.or_eq_true, decide_eq_true_iff, decide_eq_true_iff]
        exact String.le_total a b)
      (fileNames p options)
    rw [hsorted] at hpairwise
    exact length_fileNames_le isSpelling_toList (hpairwise.imp fun h => (hle _ _).mp h)
  · intro hfew
    apply List.mergeSort_of_pairwise
    exact (pairwise_fileNames isSpelling_toList hfew).imp fun h =>
      (hle _ _).mpr (List.lt_asymm h)

theorem length_fileNames (p : Plan) (options : Options) :
    (fileNames p options).length = p.tables.length + p.junctions.length + p.deferred.length := by
  simp [fileNames, migrations, drafts, Nat.add_assoc]

end Output

/-! ## The files of a schema -/

/-- The names of the migration files, in the order they are to be applied, ascend byte by byte just
if there are nine at most; and just then the reader of a directory, which sorts them, applies them in
that order. -/
theorem names_ascend_iff (s : Schema) (options : Options) :
    (((generate s options).migrations.map (·.name)).Pairwise
        (fun a b => Output.bytes a < Output.bytes b) ↔
      (generate s options).migrations.length ≤ 9) ∧
    (((generate s options).migrations.map (·.name)).mergeSort (fun a b => a ≤ b) =
        (generate s options).migrations.map (·.name) ↔
      (generate s options).migrations.length ≤ 9) := by
  rw [← List.length_map (f := fun f : GeneratedFile => f.name)]
  exact ⟨Output.pairwise_bytes_iff (s.plan options).2 options,
    Output.mergeSort_fileNames_iff (s.plan options).2 options⟩

/-- There is a file for each class at least. -/
theorem Schema.Reachable.length_classes_le {s : Schema} (h : s.Reachable) (options : Options) :
    s.classes.length ≤ (generate s options).migrations.length := by
  have horder := Schema.isCreationOrder_order h.consistent
  have htables : (s.plan options).2.tables.length = s.order.2.classes.length := by
    have hcls : (s.plan options).2.tables.map (·.cls) = s.order.2.classes :=
      Plan.map_cls_tables horder
    rw [← hcls, List.length_map]
  have hnames : s.order.2.classes.length = s.classes.length := by
    rw [← List.length_map (f := Class.name)]
    apply List.Perm.length_eq
    exact (List.perm_ext_iff_of_nodup horder.classes_nodup h.consistent.names_nodup).mpr
      horder.mem_classes
  have hfiles := Output.length_fileNames (s.plan options).2 options
  rw [Output.fileNames, List.length_map] at hfiles
  show s.classes.length ≤ (Output.migrations (s.plan options).2 options).length
  omega

/-- Ten classes. -/
def Schema.ten : Schema :=
  ["A", "B", "C", "D", "E", "F", "G", "H", "I", "J"].foldl Schema.ensureClass .empty

theorem Schema.names_of_ten_fall : Schema.ten.Reachable ∧
    ¬ ((generate Schema.ten {}).migrations.map (·.name)).Pairwise
        (fun a b => Output.bytes a < Output.bytes b) := by
  have hreachable : Schema.ten.Reachable :=
    Schema.Reachable.foldl (fun t name ht => ht.ensureClass name) _ .empty
  refine ⟨hreachable, fun hascend => ?_⟩
  have hfew := (Output.pairwise_bytes_iff (Schema.ten.plan {}).2 {}).mp hascend
  have hclasses : Schema.ten.classes.length = 10 := by decide
  have hmany := hreachable.length_classes_le {}
  rw [← List.length_map (f := fun f : GeneratedFile => f.name)] at hmany
  change _ ≤ (Output.fileNames (Schema.ten.plan {}).2 {}).length at hmany
  omega

end SchemaBridge
