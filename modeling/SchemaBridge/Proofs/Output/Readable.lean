/-
  The migrations that are made for a diagram can be read again. The names of a diagram are names,
  so its plan is plain and each of its statements is sound; and a run over migrations that can be
  read one by one does not fail.
  Main results: `migrateAll_of_forall₂` and `importMigrations_of_forall₂`.
-/
import SchemaBridge.Proofs.Output.Written
import SchemaBridge.Project

namespace SchemaBridge

open Output (Written writtenIn)

/-- The text is a migration with this statement in `up`; the statement is what is found in it, and
it is read as what it means. -/
structure Output.Written.ReadableIn (w : Written) (contents : String) : Prop where
  stands : w.StandsIn contents
  definition : Statement.definition contents = some w.text
  read : Statement.read w.text = .ok w.statement

namespace Output

theorem Written.Sound.readableIn {w : Written} (h : w.Sound) {contents : String}
    (hstands : w.StandsIn contents) : w.ReadableIn contents := by
  obtain ⟨down, rfl⟩ := hstands
  exact ⟨⟨down, rfl⟩, h.definition down, h.read⟩

theorem forall₂_readableIn {ws : List Written} {files : List GeneratedFile}
    (hsound : ∀ w ∈ ws, w.Sound)
    (hstands : List.Forall₂ (fun (w : Written) (f : GeneratedFile) => w.StandsIn f.contents) ws
      files) :
    List.Forall₂ (fun (w : Written) (f : GeneratedFile) => w.ReadableIn f.contents) ws files := by
  induction hstands with
  | nil => exact .nil
  | cons hw _ ih =>
    obtain ⟨hfirst, hrest⟩ := List.forall_mem_cons.mp hsound
    exact .cons (hfirst.readableIn hw) (ih hrest)

theorem readableIn_migrations {p : Plan} (hp : p.Plain) (options : Options) :
    List.Forall₂ (fun (w : Written) (f : GeneratedFile) => w.ReadableIn f.contents)
      (writtenIn p options.timestamps) (migrations p options) :=
  forall₂_readableIn (sound_writtenIn hp options.timestamps) (standsIn_migrations p options)

end Output

/-! ## Runs -/

variable {ws : List Written} {files : List GeneratedFile}

theorem Schema.migrate_of_readable {w : Written} {contents : String}
    (h : w.ReadableIn contents) (s : Schema) : s.migrate w.text = .ok (w.statement.apply s) := by
  unfold migrate
  rw [h.read]
  rfl

/-- A run over texts that can be read applies their statements. -/
theorem Schema.migrateAll_of_forall₂ (s : Schema)
    (h : List.Forall₂ (fun (w : Written) (f : GeneratedFile) => w.ReadableIn f.contents) ws
      files) : s.migrateAll (files.map (·.contents)) =
        .ok (ws.foldl (fun t w => w.statement.apply t) s) := by
  unfold migrateAll
  induction h generalizing s with
  | nil => rfl
  | @cons w f _ _ hw _ ih =>
    rw [List.map_cons, List.foldlM_cons, List.foldl_cons, hw.definition]
    dsimp only
    rw [migrate_of_readable hw]
    exact ih _

theorem Schema.importFile_of_readable {w : Written} {f : GeneratedFile}
    (h : w.ReadableIn f.contents) (skipStock : Bool) (s : Schema) :
    s.importFile skipStock f =
      .ok (if isLeftOut skipStock f.name then s else w.statement.apply s) := by
  unfold importFile
  split
  · rfl
  · rw [h.definition]
    dsimp only
    rw [migrate_of_readable h]
    rfl

theorem exists_importMigrations (skipStock : Bool)
    (h : List.Forall₂ (fun (w : Written) (f : GeneratedFile) => w.ReadableIn f.contents) ws
      files) : ∃ t, importMigrations files skipStock = .ok t := by
  have hfold : ∀ s : Schema, ∃ t, files.foldlM (Schema.importFile skipStock) s = .ok t := by
    induction h with
    | nil => exact fun s => ⟨s, rfl⟩
    | cons hw _ ih =>
      intro s
      rw [List.foldlM_cons, Schema.importFile_of_readable hw]
      exact ih _
  exact hfold .empty

/-- A run that leaves no file out does what a run over the texts does. -/
theorem importMigrations_of_forall₂
    (h : List.Forall₂ (fun (w : Written) (f : GeneratedFile) => w.ReadableIn f.contents) ws files)
    {skipStock : Bool} (hleft : ∀ f ∈ files, isLeftOut skipStock f.name = false) :
    importMigrations files skipStock =
      .ok (ws.foldl (fun t w => w.statement.apply t) .empty) := by
  have hfold : ∀ s : Schema, files.foldlM (Schema.importFile skipStock) s =
      .ok (ws.foldl (fun t w => w.statement.apply t) s) := by
    induction h with
    | nil => exact fun s => rfl
    | @cons w f _ _ hw _ ih =>
      intro s
      obtain ⟨hfirst, hrest⟩ := List.forall_mem_cons.mp hleft
      rw [List.foldlM_cons, Schema.importFile_of_readable hw, hfirst, List.foldl_cons]
      exact ih hrest _
  exact hfold .empty

/-! ## Diagrams -/

/-- Every migration that is made for a diagram holds a statement that is found in it just as it
is written into `up`, and that is read as what the plan says. So a run over all of them, from
whatever schema and through either reader, does not fail. -/
theorem migrations_readable {text : String} {s : Schema} (h : Diagram.read text = .ok s)
    (options : Options) :
    List.Forall₂ (fun (w : Written) (f : GeneratedFile) => w.ReadableIn f.contents)
      (writtenIn (generate s options).plan options.timestamps) (generate s options).migrations ∧
    (∀ t : Schema, t.migrateAll ((generate s options).migrations.map (·.contents)) =
      .ok ((writtenIn (generate s options).plan options.timestamps).foldl
        (fun t w => w.statement.apply t) t)) ∧
    ∀ skipStock, ∃ t, importMigrations (generate s options).migrations skipStock = .ok t := by
  have hplain := Plan.plain_plan (Diagram.spelled_read h) (Diagram.reachable_read h).consistent
    options
  have hreadable := Output.readableIn_migrations hplain options
  exact ⟨hreadable, fun t => t.migrateAll_of_forall₂ hreadable,
    fun skipStock => exists_importMigrations skipStock hreadable⟩

/-- Posts that reply to each other and are tagged. -/
def blogText : String :=
  "class Post \x7b\x0a  id: int \x7bpk\x7d\x0a  title\x0a\x7d\x0aPost \"*\" -- \"0..1\" Post\x0a" ++
    "Post \"*\" -- \"*\" Tag"

/-- The schema of `blogText`. -/
def blog : Schema :=
  let fields : List Field := [⟨"id", some .int, { primary := true }⟩, ⟨"title", none, .none⟩]
  ((((Schema.empty.ensureClass "Post").modify "Post" fun c => { c with fields }).addRelation
    ⟨⟨"Post", .any⟩, ⟨"Post", .zeroOrOne⟩⟩).ensureClass "Tag").addRelation
      ⟨⟨"Post", .any⟩, ⟨"Tag", .any⟩⟩

theorem read_blogText : Diagram.read blogText = .ok blog :=
  Diagram.read_eq_of_toOption (by decide +kernel)

theorem migrations_readable_blog : Diagram.read blogText = .ok blog ∧
    List.Forall₂ (fun (w : Written) (f : GeneratedFile) => w.ReadableIn f.contents)
      (writtenIn (generate blog {}).plan true) (generate blog {}).migrations ∧
    (∀ t : Schema, t.migrateAll ((generate blog {}).migrations.map (·.contents)) =
      .ok ((writtenIn (generate blog {}).plan true).foldl (fun t w => w.statement.apply t) t)) ∧
    ∀ skipStock, ∃ t, importMigrations (generate blog {}).migrations skipStock = .ok t :=
  ⟨read_blogText, migrations_readable read_blogText {}⟩

end SchemaBridge
