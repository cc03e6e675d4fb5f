/-
  The text of models. A model is the head of its class, a few lines on its key unless that is an
  `id`, and its methods, with empty lines between them. A method returns one call, on the class at
  the other end and on names in quotes. All of it is spelled out here as it stands in the file,
  apart from the indented lines that a model is written with.
  Main results: `text_declaration`, `keyText_keyMember` and `modelText_eq`.
-/
import SchemaBridge.Output.Model
import SchemaBridge.Proofs.Plan.Plain

namespace SchemaBridge.Output

/-! ## What stands in a model -/

/-- A method of a model that declares a relationship, by the parts of its text. -/
structure Declaration where
  /-- The relation that it stands for, which its text does not tell. -/
  relation : RelationId
  name : String
  /-- The relationship, as it is called. -/
  word : String
  related : String
  /-- What the call names in quotes behind the class. -/
  named : List String

def Declaration.text (d : Declaration) : String :=
  "    public function " ++ d.name ++ "()\n    \x7b\n        return $this->" ++ d.word ++ "(" ++
    d.related ++ "::class" ++ String.join (d.named.map fun n => ", '" ++ n ++ "'") ++
      ");\n    \x7d\n"

/-- What a model says of the key of its class: nothing of an `id`, of any other key the first column
and its type. -/
inductive KeyText (c : Class) (composite : Bool) : List String → Prop
  | id (h : Plan.usesId (Plan.keysOf c composite) = true) : KeyText c composite []
  | own {key : Plan.Key} {rest : List Plan.Key} {type : String}
      (hkeys : Plan.keysOf c composite = key :: rest)
      (h : Plan.usesId (Plan.keysOf c composite) = false)
      (htype : type = if key.type = some .int ∨ key.type = some .bigint then "int" else "string") :
      KeyText c composite ["    protected $primaryKey = '" ++ key.name ++
        "';\n    protected $keyType = '" ++ type ++ "';\n    public $incrementing = false;\n"]

/-- The text of the model of a class with these members. -/
def modelContents (cls : String) (members : List String) : String :=
  "<?php\n\nnamespace App\\Models;\n\nuse Illuminate\\Database\\Eloquent\\Model;\n\nclass " ++ cls ++
    " extends Model\n\x7b\n" ++ "\n".intercalate members ++ "\x7d\n"

/-! ## How it is written -/

theorem line_zero (text : String) : line 0 text = text ++ "\n" := by
  unfold line
  rw [List.replicate_zero, String.join_nil, String.empty_append]

theorem line_one (text : String) : line 1 text = "    " ++ text ++ "\n" := by
  unfold line
  rw [List.replicate_one, String.join_cons, String.join_nil, String.append_empty]

theorem intercalate_quote (first : String) (names : List String) :
    ", ".intercalate (first :: names.map quote) =
      first ++ String.join (names.map fun n => ", '" ++ n ++ "'") := by
  induction names generalizing first with
  | nil =>
    rw [List.map_nil, List.map_nil, String.intercalate_singleton, String.join_nil,
      String.append_empty]
  | cons n rest ih =>
    have hquote : ", " ++ quote n = ", '" ++ n ++ "'" := by
      unfold quote
      rw [← String.append_assoc, ← String.append_assoc]
      rfl
    rw [List.map_cons, String.intercalate_cons_cons, ih, List.map_cons, String.join_cons, ← hquote]
    simp only [String.append_assoc]

/-- What a method writes of itself. -/
def RelationshipMethod.declaration (m : RelationshipMethod) : Declaration where
  relation := m.relation
  name := m.name
  word := m.kind.method
  related := m.related
  named := m.named

/-- The lines of a method are the text that it declares its relationship with. -/
theorem text_declaration (m : RelationshipMethod) : m.declaration.text = block 1 m.lines := by
  -- The literals are cut where the lines and their parts begin.
  have hhead : "    public function " = "    " ++ "public function " := rfl
  have hbody : "()\n    \x7b\n        return $this->" =
      "()" ++ ("\n" ++ ("    " ++ ("\x7b" ++ ("\n" ++ ("    " ++ ("    return " ++ "$this->")))))) := rfl
  have hend : ");\n    \x7d\n" = ")" ++ (";" ++ ("\n" ++ ("    " ++ ("\x7d" ++ "\n")))) := rfl
  unfold block RelationshipMethod.lines RelationshipMethod.call Declaration.text
  simp only [List.map_cons, List.map_nil, String.join_cons, String.join_nil, line_one,
    intercalate_quote, hhead, hbody, hend, String.append_assoc, String.append_empty]
  rfl

-- What an order says of its customer, who has a key of his own.
example : Declaration.text ⟨3, "customer", "belongsTo", "Customer", ["customer_code", "code"]⟩ =
    "    public function customer()\n    \x7b\n        return $this->belongsTo(" ++
      "Customer::class, 'customer_code', 'code');\n    \x7d\n" := by
  decide

theorem block_key (name type : String) :
    block 1 ["protected $primaryKey = " ++ quote name ++ ";",
        "protected $keyType = " ++ quote type ++ ";", "public $incrementing = false;"] =
      "    protected $primaryKey = '" ++ name ++ "';\n    protected $keyType = '" ++ type ++
        "';\n    public $incrementing = false;\n" := by
  have hname : "    protected $primaryKey = '" = "    " ++ ("protected $primaryKey = " ++ "'") := rfl
  have htype : "';\n    protected $keyType = '" =
      "'" ++ (";" ++ ("\n" ++ ("    " ++ ("protected $keyType = " ++ "'")))) := rfl
  have hend : "';\n    public $incrementing = false;\n" =
      "'" ++ (";" ++ ("\n" ++ ("    " ++ ("public $incrementing = false;" ++ "\n")))) := rfl
  unfold block quote
  simp only [List.map_cons, List.map_nil, String.join_cons, String.join_nil, line_one, hname, htype,
    hend, String.append_assoc, String.append_empty]

theorem keyText_keyMember (c : Class) (composite : Bool) :
    KeyText c composite ((keyMember c composite).map (block 1)) := by
  unfold keyMember
  dsimp only
  split
  · rename_i key rest hkeys
    split
    · rename_i hid
      exact .id hid
    · rename_i hid
      rw [List.map_singleton, block_key]
      refine .own hkeys (Bool.eq_false_iff.mpr hid) ?_
      split
      · rename_i hint
        rw [if_pos (.inl hint)]
      · rename_i hbigint
        rw [if_pos (.inr hbigint)]
      · rename_i hint hbigint
        rw [if_neg (not_or.mpr ⟨hint, hbigint⟩)]
  · rename_i hkeys
    exact absurd hkeys (Plan.keysOf_ne_nil c composite)

theorem modelText_eq (cls : String) (members : List (List String)) :
    modelText cls members = modelContents cls (members.map (block 1)) := by
  have hhead : "<?php\n\nnamespace App\\Models;\n\nuse Illuminate\\Database\\Eloquent\\Model;\n\nclass " =
      "<?php\n\nnamespace App\\Models;\n\nuse Illuminate\\Database\\Eloquent\\Model;\n\n" ++
        "class " := rfl
  have hopen : " extends Model\n\x7b\n" = " extends Model" ++ ("\n" ++ ("\x7b" ++ "\n")) := rfl
  have hclose : "\x7d\n" = "\x7d" ++ "\n" := rfl
  unfold modelText modelContents
  simp only [line_zero, hhead, hopen, hclose, String.append_assoc]

end SchemaBridge.Output
