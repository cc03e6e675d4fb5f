/-
  Fields of a class and the flags a column can carry.
-/
import SchemaBridge.Schema.ColumnType

namespace SchemaBridge

/-- What a column may be besides its type. -/
structure Flags where
  nullable : Bool := false
  unique : Bool := false
  primary : Bool := false
  deriving DecidableEq, Repr

namespace Flags

/-- No flag at all. -/
def none : Flags := {}

/-- The flag of a modifier keyword; other words stand for no flag. -/
def ofKeyword (keyword : String) : Flags :=
  match keyword with
  | "nullable" => { nullable := true }
  | "unique" => { unique := true }
  | "primary" => { primary := true }
  | _ => none

/-- The flags of either side. -/
def union (a b : Flags) : Flags :=
  ⟨a.nullable || b.nullable, a.unique || b.unique, a.primary || b.primary⟩

instance : Union Flags := ⟨union⟩

/-- The flags of all modifier keywords of a list. -/
def ofKeywords (keywords : List String) : Flags :=
  keywords.foldl (fun flags k => flags ∪ ofKeyword k) none

theorem union_none (a : Flags) : a ∪ none = a := by
  cases a; simp [Union.union, union, none]

theorem none_union (a : Flags) : none ∪ a = a := by
  cases a; simp [Union.union, union, none]

theorem union_assoc (a b c : Flags) : a ∪ b ∪ c = a ∪ (b ∪ c) := by
  simp [Union.union, union, Bool.or_assoc]

end Flags

/-- A field of a class. -/
structure Field where
  name : String
  type : Option ColumnType
  flags : Flags := .none
  deriving DecidableEq, Repr

/-- The field with further flags set. -/
def Field.apply (f : Field) (flags : Flags) : Field :=
  { f with flags := f.flags ∪ flags }

end SchemaBridge
