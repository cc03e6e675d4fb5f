/-
  The types a column may have, their names in diagrams and their methods in migrations.
-/
import SchemaBridge.Text.Case

namespace SchemaBridge

/-- The type of a field. `other` keeps a type without a portable meaning by its name. -/
inductive ColumnType
  | string | int | bigint | float | double | bool | date | datetime
  | other (name : String)
  deriving DecidableEq, Repr

namespace ColumnType

/-- The type that a diagram calls by this name, in whatever case. -/
def ofName (name : String) : ColumnType :=
  match String.ofList (Text.toLower name.toList) with
  | "string" | "str" | "text" | "varchar" => string
  | "int" | "integer" => int
  | "bigint" | "long" => bigint
  | "float" => float
  | "double" | "decimal" => double
  | "bool" | "boolean" => bool
  | "date" => date
  | "datetime" | "timestamp" => datetime
  | _ => other name

/-- The name of a type in a diagram. -/
def name : ColumnType → String
  | string => "string"
  | int => "int"
  | bigint => "bigint"
  | float => "float"
  | double => "double"
  | bool => "bool"
  | date => "date"
  | datetime => "datetime"
  | other name => name

/-- The column methods that declare a column, with the type they stand for. -/
def methods : List (String × ColumnType) :=
  ["string", "char", "text", "tinyText", "mediumText", "longText", "ipAddress",
    "macAddress"].map (·, string)
  ++ ["integer", "tinyInteger", "smallInteger", "mediumInteger", "unsignedInteger",
    "unsignedTinyInteger", "unsignedSmallInteger", "unsignedMediumInteger", "increments",
    "tinyIncrements", "smallIncrements", "mediumIncrements", "year"].map (·, int)
  ++ ["bigInteger", "unsignedBigInteger", "bigIncrements"].map (·, bigint)
  ++ [("float", float)]
  ++ ["double", "decimal", "unsignedDecimal"].map (·, double)
  ++ [("boolean", bool), ("date", date)]
  ++ ["dateTime", "dateTimeTz", "timestamp", "timestampTz"].map (·, datetime)
  ++ ["binary", "enum", "geometry", "geometryCollection", "json", "jsonb", "lineString",
    "morphs", "multiLineString", "multiPoint", "multiPolygon", "nullableMorphs",
    "nullableUlidMorphs", "nullableUuidMorphs", "point", "polygon", "set", "time", "timeTz",
    "ulid", "ulidMorphs", "uuid", "uuidMorphs"].map (fun m => (m, other m))

/-- The type that a column method declares, if the word is a column method. -/
def ofMethod? (method : String) : Option ColumnType :=
  methods.lookup method

/-- The column method that declares a field of this type. -/
def method? : ColumnType → Option String
  | string => some "string"
  | int => some "integer"
  | bigint => some "bigInteger"
  | float => some "float"
  | double => some "double"
  | bool => some "boolean"
  | date => some "date"
  | datetime => some "dateTime"
  | other _ => none

/-- The method of a type declares that very type. -/
theorem ofMethod?_of_method? {t : ColumnType} {m : String} (h : t.method? = some m) :
    ofMethod? m = some t := by
  cases t <;> simp only [method?, Option.some.injEq, reduceCtorEq] at h <;> subst h <;> decide

end ColumnType

end SchemaBridge
