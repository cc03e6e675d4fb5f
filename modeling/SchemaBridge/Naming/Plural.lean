/-
  The plural of a noun and back, by its ending. A noun of several words joined by underscores
  changes its last word.
-/
import SchemaBridge.Text.Affix

namespace SchemaBridge.Naming

open Text

/-- Endings that take `es` in the plural. -/
def hissingEndings : List (List Char) :=
  [['s'], ['s', 'h'], ['c', 'h'], ['x'], ['z']]

def isVowel (c : Char) : Bool :=
  ['a', 'e', 'i', 'o', 'u'].contains c

/-- The text ends in a vowel. -/
def endsInVowel (s : List Char) : Bool :=
  match s.getLast? with
  | some c => isVowel c
  | none => false

/-- The text has one of the given endings. -/
def endsInOneOf (endings : List (List Char)) (s : List Char) : Bool :=
  endings.any fun e => e.isSuffixOf s

/-- The plural of a noun. -/
def pluralOf (word : List Char) : List Char :=
  if endsInOneOf hissingEndings word then word ++ ['e', 's']
  else match dropSuffix? ['y'] word with
    | some stem => if endsInVowel stem then word ++ ['s'] else stem ++ ['i', 'e', 's']
    | none => word ++ ['s']

/-- Plurals of nouns that end in a consonant and `use`. -/
def usePlurals : List (List Char) :=
  ["uses", "abuses", "accuses", "excuses", "fuses", "muses", "recluses", "refuses",
    "ruses"].map String.toList

/-- Plural endings whose last two letters are the mark of the plural. -/
def hissingPlurals : List (List Char) :=
  [['s', 's', 'e', 's'], ['s', 'h', 'e', 's'], ['c', 'h', 'e', 's'], ['x', 'e', 's'],
    ['z', 'e', 's']]

/-- Endings in `s` that are no mark of the plural. -/
def singularEndings : List (List Char) :=
  [['s', 's'], ['u', 's'], ['i', 's']]

/-- The last of the words that underscores part. -/
def lastSegment (word : List Char) : List Char :=
  (word.reverse.takeWhile (· != '_')).reverse

/-- What stands before `uses` in the plural of a noun in `us`: `statuses`, `buses`. -/
def usStem? (word : List Char) : Option (List Char) :=
  match dropSuffix? ['u', 's', 'e', 's'] word with
  | some stem =>
    if endsInVowel stem || usePlurals.contains (lastSegment word) then none else some stem
  | none => none

/-- The singular of a noun; a noun that does not look like a plural stays as it is. -/
def singularOf (word : List Char) : List Char :=
  if word.length < 2 then word
  else match dropSuffix? ['i', 'e', 's'] word with
    | some stem => stem ++ ['y']
    | none =>
      if endsInOneOf hissingPlurals word then word.take (word.length - 2)
      else match usStem? word with
        | some stem => stem ++ ['u', 's']
        | none =>
          if endsInOneOf singularEndings word then word
          else match dropSuffix? ['s'] word with
            | some stem => stem
            | none => word

/-- The plural of a noun in snake case. -/
def pluralize (word : String) : String :=
  String.ofList (pluralOf word.toList)

/-- The singular of a noun in snake case. -/
def singularize (word : String) : String :=
  String.ofList (singularOf word.toList)

end SchemaBridge.Naming
