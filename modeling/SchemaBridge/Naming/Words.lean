/-
  Identifiers as lists of words, and their two spellings: `order_item` and `OrderItem`. Both follow
  the conversions of the library convert_case 0.10. What is assumed of it stands beside `words`,
  `snake` and `pascal`; the theorems on names ask less of it.
-/
import SchemaBridge.Text.Case
import SchemaBridge.Text.Cluster

namespace SchemaBridge.Naming

open Text

/-- How a visible character takes part in an identifier. -/
inductive Glyph
  | separator | upper | lower | digit | plain
  deriving DecidableEq

/-- The characters that only part words. -/
def isSeparator (cluster : List Char) : Bool :=
  cluster == ['_'] || cluster == ['-'] || cluster == [' ']

def Glyph.ofCluster (cluster : List Char) : Glyph :=
  if isSeparator cluster then .separator
  else if cluster.all Char.isDigit then .digit
  else if isUpperCase cluster then .upper
  else if isLowerCase cluster then .lower
  else .plain

/-- Whether a word ends between two neighbours: where case rises or a number begins or ends, and
before the last of several capitals when a small letter follows it. -/
def Glyph.parts (a b : Glyph) (next : Option Glyph) : Bool :=
  match a, b with
  | .lower, .upper | .lower, .digit | .upper, .digit | .digit, .lower | .digit, .upper => true
  | .upper, .upper => next == some .lower
  | _, _ => false

/-- Puts a cluster in front of the first word. -/
def joinFirst (cluster : List Char) : List (List Char) → List (List Char)
  | [] => [cluster]
  | word :: words => (cluster ++ word) :: words

/-- The words of a list of clusters. Words are never left out, not even empty ones. -/
def wordsOfClusters : List (List Char) → List (List Char)
  | [] => [[]]
  | c :: rest =>
    let kind := Glyph.ofCluster c
    if kind = .separator then [] :: wordsOfClusters rest
    else match rest with
      | [] => joinFirst c (wordsOfClusters rest)
      | d :: after =>
        if kind.parts (.ofCluster d) (after.head?.map .ofCluster) then c :: wordsOfClusters rest
        else joinFirst c (wordsOfClusters rest)

/-- The words of an identifier. Assumed of convert_case: it looks at the clusters of the text one by
one, and a word ends at the first of these that applies. An underscore, a hyphen or a space ends it
and is dropped; a small letter ends it before a capital or a digit, a capital before a digit, and a
digit before a letter of either case; and a capital ends it before a capital that a small letter
follows. Clusters without case, digits of other scripts among them, end no word. Empty words stay. -/
def words (name : String) : List (List Char) :=
  wordsOfClusters (clusters name.toList)

/-- Small letters, the words joined by underscores. Assumed of `Case::Snake`: each word is put into
lower case by the full mapping, the final form of sigma included, and nothing is left out between
the words. -/
def snake (name : String) : String :=
  String.ofList (['_'].intercalate ((words name).map toLower))

/-- A capital at the head of each word and nothing between them. Assumed of `Case::Pascal`: the first
character of a word, not its first cluster, goes to upper case by the full mapping, where it may
become several characters, and the rest of the word to lower case. -/
def pascal (name : String) : String :=
  String.ofList ((words name).flatMap capitalize)

end SchemaBridge.Naming
