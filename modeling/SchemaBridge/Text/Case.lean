/-
  Upper and lower case of texts by the full mappings of Unicode, with the final form of sigma.
-/
import SchemaBridge.Text.CaseData

namespace SchemaBridge.Text

/-- The image of a code point under the first run that holds it. -/
def mappedBy (runs : List CaseRun) (n : Nat) : Option Nat :=
  match runs with
  | [] => none
  | r :: rest =>
    if r.first ≤ n && n ≤ r.last && (n - r.first) % r.step == 0 then
      some (r.target + (n - r.first))
    else mappedBy rest n

/-- The lower-case mapping of one character; `İ` alone becomes two characters. -/
def lowerChar (c : Char) : List Char :=
  if c.toNat < 128 then [c.toLower]
  else if c.toNat = 0x130 then ['i', Char.ofNat 0x307]
  else [((mappedBy lowerRuns c.toNat).map Char.ofNat).getD c]

/-- The upper-case mapping of one character. -/
def upperChar (c : Char) : List Char :=
  if c.toNat < 128 then [c.toUpper]
  else match upperSequences.lookup c.toNat with
    | some image => image.map Char.ofNat
    | none => [((mappedBy upperRuns c.toNat).map Char.ofNat).getD c]

/-- Whether the nearest character of `s` that is not case-ignorable is cased. -/
def meetsCased (s : List Char) : Bool :=
  match s.dropWhile caseIgnorableSet.contains with
  | [] => false
  | c :: _ => casedSet.contains c

/-- A capital sigma takes its final form after a letter and before none. `before` holds the
characters already passed, nearest first. -/
def lowerFrom (before : List Char) : List Char → List Char
  | [] => []
  | c :: rest =>
    (if c = 'Σ' then [if meetsCased before && !meetsCased rest then 'ς' else 'σ']
      else lowerChar c) ++ lowerFrom (c :: before) rest

/-- The text in lower case. -/
def toLower (s : List Char) : List Char :=
  lowerFrom [] s

/-- The text in upper case. -/
def toUpper (s : List Char) : List Char :=
  s.flatMap upperChar

/-- The text with its first character in upper case and all others in lower case. -/
def capitalize : List Char → List Char
  | [] => []
  | c :: rest => upperChar c ++ toLower rest

/-- All letters are capital, and there is one. -/
def isUpperCase (s : List Char) : Bool :=
  toUpper s != toLower s && s == toUpper s

/-- All letters are small, and there is one. -/
def isLowerCase (s : List Char) : Bool :=
  toUpper s != toLower s && s == toLower s

end SchemaBridge.Text
