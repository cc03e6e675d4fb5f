/-
  Cutting a text into the characters a reader sees: a letter with its marks, a syllable, a
  conjunct, a flag, a joined emoji.
-/
import SchemaBridge.Text.MarkData
import SchemaBridge.Text.EmojiData

namespace SchemaBridge.Text

/-- The mark that joins two emoji. -/
def joiner : Char := Char.ofNat 0x200d

/-- Marks and emoji modifiers: they attach to what stands before them. -/
def isExtending (c : Char) : Bool :=
  graphemeExtendSet.contains c || c == joiner || (0x1f3fb ≤ c.toNat && c.toNat ≤ 0x1f3ff)

/-- One half of a flag. -/
def isRegional (c : Char) : Bool :=
  0x1f1e6 ≤ c.toNat && c.toNat ≤ 0x1f1ff

/-- The roles of letters in a Korean syllable. -/
inductive Jamo
  | lead | vowel | trail | plain | closed
  deriving DecidableEq

/-- The role of a character in a Korean syllable. -/
def Jamo.ofChar? (c : Char) : Option Jamo :=
  let n := c.toNat
  if (0x1100 ≤ n && n < 0x1160) || (0xa960 ≤ n && n < 0xa97d) then some .lead
  else if (0x1160 ≤ n && n < 0x11a8) || (0xd7b0 ≤ n && n < 0xd7c7) then some .vowel
  else if (0x11a8 ≤ n && n < 0x1200) || (0xd7cb ≤ n && n < 0xd7fc) then some .trail
  else if 0xac00 ≤ n && n < 0xd7a4 then
    if (n - 0xac00) % 28 = 0 then some .plain else some .closed
  else none

/-- The vowels of Kirat Rai, which join with each other as the Korean ones do. -/
def isKiratVowel (c : Char) : Bool :=
  [0x16d63, 0x16d67, 0x16d68, 0x16d69, 0x16d6a].contains c.toNat

/-- The role of a character in a syllable of either script. -/
def syllableRole? (c : Char) : Option Jamo :=
  if isKiratVowel c then some .vowel else Jamo.ofChar? c

/-- Which letters of a syllable may follow each other. -/
def Jamo.joins : Jamo → Jamo → Bool
  | .lead, .trail => false
  | .lead, _ => true
  | .vowel, .vowel | .vowel, .trail | .plain, .vowel | .plain, .trail => true
  | .trail, .trail | .closed, .trail => true
  | _, _ => false

/-- Whether a cluster, given in reverse, ends in an emoji and a joiner. Marks may stand between
the two, but no second joiner. -/
def endsInJoinedEmoji : List Char → Bool
  | [] => false
  | c :: before =>
    c == joiner && (match before.dropWhile fun m => isExtending m && m != joiner with
      | [] => false
      | base :: _ => pictographicSet.contains base)

/-- Whether a cluster, given in reverse, ends in an Indic consonant and a sign that links it to
the next one. Marks may stand before and behind the sign, but no non-joiner. -/
def endsInLinkedConsonant (cluster : List Char) : Bool :=
  let marks := cluster.takeWhile fun m => isExtending m && m != Char.ofNat 0x200c
  marks.any conjunctLinkerSet.contains
    && (match cluster.drop marks.length with
      | [] => false
      | base :: _ => conjunctLetterSet.contains base)

/-- Whether `c` goes on with the cluster whose characters, the last first, are `cluster`. -/
def continues (cluster : List Char) (c : Char) : Bool :=
  match cluster with
  | [] => true
  | '\r' :: _ => c == '\n'
  | last :: _ =>
    if controlSet.contains last || controlSet.contains c then false
    else if isExtending c || spacingMarkSet.contains c then true
    else if prependSet.contains last then true
    else if endsInLinkedConsonant cluster && conjunctLetterSet.contains c then true
    else if endsInJoinedEmoji cluster && pictographicSet.contains c then true
    else if isRegional last && isRegional c then (cluster.takeWhile isRegional).length % 2 = 1
    else match syllableRole? last, syllableRole? c with
      | some a, some b => a.joins b
      | _, _ => false

/-- The clusters of the rest of a text, `pending` being the characters of the cluster under way. -/
def clustersFrom (pending : List Char) : List Char → List (List Char)
  | [] => if pending.isEmpty then [] else [pending.reverse]
  | c :: rest =>
    if continues pending c then clustersFrom (c :: pending) rest
    else pending.reverse :: clustersFrom [c] rest

/-- The text as a list of clusters. They stand for the cuts of unicode-segmentation, by which names
are cut into words. Assumed of it: the extended grapheme clusters of Unicode 17. -/
def clusters (s : List Char) : List (List Char) :=
  clustersFrom [] s

theorem clustersFrom_flatten (pending s : List Char) :
    (clustersFrom pending s).flatten = pending.reverse ++ s := by
  induction s generalizing pending with
  | nil =>
    cases pending <;> simp [clustersFrom]
  | cons c rest ih =>
    simp only [clustersFrom]
    split <;> simp [ih]

/-- Cutting loses nothing. -/
theorem clusters_flatten (s : List Char) : (clusters s).flatten = s := by
  simp [clusters, clustersFrom_flatten]

end SchemaBridge.Text
