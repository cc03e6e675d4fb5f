/-
  What a character is to the character before it, as far as columns go: halves of a flag, a skin
  tone behind a person, joined emoji and joined letters share the columns of one sign.
-/
import SchemaBridge.Text.CharWidth

namespace SchemaBridge.Text

/-- The skin tones. -/
def isEmojiModifier (c : Char) : Bool :=
  0x1f3fb ≤ c.toNat && c.toNat ≤ 0x1f3ff

/-- Arabic letters that join with a following alef into one sign. -/
def isLam (c : Char) : Bool :=
  [0x644, 0x6b5, 0x6b6, 0x6b7, 0x6b8, 0x76a, 0x8a6, 0x8c7].contains c.toNat

/-- The Arabic alef and its variants. -/
def isAlef (c : Char) : Bool :=
  [0x622, 0x623, 0x625, 0x627, 0x671, 0x672, 0x673, 0x675, 0x773, 0x774].contains c.toNat
    || (0x870 ≤ c.toNat && c.toNat ≤ 0x882)

/-- Khmer letters that have a subscript form. -/
def isKhmerSubscript (c : Char) : Bool :=
  let n := c.toNat
  (0x1780 ≤ n && n ≤ 0x17af)
    && !([0x1783, 0x1788, 0x178d, 0x1794, 0x1799, 0x179a, 0x179e, 0x179f, 0x17a1, 0x17a3, 0x17a4,
      0x17a5, 0x17a6, 0x17a8, 0x17a9, 0x17aa, 0x17ad, 0x17ae].contains n)

/-- The consonants of Tifinagh. -/
def isTifinagh (c : Char) : Bool :=
  (0x2d31 ≤ c.toNat && c.toNat ≤ 0x2d65) || c.toNat == 0x2d6f

/-- The letters of a tag sequence. -/
def isTagLetter (c : Char) : Bool :=
  0xe0061 ≤ c.toNat && c.toNat ≤ 0xe007a

/-- The digits of a tag sequence. -/
def isTagDigit (c : Char) : Bool :=
  0xe0030 ≤ c.toNat && c.toNat ≤ 0xe0039

/-- Marks and selectors that do not part the letters of a joined sign. -/
def isSeenThrough (c : Char) : Bool :=
  let n := c.toNat
  n == 0x34f || n == 0x17b4 || n == 0x17b5 || (0x180b ≤ n && n ≤ 0x180d) || n == 0x180f
    || c == joiner || (0xfe00 ≤ n && n ≤ 0xfe0f) || (0xe0100 ≤ n && n ≤ 0xe01ef)

/-- Letters that may join with the letter before them into one sign. -/
inductive JoiningLetter
  | hebrewLamed
  | bugineseYa
  | /-- The Buginese ya with the vowel i and a joiner before it. -/ bugineseVowelYa
  | tifinagh
  | /-- A Tifinagh consonant with the joiner of that script before it. -/ tifinaghJoined
  | /-- The Lisu tone letters mya and jeu. -/ lisuTone
  | turkicI
  | khmerSubscript
  deriving DecidableEq

/-- What has been read of a tag sequence, from its end: its closing tag, then letters, or the
digits before them. -/
inductive TagRun
  | letters (count : Nat)
  | digits (count : Nat)
  deriving DecidableEq

/-- Whether a flag may stand before the tags: they name a region by two letters or three digits,
and one of its parts. -/
def TagRun.isComplete : TagRun → Bool
  | .letters n => 3 ≤ n
  | .digits n => n == 3

/-- The tags with one more before them. -/
def TagRun.extend? (t : TagRun) (c : Char) : Option TagRun :=
  match t with
  | .letters n =>
    if n < 6 && isTagLetter c then some (.letters (n + 1))
    else if n < 5 && isTagDigit c then some (.digits 1)
    else none
  | .digits n => if n < 3 && isTagDigit c then some (.digits (n + 1)) else none

/-- How many halves of flags stand behind a character and before a joined emoji. -/
inductive FlagHalves
  | one | even | odd
  deriving DecidableEq

/-- What stands right behind a character, as far as its columns depend on it. -/
inductive Follower
  | /-- Nothing that matters. -/ other
  | lineFeed
  | /-- An emoji of two columns. -/ emoji
  | emojiModifier
  | /-- One half of a flag. -/ flagHalf
  | /-- Two halves of flags or more. -/ flagHalves
  | /-- A joiner and an emoji. -/ joinedEmoji
  | /-- A keycap mark, a joiner and an emoji. -/ joinedKeycap
  | /-- Halves of flags, a joiner and an emoji. -/ joinedFlag (halves : FlagHalves)
  | /-- Tags, a joiner and an emoji. -/ joinedTags (tags : TagRun)
  | /-- An Arabic alef, perhaps with marks before it. -/ alef
  | /-- A letter that may join, with a joiner before it or none. -/
    letter (l : JoiningLetter) (joined : Bool)
  | kiratE
  | kiratAi
  deriving DecidableEq

/-- What a character is to the character before it. -/
def Follower.ofChar (c : Char) : Follower :=
  let n := c.toNat
  if isRegional c then .flagHalf
  else if isEmojiModifier c then .emojiModifier
  else if emojiPresentationSet.contains c then .emoji
  else if isAlef c then .alef
  else if n = 0x5dc then .letter .hebrewLamed false
  else if n = 0x1a10 then .letter .bugineseYa false
  else if isTifinagh c then .letter .tifinagh false
  else if n = 0xa4fc || n = 0xa4fd then .letter .lisuTone false
  else if n = 0x10c03 then .letter .turkicI false
  else if isKhmerSubscript c then .letter .khmerSubscript false
  else if n = 0x16d67 then .kiratE
  else if n = 0x16d68 then .kiratAi
  else .other

/-- Whether the letter behind is still seen from before a variation selector. -/
def Follower.isLetter : Follower → Bool
  | .alef | .letter .. => true
  | _ => false

/-- The columns that the letter `c` adds to the sign of the joining letter behind it, and what it
is to the character before it. -/
def JoiningLetter.combine? (l : JoiningLetter) (joined : Bool) (c : Char) :
    Option (Int × Follower) :=
  let n := c.toNat
  match l with
  | .hebrewLamed => if joined && n == 0x5d0 then some (0, .other) else none
  | .bugineseYa => if joined && n == 0x1a17 then some (0, .letter .bugineseVowelYa true) else none
  | .bugineseVowelYa => if n = 0x1a15 then some (0, .other) else none
  | .tifinagh =>
    if n = 0x2d7f then some (1, .letter .tifinaghJoined true)
    else if joined && isTifinagh c then some (0, .other)
    else none
  | .tifinaghJoined => if isTifinagh c then some (-1, .other) else none
  | .lisuTone => if 0xa4f8 ≤ n && n ≤ 0xa4fb then some (0, .other) else none
  | .turkicI => if joined && n == 0x10c32 then some (0, .other) else none
  | .khmerSubscript => if n = 0x17d2 then some (-1, .other) else none

/-- The columns that `c` adds to a joined emoji behind it, and what it is to the character before
it. -/
def combineJoinedEmoji? (c : Char) : Option (Int × Follower) :=
  if c.toNat = 0x20e3 then some (0, .joinedKeycap)
  else if isRegional c then some (1, .joinedFlag .one)
  else if isEmojiModifier c then some (0, .emojiModifier)
  else if c.toNat = 0xe007f then some (0, .joinedTags (.letters 0))
  else if emojiPresentationSet.contains c then some (0, .emoji)
  else none

/-- The columns that `c` adds when it makes one sign with what stands behind it, and what it is to
the character before it. They are negative where the sign behind had been counted by itself. -/
def Follower.combine? (f : Follower) (c : Char) : Option (Int × Follower) :=
  match f with
  | .other | .lineFeed | .joinedKeycap => none
  | .emoji => if c == joiner then some (0, .joinedEmoji) else none
  | .emojiModifier =>
    if emojiModifierBaseSet.contains c then some (0, .emoji)
    else if c == joiner then some (0, .joinedEmoji)
    else none
  | .flagHalf => if isRegional c then some (1, .flagHalves) else none
  | .flagHalves =>
    if isRegional c then some (1, .flagHalves)
    else if c == joiner then some (0, .joinedEmoji)
    else none
  | .joinedEmoji => combineJoinedEmoji? c
  | .joinedFlag halves =>
    if isRegional c then
      match halves with
      | .one | .odd => some (-1, .joinedFlag .even)
      | .even => some (3, .joinedFlag .odd)
    else if c == joiner && halves != .one then some (0, .joinedEmoji)
    else none
  | .joinedTags tags =>
    match tags.extend? c with
    | some more => some (0, .joinedTags more)
    | none => if tags.isComplete && c.toNat == 0x1f3f4 then some (0, .emoji) else none
  | .alef =>
    if isLam c then some (0, .other)
    else if isZeroWidth c && !joinBreakingSet.contains c then some (0, .alef)
    else none
  | .letter l joined =>
    if c == joiner then some (0, .letter l true)
    else if isSeenThrough c then some (0, .letter l joined)
    else l.combine? joined c
  | .kiratE =>
    if c.toNat = 0x16d63 || c.toNat = 0x16d69 then some (0, .other)
    else if c.toNat = 0x16d67 then some (0, .kiratAi)
    else if c.toNat = 0x16d68 then some (1, .kiratE)
    else none
  | .kiratAi => if c.toNat = 0x16d63 then some (0, .other) else none

/-- The columns that `c` adds in front of `f`, and what it is to the character before it. -/
def Follower.step (f : Follower) (c : Char) : Int × Follower :=
  (f.combine? c).getD (charWidth c, Follower.ofChar c)

end SchemaBridge.Text
