/-
  The number of terminal columns a text takes: wide characters take two, marks none, an emoji
  sequence two in all, and letters that join into one sign the columns of that sign. A text is
  measured from its end, since what stands behind a character decides on its columns.
-/
import SchemaBridge.Text.Follower

namespace SchemaBridge.Text

/-- Opening and closing quotation marks, single and double. -/
def isQuotationMark (c : Char) : Bool :=
  [0x2018, 0x2019, 0x201c, 0x201d].contains c.toNat

/-- A variation selector and what it asks of the character before it: a picture, a plain sign, or
a sign as wide as an ideograph. -/
inductive Selector
  | picture | plain | fullWidth
  deriving DecidableEq

def Selector.ofChar? (c : Char) : Option Selector :=
  if c.toNat = 0xfe0f then some .picture
  else if c.toNat = 0xfe0e then some .plain
  else if c.toNat = 0xfe01 then some .fullWidth
  else none

/-- What stands behind a character: a selector, if one comes first, and what follows. -/
structure Ahead where
  selector : Option Selector
  follower : Follower

/-- Nothing stands behind. -/
def Ahead.nothing : Ahead :=
  ⟨none, .other⟩

/-- What is seen when a selector comes before all that. Only letters are seen through it, and
joined emoji through the one that asks for a picture. -/
def Ahead.select (a : Ahead) (s : Selector) : Ahead :=
  if a.follower.isLetter
      || s == .picture && (a.follower == .joinedEmoji || a.follower == .joinedKeycap) then
    ⟨some s, a.follower⟩
  else ⟨some s, .other⟩

/-- What is seen when the selector is of no use to the character before it. -/
def Ahead.withoutSelector (a : Ahead) : Ahead :=
  if a.selector.isSome && !a.follower.isLetter then .nothing else ⟨none, a.follower⟩

/-- The columns that `c` adds in front of `a`, and what stands behind the character before it. -/
def Ahead.step (a : Ahead) (c : Char) : Int × Ahead :=
  if a.selector == some .picture && pictureBaseSet.contains c then
    (if a.follower == .joinedEmoji || a.follower == .joinedKeycap then 0 else 2, ⟨none, .emoji⟩)
  else if c = '\n' then (1, ⟨none, .lineFeed⟩)
  else if c = '\r' && a.follower == .lineFeed then (0, .nothing)
  else if c.toNat < 0xa1 then (1, .nothing)
  else match Selector.ofChar? c with
    | some s => (0, a.withoutSelector.select s)
    | none =>
      if a.selector == some .plain && plainBaseSet.contains c then (1, .nothing)
      else if a.selector == some .fullWidth && isQuotationMark c then (2, .nothing)
      else
        let step := a.withoutSelector.follower.step c
        (step.1, ⟨none, step.2⟩)

/-- The columns of a text, and what its beginning is to a character before it. -/
def extent (s : List Char) : Int × Ahead :=
  s.foldr (fun c found =>
    let step := found.2.step c
    (found.1 + step.1, step.2)) (0, .nothing)

/-- The columns of a text. They stand for the width that unicode-width 0.2 finds outside of East
Asian contexts. Assumed of it: two columns for wide characters and for emoji with all that is joined
to them, none for marks and for what has no sign of its own, one for control characters and for a
line break of two characters, and for letters that join into one sign the columns of that sign. -/
def width (s : List Char) : Nat :=
  (extent s).1.toNat

end SchemaBridge.Text
