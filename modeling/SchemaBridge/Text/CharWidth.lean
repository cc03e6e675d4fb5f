/-
  The number of terminal columns of a character by itself.
-/
import SchemaBridge.Text.Cluster
import SchemaBridge.Text.WideData

namespace SchemaBridge.Text

/-- Signs that attach to a number or to the next letter and take no column. -/
def zeroWidthSigns : List Nat :=
  [0x605, 0x70f, 0x890, 0x891, 0x8e2, 0xa8fa]

/-- Signs that run under or over the following number: they belong to it and take a column,
unless they are among `zeroWidthSigns`. -/
def numberSigns : List Nat :=
  [0x600, 0x601, 0x602, 0x603, 0x604, 0x605, 0x6dd, 0x70f, 0x890, 0x891, 0x8e2, 0x110bd, 0x110cd]

/-- Characters without a column of their own. -/
def isZeroWidth (c : Char) : Bool :=
  graphemeExtendSet.contains c || defaultIgnorableSet.contains c
    || zeroWidthSigns.contains c.toNat
    || prependSet.contains c && !numberSigns.contains c.toNat
    || (match Jamo.ofChar? c with
      | some .vowel | some .trail => true
      | _ => false)

/-- The columns of a character by itself. -/
def charWidth (c : Char) : Nat :=
  if c.toNat < 0xa1 || isSoundMark c then 1
  else if c.toNat = 0x115f || c.toNat = 0x17a4 then 2
  else if c.toNat = 0x17d8 then 3
  else if c.toNat = 0x2d7f then 1
  else if isZeroWidth c then 0
  else if wideSet.contains c then 2
  else 1

end SchemaBridge.Text
