/-
  Character classes of Unicode: letters, numbers and white space. The first 128 characters are
  decided without a table.
-/
import SchemaBridge.Text.LetterData

namespace SchemaBridge.Text

/-- The property Alphabetic. -/
def isAlphabetic (c : Char) : Bool :=
  if c.toNat < 128 then c.isAlpha else alphabeticSet.contains c

/-- Letters and numbers of every script. -/
def isAlphanumeric (c : Char) : Bool :=
  if c.toNat < 128 then c.isAlphanum else alphabeticSet.contains c || numberSet.contains c

/-- The white space of the first 128 characters. -/
def isAsciiBlank (c : Char) : Bool :=
  c == ' ' || (9 ≤ c.toNat && c.toNat ≤ 13)

/-- The property White_Space. -/
def isWhiteSpace (c : Char) : Bool :=
  if c.toNat < 128 then isAsciiBlank c
  else
    [0x85, 0xa0, 0x1680, 0x2028, 0x2029, 0x202f, 0x205f, 0x3000].contains c.toNat
      || (0x2000 ≤ c.toNat && c.toNat ≤ 0x200a)

/-- The text without the white space at its two ends. -/
def trim (s : List Char) : List Char :=
  ((s.dropWhile isWhiteSpace).reverse.dropWhile isWhiteSpace).reverse

theorem isAlphabetic_of_isAlpha {c : Char} (h : c.toNat < 128) :
    isAlphabetic c = c.isAlpha := by
  simp [isAlphabetic, h]

theorem isAlphanumeric_of_lt {c : Char} (h : c.toNat < 128) :
    isAlphanumeric c = c.isAlphanum := by
  simp [isAlphanumeric, h]

/-- Every letter counts among the letters and numbers. -/
theorem isAlphanumeric_of_isAlphabetic {c : Char} (h : isAlphabetic c = true) :
    isAlphanumeric c = true := by
  unfold isAlphabetic at h
  unfold isAlphanumeric
  split <;> rename_i hc
  · rw [if_pos hc] at h
    simp [Char.isAlphanum, h]
  · rw [if_neg hc] at h
    simp [h]

end SchemaBridge.Text
