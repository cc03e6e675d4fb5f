/-
  Texts in double quotes, with escapes for whatever cannot be seen.
-/
import SchemaBridge.Text.MarkData
import SchemaBridge.Text.UnprintableData

namespace SchemaBridge.Text

/-- Characters that show nothing, or only in combination with others. -/
def isUnprintable (c : Char) : Bool :=
  if c.toNat < 128 then c.toNat < 32 || c.toNat == 127
  else unprintableSet.contains c || defaultIgnorableSet.contains c
    || graphemeExtendSet.contains c && !isSoundMark c

/-- The written form of one character between double quotes. -/
def escapeChar (c : Char) : List Char :=
  match c with
  | '"' => ['\\', '"']
  | '\\' => ['\\', '\\']
  | '\n' => ['\\', 'n']
  | '\r' => ['\\', 'r']
  | '\t' => ['\\', 't']
  | '\x00' => ['\\', '0']
  | c =>
    if isUnprintable c then
      ['\\', 'u', '\x7b'] ++ Nat.toDigits 16 c.toNat ++ ['\x7d']
    else [c]

/-- The text in double quotes. -/
def quoted (s : List Char) : List Char :=
  '"' :: s.flatMap escapeChar ++ ['"']

end SchemaBridge.Text
