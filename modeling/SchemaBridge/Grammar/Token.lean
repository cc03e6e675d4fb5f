/-
  Tokens and where they come from.
-/

namespace SchemaBridge

/-- A token: its kind, its text and the place where it stands, counted in bytes. -/
structure Token (T : Type) where
  kind : T
  text : String
  offset : Nat
  deriving DecidableEq, Repr

/-- Tokens in order. A source that fails does so behind its last token. -/
structure Source (T E : Type) where
  tokens : List (Token T)
  failure : Option E := none

end SchemaBridge
