/-
  What can be wrong with a statement, in words and with a caret under the place.
-/
import SchemaBridge.Text.Bytes
import SchemaBridge.Text.Width

namespace SchemaBridge.Statement

/-- Why a token does not belong where it stands. -/
inductive Fault
  | /-- It is no token, or none that a statement can hold. -/ unknownToken
  | /-- It does not associate with the operator before. -/ nonAssociative
  | /-- A statement cannot go on with it. -/ misplaced
  deriving DecidableEq, Repr

/-- A statement that cannot be read, with the token it fails at. At the end of the statement the
token is empty. -/
structure ReadError where
  fault : Fault
  statement : String
  token : String
  offset : Nat
  deriving DecidableEq, Repr

namespace ReadError

def message (e : ReadError) : String :=
  match e.fault with
  | .unknownToken =>
    "Unknown token '" ++ e.token ++ "' in '" ++ e.statement ++ "' at offset " ++ toString e.offset
  | .nonAssociative =>
    "Token '" ++ e.token ++ "' in '" ++ e.statement ++ "' at offset " ++ toString e.offset
      ++ " is not associative"
  | .misplaced =>
    "Syntax error in '" ++ e.statement ++ "' at offset " ++ toString e.offset ++ " '" ++ e.token
      ++ "'"

/-- The line of the fault and, on a line of its own, a caret below the token. -/
def caret (e : ReadError) : Option String :=
  (Text.cut e.statement.toList e.offset).map fun (before, after) =>
    let line := Text.lastLine before ++ after.takeWhile (· != '\n')
    let margin := List.replicate (Text.width (Text.lastLine before)) ' '
    String.ofList (line ++ '\n' :: margin ++ ['^'])

end ReadError

end SchemaBridge.Statement
