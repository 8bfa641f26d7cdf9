import TwinScript.Json
import TwinScript.Token.Kind

/-!
# Tokens

A token is a lexeme with its place: the line and column of its first character, both counted from
one, and the bytes it covers. Tokens are shown in two ways, as a short display for people and as
one line of JSON.
-/
namespace TwinScript

/-- A range of byte offsets, from `start` up to but not including `stop`. -/
structure Span where
  start : Nat
  stop : Nat
  deriving DecidableEq, Repr

def Span.isEmpty (span : Span) : Bool := span.start == span.stop

structure Token where
  kind : Token.Kind
  value : String
  line : Nat
  column : Nat
  span : Span
  deriving DecidableEq, Repr

namespace Token

/-- Kind, value and place of a token. The value stands between quotes as it is, unescaped. -/
def display (t : Token) : String :=
  "\x7b " ++ t.kind.name ++ ", \"" ++ t.value ++ "\", " ++ t.line.repr ++ ":" ++ t.column.repr
    ++ " \x7d"

def toJson (t : Token) : Json :=
  .obj
    [("kind".toList, .str t.kind.name.toList),
      ("value".toList, .str t.value.toList),
      ("line".toList, .num t.line),
      ("column".toList, .num t.column),
      ("span".toList, .obj [("start".toList, .num t.span.start), ("end".toList, .num t.span.stop)])]

def jsonLine (t : Token) : String := String.ofList t.toJson.compact

end Token
end TwinScript
