import TwinScript.Cursor
import TwinScript.Lexeme

/-!
# Lexical errors

A lexical error is a fault with its place: line and column, and the bytes at fault. Reading on
after the end of the input is one more error, which no fault of the text causes.
-/
namespace TwinScript

inductive LexError.Kind
  | unrecognized
  | unterminatedString
  | malformedFloat
  | endOfInput
  deriving DecidableEq, Repr

structure LexError where
  kind : LexError.Kind
  message : String
  line : Nat
  column : Nat
  offset : Nat
  length : Nat
  deriving DecidableEq, Repr

namespace Fault

def kind : Fault → LexError.Kind
  | unrecognized _ => .unrecognized
  | unterminatedString _ => .unterminatedString
  | malformedFloat _ _ => .malformedFloat

def message : Fault → String
  | unrecognized c => "unrecognized token '" ++ String.singleton c ++ "'"
  | unterminatedString _ => "unterminated string literal"
  | malformedFloat _ _ => "expected a digit after the decimal point"

end Fault

namespace LexError

def Kind.name : Kind → String
  | unrecognized => "UnrecognizedError"
  | unterminatedString => "UnterminatedStringError"
  | malformedFloat => "MalformedFloatError"
  | endOfInput => "EofError"

def Kind.debugName : Kind → String
  | unrecognized => "Unrecognized"
  | unterminatedString => "UnterminatedString"
  | malformedFloat => "MalformedFloat"
  | endOfInput => "EndOfInput"

def ofFault (fault : Fault) (start : Mark) : LexError :=
  let place := start.past fault.lead
  { kind := fault.kind
    message := fault.message
    line := place.line
    column := place.column
    offset := place.offset
    length := Text.byteSize fault.extent }

def pastEnd (finish : Mark) : LexError :=
  { kind := .endOfInput
    message := "read past end of input"
    line := finish.line
    column := finish.column
    offset := finish.offset
    length := 0 }

def display (e : LexError) : String :=
  e.kind.name ++ " at " ++ e.line.repr ++ ":" ++ e.column.repr ++ ": " ++ e.message

end LexError
end TwinScript
