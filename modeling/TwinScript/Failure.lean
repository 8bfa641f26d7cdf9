import TwinScript.Paint
import TwinScript.Reader

/-!
# Failures and their reports

Whatever goes wrong is reported in one form: a display line, an optional hint and code, and labels
on the text at fault.
-/
namespace TwinScript

structure Label where
  text : Option String
  offset : Nat
  length : Nat
  deriving DecidableEq, Repr

structure Report where
  display : String
  help : Option String
  code : Option String
  labels : List Label
  deriving DecidableEq, Repr

/-- What can go wrong: the source has a lexical error, or the shell cannot go on. -/
inductive Failure
  | lex (e : LexError)
  | shell (message : String)
  deriving DecidableEq, Repr

namespace LexError

def report (e : LexError) : Report :=
  { display := e.display
    help := some "check the characters around this location"
    code := none
    labels := [⟨some "here", e.offset, e.length⟩] }

/-- The coloured line written for an error in the source of the given origin. -/
def notice (origin : String) (e : LexError) : String :=
  Colour.red.paintBold "lex" ++ " " ++ Colour.yellow.paint e.kind.name ++ " at "
    ++ Colour.cyan.paint origin ++ ":" ++ e.line.repr ++ ":" ++ e.column.repr ++ ": "
    ++ Colour.brightRed.paint e.message

end LexError

namespace Failure

def report : Failure → Report
  | lex e => e.report
  | shell message => ⟨"shell error: " ++ message, none, none, []⟩

def quotedChar (c : Char) : List Char :=
  if c == '"' || c == '\\' then ['\\', c]
  else if c == '\t' then ['\\', 't']
  else if c == '\n' then ['\\', 'n']
  else if c == '\r' then ['\\', 'r']
  else if c.toNat = 0 then ['\\', '0']
  else if c.toNat < 0x20 || (0x7F ≤ c.toNat && c.toNat ≤ 0x9F) then
    "\\u\x7b".toList ++ Nat.toDigits 16 c.toNat ++ ['\x7d']
  else [c]

def quoted (text : String) : String :=
  String.ofList ('"' :: text.toList.flatMap quotedChar ++ ['"'])

/-- The debugging text of a failure, which names all its parts. -/
def debugText : Failure → String
  | lex e =>
    "Lex(LexError \x7b kind: " ++ e.kind.debugName ++ ", message: " ++ quoted e.message
      ++ ", line: " ++ e.line.repr ++ ", column: " ++ e.column.repr
      ++ ", span: SourceSpan \x7b offset: SourceOffset(" ++ e.offset.repr ++ "), length: "
      ++ e.length.repr ++ " \x7d \x7d)"
  | shell message => "Shell \x7b message: " ++ quoted message ++ " \x7d"

end Failure

def tokenize (source : String) : Except Failure (List Token) := (lex source).mapError .lex

end TwinScript
