import TwinScript.Keyword
import TwinScript.Text.Alphanumeric
import TwinScript.Text.Utf8

/-!
# Completion

What can be typed next on a line of the shell: a command when the line is the beginning of one, and
otherwise a reserved word that goes on from the word before the cursor.
-/
namespace TwinScript

structure Candidate where
  display : String
  replacement : String
  deriving DecidableEq, Repr

/-- Candidates for the text between the byte offset `start` and the cursor. -/
structure Completion where
  start : Nat
  candidates : List Candidate
  deriving DecidableEq, Repr

namespace Completion

/-- The commands of the shell; the one that takes an argument ends with a space. -/
def commands : List String := [".help", ".load ", ".exit"]

def isWordChar (alphanumeric : Char → Bool) (c : Char) : Bool :=
  alphanumeric c || c == '_' || c == '＿'

/-- The run of word characters at the end of a text, and the text before it. -/
def splitWord (alphanumeric : Char → Bool) (typed : List Char) : List Char × List Char :=
  ((typed.reverse.dropWhile (isWordChar alphanumeric)).reverse,
    (typed.reverse.takeWhile (isWordChar alphanumeric)).reverse)

theorem splitWord_append (alphanumeric : Char → Bool) (typed : List Char) :
    (splitWord alphanumeric typed).1 ++ (splitWord alphanumeric typed).2 = typed := by
  rw [splitWord, ← List.reverse_append, List.takeWhile_append_dropWhile, List.reverse_reverse]

def ofTexts (start : Nat) (texts : List String) : Completion :=
  ⟨start, texts.map fun text => ⟨text, text⟩⟩

def extensions (word : List Char) : List String :=
  if word.isEmpty then []
  else Keyword.spellings.filter fun s => word.isPrefixOf s.toList && s.toList != word

def ofTyped (alphanumeric : Char → Bool) (typed : List Char) : Completion :=
  if typed.head? == some '.' && !typed.contains ' ' then
    ofTexts 0 (commands.filter fun command => typed.isPrefixOf command.toList)
  else
    let (before, word) := splitWord alphanumeric typed
    ofTexts (Text.byteSize before) (extensions word)

/-- The completion at a byte offset of a line, or at its end when the offset lies past it; none
inside a character. -/
def at? (line : String) (offset : Nat) (alphanumeric : Char → Bool := Text.isAlphanumeric) :
    Option Completion :=
  (Text.cut? (min offset (Text.byteSize line.toList)) line.toList).map fun (typed, _) =>
    ofTyped alphanumeric typed

end Completion
end TwinScript
