import TwinScript.Files
import TwinScript.Listing
import TwinScript.Text.Blank

/-!
# The shell

The shell answers its input line by line until it is told to leave, the input ends, or a line is
not text. Lines do not depend on each other. It asks for each line through an editor, and when the
editor cannot be set up there is no session.
-/
namespace TwinScript.Shell

def version : String := "0.1.0"

inductive Command
  | nothing
  | leave
  | help
  | load (path : String)
  | scan (source : String)
  deriving DecidableEq, Repr

/-- A line is looked at without the blanks around it, but scanned with them. -/
def Command.ofLine (line : String) : Command :=
  let typed := Text.trim line.toList
  if typed.isEmpty then nothing
  else if typed == ".exit".toList || typed == "exit".toList then leave
  else if typed == ".help".toList then help
  else if ".load ".toList.isPrefixOf typed then
    load (String.ofList (Text.trim (typed.drop ".load ".length)))
  else scan line

/-- What hands the lines over: why it cannot be set up, if it cannot, and what it notes in the log
each time it is asked for a line. -/
structure Editor where
  fault : Option String := none
  notes : List Log.Record := []

def Editor.asked (editor : Editor) : Transcript := editor.notes.map .note

def welcome : Transcript :=
  [.out (Colour.brightCyan.paintBold "ゴミ箱へようこそ" ++ " " ++ Colour.brightBlack.paint version),
    .out (Colour.brightBlack.paint "Type .help for shell commands")]

def farewell : Transcript := [.out (Colour.brightBlack.paint "さようなら")]

def helpLines : List String :=
  [".help                show commands",
    ".load <file>         scan a source file",
    ".exit                leave the shell"]

def respond (store : FileStore) : Command → Transcript
  | .nothing => []
  | .leave => []
  | .help => helpLines.map fun line => .out (Colour.brightBlue.paint line)
  | .load path =>
    match store.text path with
    | .ok source => (Listing.ofSource .plain source).withNotice path
    | .error fault => [.err (Colour.red.paintBold "load error:" ++ " " ++ fault.message)]
  | .scan source => (Listing.ofSource .plain source).withNotice "<repl>"

/-- Splits bytes into lines, where `line` holds what precedes them on their line, latest byte
first. A carriage return before the newline goes with it. A backspace is a byte like any other,
while the editor lets it edit its line. -/
def linesAfter (line : List UInt8) : List UInt8 → List (List UInt8)
  | [] => if line.isEmpty then [] else [line.reverse]
  | byte :: bytes =>
    if byte = 10 then
      (if line.head? = some 13 then line.tail else line).reverse :: linesAfter [] bytes
    else linesAfter (byte :: line) bytes

def lines (input : List UInt8) : List (List UInt8) := linesAfter [] input

def trouble (reason : String) : Entry :=
  .err (Colour.red.paintBold "shell error:" ++ " " ++ reason)

/-- What is written in answer to one line, and whether the session goes on after it. -/
def turn (store : FileStore) (bytes : List UInt8) : Transcript × Bool :=
  match Text.ofBytes? bytes with
  | none => ([trouble FileFault.notUtf8.message], false)
  | some line =>
    match Command.ofLine line with
    | .leave => ([], false)
    | command => (respond store command, true)

/-- The answers to lines in turn. The editor is asked for one more line at the end of the input. -/
def answers (editor : Editor) (store : FileStore) : List (List UInt8) → Transcript
  | [] => editor.asked
  | bytes :: more =>
    let (transcript, goesOn) := turn store bytes
    if goesOn then editor.asked ++ transcript ++ answers editor store more
    else editor.asked ++ transcript

/-- A whole session on the given input. -/
def session (editor : Editor) (store : FileStore) (input : List UInt8) :
    Except Failure Transcript :=
  match editor.fault with
  | some reason => .error (.shell ("failed to initialize shell: " ++ reason))
  | none => .ok (welcome ++ answers editor store (lines input) ++ farewell)

end TwinScript.Shell
