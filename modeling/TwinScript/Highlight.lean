import TwinScript.Paint
import TwinScript.Reader

/-!
# Highlighting

A line is coloured by the kinds of its tokens. Gaps keep their text, and so does everything from
the first error on.
-/
namespace TwinScript.Highlight
open Token (Kind)

def paint (kind : Kind) (text : String) : String :=
  match kind with
  | .boolean | .nil => Colour.cyan.paint text
  | .moduleWord | .importWord | .letWord | .constWord | .funcWord | .ifWord | .whileWord =>
    Colour.blue.paintBold text
  | .int | .float => Colour.magenta.paint text
  | .string => Colour.green.paint text
  | .binOp | .equals | .bang => Colour.yellow.paint text
  | _ => text

/-- Paints tokens after what has been painted up to the byte offset `last`. Gives the painted text
and the offset it reaches; none when a span does not fit into the text. -/
def paintTokens? (text : List Char) (painted : String) (last : Nat) :
    List Token → Option (String × Nat)
  | [] => some (painted, last)
  | t :: ts => do
    let gap ← Text.slice? last t.span.start text
    let body ← Text.slice? t.span.start t.span.stop text
    paintTokens? text (painted ++ String.ofList gap ++ paint t.kind (String.ofList body))
      t.span.stop ts

/-- The tokens that cover text: those before the first error or the end. -/
def tokens (text : List Char) : List Token :=
  (Reader.ofText text).run.tokens.takeWhile (·.kind != .endOfInput)

/-- A line on which nothing was read stays as it is; otherwise what follows the last token is added
to the painted text. -/
def line? (line : String) : Option String := do
  let (painted, last) ← paintTokens? line.toList "" 0 (tokens line.toList)
  if last = 0 then return line
  let rest ← Text.slice? last (Text.byteSize line.toList) line.toList
  return painted ++ String.ofList rest

def prompt (text : String) : String :=
  if text = "> " then Colour.brightGreen.paintBold ">" ++ " " else text

/-- Every key pressed can change the kind of a token, so the line is painted anew each time. -/
def repaintsOnKey : Bool := true

end TwinScript.Highlight
