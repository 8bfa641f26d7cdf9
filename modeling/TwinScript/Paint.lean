/-!
# Painted text

Colours are terminal escape sequences around a text: one that sets the colour and one that takes it
back. Bold goes outside of both.
-/
namespace TwinScript

inductive Colour
  | red | green | yellow | blue | magenta | cyan
  | brightBlack | brightRed | brightGreen | brightYellow | brightBlue | brightCyan
  deriving DecidableEq, Repr

namespace Colour

def code : Colour → Nat
  | red => 31
  | green => 32
  | yellow => 33
  | blue => 34
  | magenta => 35
  | cyan => 36
  | brightBlack => 90
  | brightRed => 91
  | brightGreen => 92
  | brightYellow => 93
  | brightBlue => 94
  | brightCyan => 96

end Colour

/-- The escape sequence that selects a graphic rendition. -/
def rendition (code : Nat) : String := "\x1b[" ++ code.repr ++ "m"

namespace Colour

def paint (colour : Colour) (text : String) : String :=
  rendition colour.code ++ text ++ rendition 39

def paintBold (colour : Colour) (text : String) : String :=
  rendition 1 ++ colour.paint text ++ rendition 0

end Colour
end TwinScript
