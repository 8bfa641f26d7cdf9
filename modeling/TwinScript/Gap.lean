import TwinScript.Script

/-!
# Gaps

A gap is what may stand between two lexemes: spacing and comments. A comment runs from its mark to
the end of its line; the newline after it is spacing again.
-/
namespace TwinScript.Gap
open Script

/-- The longest gap at the start of a text, where `comment` says whether the text starts inside a
comment. -/
def leading (comment : Bool) : List Char → List Char
  | [] => []
  | c :: cs =>
    if comment then c :: leading (c != '\n') cs
    else if isSpacing c then c :: leading false cs
    else if isCommentMark c then c :: leading true cs
    else []

end TwinScript.Gap
