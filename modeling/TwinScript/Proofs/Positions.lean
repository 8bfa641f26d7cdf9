import Mathlib.Data.List.Induction
import TwinScript.Reader

/-!
# Positions in a text

The mark of a cursor is kept up to date one character at a time. `Mark.after` says what it counts,
in terms of the text before the cursor alone, and `Cursor.between` is the cursor that stands between
two texts. Every cursor that arises from reading is one of these.
-/
namespace TwinScript
open Text

def Text.lastLine (text : List Char) : List Char := (text.reverse.takeWhile (· != '\n')).reverse

/-- The place after a text. -/
def Mark.after (before : List Char) : Mark :=
  { index := before.length
    offset := byteSize before
    line := before.count '\n' + 1
    column := (lastLine before).length + 1 }

def Cursor.between (before rest : List Char) : Cursor := ⟨before.reverse, rest, .after before⟩

namespace Text

theorem length_lastLine_concat (text : List Char) (c : Char) :
    (lastLine (text ++ [c])).length = if c = '\n' then 0 else (lastLine text).length + 1 := by
  by_cases hc : c = '\n'
  · simp [lastLine, hc]
  · simp [lastLine, hc]

theorem byteSize_toList (s : String) : byteSize s.toList = s.utf8ByteSize := by
  have hlist : ∀ cs : List Char, byteSize cs = (String.ofList cs).utf8ByteSize := by
    intro cs
    induction cs with
    | nil => rfl
    | cons c cs ih =>
        rw [byteSize_cons, ih, ← List.singleton_append, String.ofList_append,
          String.utf8ByteSize_append]
        simp
  rw [hlist, String.ofList_toList]

end Text

namespace Mark

@[simp] theorem offset_after (before : List Char) : (after before).offset = byteSize before := rfl

theorem past_after (before more : List Char) :
    (after before).past more = after (before ++ more) := by
  induction more using List.reverseRecOn with
  | nil => simp
  | append_singleton more c ih =>
      have hsize : byteSize [c] = c.utf8Size := by simp
      rw [past_append, ih, past_cons, past_nil, ← List.append_assoc]
      simp only [step, after, List.length_append, List.length_singleton, byteSize_append, hsize,
        List.count_append, length_lastLine_concat, mk.injEq, true_and]
      by_cases hc : c = '\n'
      · simp [hc]
      · simp [hc]

end Mark

namespace Cursor

@[simp] theorem rest_between (before rest : List Char) : (between before rest).rest = rest := rfl

@[simp] theorem mark_between (before rest : List Char) :
    (between before rest).mark = .after before := rfl

theorem skip_between (before as rest : List Char) :
    (between before (as ++ rest)).skip as.length = between (before ++ as) rest := by
  rw [between, skip_append, Mark.past_after, between, List.reverse_append]

end Cursor
end TwinScript
