import TwinScript.Text.Utf8

/-!
# Cursors

A cursor stands between two characters of a text. Its mark counts what lies behind it in four ways,
and the counters are kept up to date one character at a time. The lemmas on `Mark.past` give offset,
line and column of a mark that has moved over a text in terms of that text.
-/
namespace TwinScript

/-- Where a cursor stands: characters and bytes before it, and its line and column counted from
one. -/
structure Mark where
  index : Nat
  offset : Nat
  line : Nat
  column : Nat
  deriving DecidableEq, Repr

namespace Mark

def origin : Mark := ⟨0, 0, 1, 1⟩

def step (m : Mark) (c : Char) : Mark :=
  { index := m.index + 1
    offset := m.offset + c.utf8Size
    line := if c = '\n' then m.line + 1 else m.line
    column := if c = '\n' then 1 else m.column + 1 }

def past (m : Mark) (text : List Char) : Mark := text.foldl step m

@[simp] theorem past_nil (m : Mark) : m.past [] = m := rfl

@[simp] theorem past_cons (m : Mark) (c : Char) (cs : List Char) :
    m.past (c :: cs) = (m.step c).past cs := rfl

theorem past_append (m : Mark) (as bs : List Char) : m.past (as ++ bs) = (m.past as).past bs :=
  List.foldl_append

theorem offset_past (m : Mark) (text : List Char) :
    (m.past text).offset = m.offset + Text.byteSize text := by
  induction text generalizing m with
  | nil => rfl
  | cons c cs ih =>
    rw [past_cons, ih]
    simp only [step, Text.byteSize_cons]
    omega

theorem line_past (m : Mark) (text : List Char) :
    (m.past text).line = m.line + text.count '\n' := by
  induction text generalizing m with
  | nil => rfl
  | cons c cs ih =>
    rw [past_cons, ih]
    by_cases h : c = '\n'
    · subst h
      simp only [step, if_true, List.count_cons_self]
      omega
    · simp [step, h]

theorem column_past_of_not_mem (m : Mark) {text : List Char} (h : '\n' ∉ text) :
    (m.past text).column = m.column + text.length := by
  induction text generalizing m with
  | nil => rfl
  | cons c cs ih =>
    simp only [List.mem_cons, not_or] at h
    have hc : c ≠ '\n' := fun hc => h.1 hc.symm
    rw [past_cons, ih _ h.2]
    simp only [step, if_neg hc, List.length_cons]
    omega

end Mark

/-- A text with a place in it: what has been passed, the latest character first, and what is still
ahead. -/
structure Cursor where
  passed : List Char
  rest : List Char
  mark : Mark
  deriving DecidableEq, Repr

namespace Cursor

def ofText (text : List Char) : Cursor := ⟨[], text, .origin⟩

def text (c : Cursor) : List Char := c.passed.reverse ++ c.rest

def peek (c : Cursor) : Option Char := c.rest.head?

def peekNext (c : Cursor) : Option Char := c.rest.tail.head?

def advance (c : Cursor) : Cursor :=
  match c.rest with
  | [] => c
  | ch :: rest => ⟨ch :: c.passed, rest, c.mark.step ch⟩

def skip : Nat → Cursor → Cursor
  | 0, c => c
  | n + 1, c => skip n c.advance

def skipWhile (p : Char → Bool) (c : Cursor) : Cursor := c.skip (c.rest.takeWhile p).length

/-- The text from the character with the given index up to the cursor; none when the index lies
ahead. -/
def textFrom? (c : Cursor) (index : Nat) : Option (List Char) :=
  if index ≤ c.mark.index then some (c.passed.take (c.mark.index - index)).reverse else none

theorem skip_append (passed as bs : List Char) (m : Mark) :
    skip as.length ⟨passed, as ++ bs, m⟩ = ⟨as.reverse ++ passed, bs, m.past as⟩ := by
  induction as generalizing passed m with
  | nil => rfl
  | cons a as ih => simp [skip, advance, ih]

theorem rest_skip (n : Nat) (c : Cursor) : (c.skip n).rest = c.rest.drop n := by
  induction n generalizing c with
  | zero => rfl
  | succ n ih =>
    obtain ⟨passed, rest, m⟩ := c
    rw [skip, ih]
    cases rest <;> simp [advance]

/-- Passing a run of characters is a loop: one more is passed as long as the next is in the
class. -/
theorem skipWhile_eq (p : Char → Bool) (c : Cursor) :
    c.skipWhile p = if c.peek.any p then c.advance.skipWhile p else c := by
  obtain ⟨passed, rest, m⟩ := c
  cases rest with
  | nil => rfl
  | cons ch rest => by_cases hp : p ch = true <;> simp [skipWhile, peek, advance, skip, hp]

/-- What a cursor can be asked to do. -/
inductive Request
  | peek
  | peekNext
  | advance
  | offset
  | mark
  | skipWhile (p : Char → Bool)
  | textFrom (index : Nat)

inductive Answer
  | char (c : Option Char)
  | count (n : Nat)
  | done
  | text (cs : Option (List Char))

/-- The answer to one request, and the cursor after it. An advance answers the character passed.
The mark needs no answer of its own, since every answer comes with the mark. -/
def serve (c : Cursor) : Request → Answer × Cursor
  | .peek => (.char c.peek, c)
  | .peekNext => (.char c.peekNext, c)
  | .advance => (.char c.peek, c.advance)
  | .offset => (.count c.mark.offset, c)
  | .mark => (.done, c)
  | .skipWhile p => (.done, c.skipWhile p)
  | .textFrom index => (.text (c.textFrom? index), c)

def serveAll (c : Cursor) : List Request → List (Answer × Mark)
  | [] => []
  | request :: requests =>
    let (answer, after) := c.serve request
    (answer, after.mark) :: serveAll after requests

def after (c : Cursor) : List Request → Cursor
  | [] => c
  | request :: requests => (c.serve request).2.after requests

end Cursor
end TwinScript
