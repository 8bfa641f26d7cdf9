import Mathlib.Order.Bounds.Defs
import TwinScript.Proofs.Scanning

/-!
# What a cursor counts

A cursor may be asked anything, in any order and as often as one likes. It never leaves its source:
it stands between two parts of it (`Cursor.Within`), a place that one request keeps and therefore
every sequence of requests. There its four counters, which are kept up to date step by step, are
counts over the part before it, and each answer can be read off the source by index alone.
-/
namespace TwinScript
open Text

/-- The counters of a mark are those of the text before its index. -/
structure Mark.Counts (source : List Char) (m : Mark) : Prop where
  index_le_length : m.index ≤ source.length
  offset_eq : m.offset = (String.ofList (source.take m.index)).utf8ByteSize
  line_eq : m.line = 1 + (source.take m.index).count '\n'
  column_eq : m.column = 1 + (lastLine (source.take m.index)).length

def Text.StopsAt (p : Char → Bool) (source : List Char) (i : Nat) : Prop :=
  i = source.length ∨ ∃ ch, source[i]? = some ch ∧ p ch = false

theorem Mark.counts_after (before rest : List Char) : (after before).Counts (before ++ rest) := by
  have hbefore : (before ++ rest).take (after before).index = before := List.take_left
  refine ⟨?_, ?_, ?_, ?_⟩
  · rw [List.length_append]
    exact Nat.le_add_right _ _
  · rw [hbefore, ← byteSize_toList, String.toList_ofList, offset_after]
  · rw [hbefore]
    exact Nat.add_comm _ _
  · rw [hbefore]
    exact Nat.add_comm _ _

namespace Cursor

/-- What the requests to a cursor come to, by its index in the source. All but two of them leave the
cursor as it is. -/
inductive Serves (source : List Char) (c : Cursor) : Request → Answer → Cursor → Prop
  | peek : Serves source c .peek (.char source[c.mark.index]?) c
  | peekNext : Serves source c .peekNext (.char source[c.mark.index + 1]?) c
  | offset : Serves source c .offset (.count c.mark.offset) c
  | mark : Serves source c .mark .done c
  | passes {ch : Char} {c' : Cursor} (hnext : source[c.mark.index]? = some ch)
      (hindex : c'.mark.index = c.mark.index + 1) : Serves source c .advance (.char (some ch)) c'
  | atEnd (hend : c.mark.index = source.length) : Serves source c .advance (.char none) c
  | stops {p : Char → Bool} {c' : Cursor}
      (hleast : IsLeast {i | c.mark.index ≤ i ∧ StopsAt p source i} c'.mark.index) :
      Serves source c (.skipWhile p) .done c'
  | cut {index : Nat} (hle : index ≤ c.mark.index) :
      Serves source c (.textFrom index) (.text (some ((source.take c.mark.index).drop index))) c
  | ahead {index : Nat} (hlt : c.mark.index < index) :
      Serves source c (.textFrom index) (.text none) c

/-- The cursor stands between two parts of the source. -/
inductive Within (source : List Char) : Cursor → Prop
  | mk (before rest : List Char) (htext : before ++ rest = source) :
      Within source (between before rest)

variable {source : List Char} {c : Cursor}

theorem within_ofText (source : List Char) : Within source (ofText source) := .mk [] source rfl

theorem Within.text_eq (h : Within source c) : c.text = source := by
  obtain ⟨before, rest, rfl⟩ := h
  rw [text, between, List.reverse_reverse]

theorem Within.counts (h : Within source c) : c.mark.Counts source := by
  obtain ⟨before, rest, rfl⟩ := h
  exact Mark.counts_after before rest

theorem Within.advance (h : Within source c) : Within source c.advance := by
  obtain ⟨before, rest, rfl⟩ := h
  cases rest with
  | nil => exact .mk before [] rfl
  | cons ch rest =>
      rw [advance_between]
      exact .mk _ rest (by simp)

theorem Within.skip (h : Within source c) (n : Nat) : Within source (c.skip n) := by
  induction n generalizing c with
  | zero => exact h
  | succ n ih => exact ih h.advance

theorem Within.serve (h : Within source c) (request : Request) :
    Within source (c.serve request).2 := by
  cases request with
  | advance => exact h.advance
  | skipWhile p => exact h.skip _
  | peek | peekNext | offset | mark | textFrom => exact h

theorem Within.after (h : Within source c) (requests : List Request) :
    Within source (c.after requests) := by
  induction requests generalizing c with
  | nil => exact h
  | cons request requests ih => exact ih (h.serve request)

theorem Within.peek_eq (h : Within source c) : c.peek = source[c.mark.index]? := by
  obtain ⟨before, rest, rfl⟩ := h
  change rest.head? = (before ++ rest)[before.length]?
  rw [List.getElem?_append_right (Nat.le_refl _), Nat.sub_self, List.head?_eq_getElem?]

theorem Within.peekNext_eq (h : Within source c) : c.peekNext = source[c.mark.index + 1]? := by
  obtain ⟨before, rest, rfl⟩ := h
  change rest.tail.head? = (before ++ rest)[before.length + 1]?
  rw [List.getElem?_append_right (Nat.le_add_right _ _), Nat.add_sub_cancel_left,
    List.head?_eq_getElem?, List.getElem?_tail]

theorem Within.stopsAt_iff (h : Within source c) (p : Char → Bool) :
    StopsAt p source c.mark.index ↔ ¬ c.peek.any p = true := by
  have hle := h.counts.index_le_length
  rw [h.peek_eq, StopsAt]
  cases hnext : source[c.mark.index]? with
  | none =>
      have hge := List.getElem?_eq_none_iff.1 hnext
      have hend : c.mark.index = source.length := by omega
      simp [hend]
  | some ch =>
      obtain ⟨hlt, -⟩ := List.getElem?_eq_some_iff.1 hnext
      have hend : c.mark.index ≠ source.length := by omega
      simp [hend]

theorem Within.isLeast_index (h : Within source c) {p : Char → Bool}
    (hpeek : ¬ c.peek.any p = true) :
    IsLeast {i | c.mark.index ≤ i ∧ StopsAt p source i} c.mark.index :=
  ⟨⟨Nat.le_refl _, (h.stopsAt_iff p).2 hpeek⟩, fun _ hi => hi.1⟩

/-- The loop ends at the first stop, since each turn of it passes an index that is none. -/
theorem Within.isLeast_skipWhile (h : Within source c) (p : Char → Bool) :
    IsLeast {i | c.mark.index ≤ i ∧ StopsAt p source i} (c.skipWhile p).mark.index := by
  -- one turn of the loop takes one character off what is ahead
  induction hrest : c.rest generalizing c with
  | nil =>
      have hpeek : ¬ c.peek.any p = true := by simp [peek, hrest]
      rw [skipWhile_eq, if_neg hpeek]
      exact h.isLeast_index hpeek
  | cons ch rest ih =>
      rw [skipWhile_eq]
      by_cases hpeek : c.peek.any p = true
      · have hadvance : c.advance = ⟨ch :: c.passed, rest, c.mark.step ch⟩ := by
          simp only [Cursor.advance, hrest]
        have hindex : c.advance.mark.index = c.mark.index + 1 := by
          rw [hadvance]
          rfl
        obtain ⟨⟨hle, hstop⟩, hleast⟩ := ih h.advance (by rw [hadvance])
        rw [if_pos hpeek]
        refine ⟨⟨by omega, hstop⟩, ?_⟩
        rintro i ⟨hi, hstop'⟩
        have hne : i ≠ c.mark.index := by
          rintro rfl
          exact (h.stopsAt_iff p).1 hstop' hpeek
        exact hleast ⟨by omega, hstop'⟩
      · rw [if_neg hpeek]
        exact h.isLeast_index hpeek

theorem Within.cutFrom?_eq_textFrom? (h : Within source c) (index : Nat) :
    c.cutFrom? index = c.textFrom? index := by
  rw [cutFrom?, if_pos]
  rw [h.text_eq]
  exact h.counts.index_le_length

theorem Within.textFrom?_eq (h : Within source c) {index : Nat} (hle : index ≤ c.mark.index) :
    c.textFrom? index = some ((source.take c.mark.index).drop index) := by
  rw [← h.cutFrom?_eq_textFrom?]
  obtain ⟨before, rest, rfl⟩ := h
  have hbefore : (before ++ rest).take (between before rest).mark.index = before := List.take_left
  have hcut := cutFrom?_between (before.take index) (before.drop index) rest
  rw [List.take_append_drop, List.length_take_of_le hle] at hcut
  rw [hbefore, hcut]

theorem textFrom?_eq_none {index : Nat} (hlt : c.mark.index < index) : c.textFrom? index = none :=
  if_neg (Nat.not_le.2 hlt)

theorem Within.serves_advance (h : Within source c) :
    Serves source c .advance (.char c.peek) c.advance := by
  have hpeek := h.peek_eq
  obtain ⟨before, rest, rfl⟩ := h
  cases rest with
  | nil => exact .atEnd (by simp [Mark.after])
  | cons ch rest =>
      refine .passes hpeek.symm ?_
      rw [advance_between]
      exact List.length_append

/-- Wherever the cursor stands, a request comes to what the source says. -/
theorem Within.serves (h : Within source c) (request : Request) :
    Serves source c request (c.serve request).1 (c.serve request).2 := by
  cases request with
  | peek =>
      rw [Cursor.serve, h.peek_eq]
      exact .peek
  | peekNext =>
      rw [Cursor.serve, h.peekNext_eq]
      exact .peekNext
  | advance => exact h.serves_advance
  | offset => exact .offset
  | mark => exact .mark
  | skipWhile p => exact .stops (h.isLeast_skipWhile p)
  | textFrom index =>
      rw [Cursor.serve]
      rcases Nat.lt_or_ge c.mark.index index with hlt | hle
      · rw [textFrom?_eq_none hlt]
        exact .ahead hlt
      · rw [h.textFrom?_eq hle]
        exact .cut hle

theorem serveAll_append (c : Cursor) (as bs : List Request) :
    c.serveAll (as ++ bs) = c.serveAll as ++ (c.after as).serveAll bs := by
  induction as generalizing c with
  | nil => rfl
  | cons request as ih =>
      change (_, _) :: (c.serve request).2.serveAll (as ++ bs) = _
      rw [ih]
      rfl

end Cursor

/-- A cursor keeps count. After any requests to a new cursor on a source, its index is within the
source, so that no cut goes past the end, and its offset, line and column are the bytes, the
newlines and the characters after the last newline of the text before that index. Each further
request is answered, and the cursor left, as `Cursor.Serves` says; and a session shows that answer
with the mark of the cursor that is left. -/
theorem cursor_keeps_count (s : String) (requests : List Cursor.Request) :
    let source := s.toList
    let c := (Cursor.ofText source).after requests
    c.text = source ∧ c.mark.Counts source ∧
      (∀ index, c.cutFrom? index = c.textFrom? index) ∧
      ∀ request, Cursor.Serves source c request (c.serve request).1 (c.serve request).2 ∧
        (Cursor.ofText source).serveAll (requests ++ [request]) =
          (Cursor.ofText source).serveAll requests ++
            [((c.serve request).1, (c.serve request).2.mark)] := by
  intro source c
  have hwithin : Cursor.Within source c := (Cursor.within_ofText source).after requests
  refine ⟨hwithin.text_eq, hwithin.counts, hwithin.cutFrom?_eq_textFrom?, fun request => ⟨?_, ?_⟩⟩
  · exact hwithin.serves request
  · exact Cursor.serveAll_append _ requests [request]

/-- Over a wide character and a newline, and no further. -/
example : ((Cursor.ofText "あ\nb".toList).after [.skipWhile (· != '\n'), .advance, .peek]).mark =
    ⟨2, 4, 2, 1⟩ := by decide

end TwinScript
