import Mathlib.Data.List.TakeWhile
import TwinScript.Proofs.Steps

/-!
# Reading behind a further text

A reader does not look back: with a further text in front of what it has passed, it does the same,
and only the places in its replies change. `beyond` makes that change for marks, tokens, errors and
readers. A column moves only on the first line, where the further text is part of the line.
-/
namespace TwinScript
open Text

theorem Text.lastLine_append (front text : List Char) :
    lastLine (front ++ text) = if '\n' ∈ text then lastLine text else lastLine front ++ text := by
  unfold lastLine
  rw [List.reverse_append, List.takeWhile_append]
  by_cases h : '\n' ∈ text
  · have hlength : ¬ (text.reverse.takeWhile (· != '\n')).length = text.reverse.length := by
      intro hlength
      have hall := List.takeWhile_eq_self_iff.1
        ((List.takeWhile_sublist (· != '\n')).eq_of_length hlength)
      exact absurd (hall '\n' (List.mem_reverse.2 h)) (by decide)
    rw [if_neg hlength, if_pos h]
  · have hall : ∀ c ∈ text.reverse, (c != '\n') = true := by
      intro c hc
      rw [bne_iff_ne]
      rintro rfl
      exact h (List.mem_reverse.1 hc)
    rw [List.takeWhile_eq_self_iff.2 hall, if_pos rfl, if_neg h, List.reverse_append,
      List.reverse_reverse]

namespace Mark

def beyond (front : List Char) (m : Mark) : Mark :=
  { index := m.index + front.length
    offset := m.offset + byteSize front
    line := m.line + front.count '\n'
    column := if m.line = 1 then m.column + (lastLine front).length else m.column }

theorem after_append (front text : List Char) :
    after (front ++ text) = (after text).beyond front := by
  have hcolumn : (lastLine (front ++ text)).length + 1 =
      if text.count '\n' + 1 = 1 then (lastLine text).length + 1 + (lastLine front).length
      else (lastLine text).length + 1 := by
    rw [lastLine_append]
    by_cases h : '\n' ∈ text
    · have hcount := List.count_pos_iff.2 h
      rw [if_pos h, if_neg (by omega)]
    · have hself : lastLine text = text := by
        have happend := lastLine_append [] text
        rwa [List.nil_append, if_neg h] at happend
      rw [if_neg h, if_pos (by rw [List.count_eq_zero.2 h]), hself, List.length_append]
      omega
  simp only [after, beyond, List.length_append, byteSize_append, List.count_append, hcolumn,
    mk.injEq]
  refine ⟨Nat.add_comm _ _, Nat.add_comm _ _, by omega, rfl⟩

end Mark

def Token.beyond (front : List Char) (t : Token) : Token :=
  { t with
    line := t.line + front.count '\n'
    column := if t.line = 1 then t.column + (lastLine front).length else t.column
    span := ⟨t.span.start + byteSize front, t.span.stop + byteSize front⟩ }

def LexError.beyond (front : List Char) (e : LexError) : LexError :=
  { e with
    line := e.line + front.count '\n'
    column := if e.line = 1 then e.column + (lastLine front).length else e.column
    offset := e.offset + byteSize front }

theorem LexError.ofFault_append (fault : Fault) (front text : List Char) :
    ofFault fault (.after (front ++ text)) = (ofFault fault (.after text)).beyond front := by
  have hplace : (Mark.after (front ++ text)).past fault.lead =
      ((Mark.after text).past fault.lead).beyond front := by
    rw [Mark.past_after, Mark.past_after, List.append_assoc, Mark.after_append]
  unfold ofFault
  rw [hplace]
  rfl

namespace Reader

def beyond (front : List Char) (r : Reader) : Reader :=
  ⟨⟨r.cursor.passed ++ front.reverse, r.cursor.rest, r.cursor.mark.beyond front⟩, r.finished⟩

theorem between_append (front before rest : List Char) (finished : Bool) :
    between (front ++ before) rest finished = (between before rest finished).beyond front := by
  rw [between, Cursor.between, List.reverse_append, Mark.after_append]
  rfl

def replyBeyond (front : List Char) : Except LexError Token → Except LexError Token
  | .ok t => .ok (t.beyond front)
  | .error e => .error (e.beyond front)

def Run.beyond (front : List Char) (run : Run) : Run :=
  { tokens := run.tokens.map (Token.beyond front)
    error := run.error.map (LexError.beyond front)
    reader := run.reader.beyond front }

variable {before rest : List Char} {finished : Bool} {result : Except LexError Token} {r : Reader}

theorem Step.beyond (front : List Char) (h : Step before finished rest result r) :
    Step (front ++ before) finished rest (replyBeyond front result) (r.beyond front) := by
  cases h with
  | @token gap rest lexeme hgap h =>
      have hstep := @Step.token (front ++ before) finished _ _ _ hgap h
      simp only [List.append_assoc front, Mark.after_append front, between_append front] at hstep
      exact hstep
  | @fault gap rest fault hgap h =>
      have hstep := @Step.fault (front ++ before) finished _ _ _ hgap h
      simp only [List.append_assoc front, LexError.ofFault_append _ front,
        between_append front] at hstep
      exact hstep
  | endOfInput hgap hfinished =>
      have hstep := @Step.endOfInput (front ++ before) finished _ hgap hfinished
      simp only [List.append_assoc front, Mark.after_append front, between_append front] at hstep
      exact hstep
  | pastEnd hgap hfinished =>
      have hstep := @Step.pastEnd (front ++ before) finished _ hgap hfinished
      simp only [List.append_assoc front, Mark.after_append front, between_append front] at hstep
      exact hstep

/-- A run behind a further text is the run without it, displaced. -/
theorem run_beyond (front before rest : List Char) (finished : Bool) :
    ((between before rest finished).beyond front).run =
      (between before rest finished).run.beyond front := by
  obtain ⟨result, r, hstep⟩ := exists_step before rest finished
  have hread := hstep.read_eq
  have hread' := (hstep.beyond front).read_eq
  rw [between_append] at hread'
  cases hstep with
  | @token gap rest lexeme hgap h =>
      have hpos := List.length_pos_iff.2 h.text_ne_nil
      have hlength : rest.length < (gap ++ (lexeme.text ++ rest)).length := by
        rw [List.length_append, List.length_append]
        omega
      have hkind := h.kind_ne.1
      rw [run_of_token hread hkind, run_of_token hread' hkind, run_beyond]
      rfl
  | fault hgap h => rw [run_of_error hread, run_of_error hread']; rfl
  | endOfInput hgap hfinished =>
      rw [run_of_endOfInput hread rfl, run_of_endOfInput hread' rfl]
      rfl
  | pastEnd hgap hfinished => rw [run_of_error hread, run_of_error hread']; rfl
termination_by rest.length

end Reader
end TwinScript
