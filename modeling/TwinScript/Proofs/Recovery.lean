import TwinScript.Proofs.Convergence
import TwinScript.Proofs.Newlines

/-!
# Reading on after an error

An error tells where it leaves the reader. A character that begins nothing is never passed, so that
the reader is stuck on it. The digits before a point are given up and the point is read next. A
literal that is not closed is given up with the newline that cuts it off, or up to the end of the
source. The cases are those of a faulty step, whatever steps have led to it.
-/
namespace TwinScript
open Script Text

namespace LexError

def IsAt (e : LexError) (m : Mark) : Prop :=
  m.offset = e.offset ∧ m.line = e.line ∧ m.column = e.column

def span (e : LexError) : Span := ⟨e.offset, e.offset + e.length⟩

theorem isAt_ofFault (fault : Fault) (front : List Char) :
    (ofFault fault (.after front)).IsAt (.after (front ++ fault.lead)) := by
  rw [← Mark.past_after]
  exact ⟨rfl, rfl, rfl⟩

end LexError

/-- What an unclosed literal gives up is all that is left of the source, or a part of it that ends
with its only newline. -/
theorem Fault.Stands.rest_eq_nil_or_newline {text rest : List Char}
    (h : Fault.Stands (.unterminatedString text) (text ++ rest)) :
    rest = [] ∨ ∃ line, text = line ++ ['\n'] ∧ '\n' ∉ line := by
  generalize hall : text ++ rest = all at h
  cases h with
  | @atNewline quote body value slash after hquote hbody hslash =>
      exact Or.inr ⟨quote :: (body ++ slash), rfl, hbody.newline_not_mem_open hquote hslash⟩
  | atEnd hquote hbody hslash => exact Or.inl (List.append_right_eq_self.1 hall)

theorem Mark.after_concat_newline (front line : List Char) (h : '\n' ∉ line) :
    (after (front ++ (line ++ ['\n']))).line = (after front).line + 1 ∧
      (after (front ++ (line ++ ['\n']))).column = 1 := by
  rw [← List.append_assoc]
  constructor
  · change (front ++ line ++ ['\n']).count '\n' + 1 = front.count '\n' + 1 + 1
    rw [List.count_append, List.count_append, List.count_eq_zero.2 h, List.count_singleton_self]
  · change (lastLine (front ++ line ++ ['\n'])).length + 1 = 1
    rw [length_lastLine_concat, if_pos rfl]

namespace Reader

/-- Every call fails with the error and leaves the reader as it is. -/
def StuckOn (r : Reader) (e : LexError) : Prop :=
  ∀ calls, r.results calls = List.replicate calls.length (.error e) ∧ r.after calls = r

theorem stuckOn_of_read {r : Reader} {e : LexError} (h : r.read = (.error e, r)) : r.StuckOn e := by
  intro calls
  induction calls with
  | nil => exact ⟨rfl, rfl⟩
  | cons call calls ih =>
      obtain ⟨hresults, hcall⟩ := call_of_stuck h call
      obtain ⟨hmore, hafter⟩ := ih
      rw [results_cons, hresults, hcall, hmore, after, hcall]
      exact ⟨rfl, hafter⟩

theorem read_point (before after : List Char) (finished : Bool) {point : Char} {e : LexError}
    (hpoint : point ∈ decimalPoints) (hplace : e.IsAt (.after before))
    (hlength : e.length = point.utf8Size) :
    (between before (point :: after) finished).read =
      (.ok ⟨.period, String.singleton point, e.line, e.column, e.span⟩,
        between (before ++ [point]) after finished) := by
  obtain ⟨hoffset, hline, hcolumn⟩ := hplace
  have hmem : (point, Token.Kind.period) ∈ punctuation := of_listed hpoint (by decide)
  have hstep := @Step.token before finished [] after (.plain .period [point]) (.nil _)
    (.punctuation hmem)
  have hsize : byteSize (before ++ [point]) = byteSize before + point.utf8Size := by simp
  rw [List.append_nil] at hstep
  rw [← hline, ← hcolumn, LexError.span, ← hoffset, hlength]
  change _ = (Except.ok (Token.mk _ _ _ _ ⟨byteSize before, byteSize before + _⟩), _)
  rw [← hsize]
  exact hstep.read_eq

section Steps

variable {before rest : List Char} {finished : Bool} {e : LexError} {r : Reader}

/-- A character that begins nothing is met again. -/
theorem Step.stuck_of_unrecognized (h : Step before finished rest (.error e) r)
    (he : e.kind = .unrecognized) : e.IsAt r.cursor.mark ∧ r.read = (.error e, r) := by
  cases h with
  | @fault gap rest fault hgap h =>
      cases fault with
      | unrecognized c =>
          have hagain := @Step.fault (before ++ gap) finished [] rest (.unrecognized c) (.nil _) h
          have hplace := LexError.isAt_ofFault (.unrecognized c) (before ++ gap)
          dsimp only [Fault.passed, Fault.lead] at hagain hplace ⊢
          simp only [List.append_nil] at hagain hplace ⊢
          exact ⟨hplace, hagain.read_eq⟩
      | unterminatedString text => cases he
      | malformedFloat whole point => cases he
  | pastEnd hgap hfinished => cases he

/-- A point that no digit follows is read alone. -/
theorem Step.point_of_malformedFloat (h : Step before finished rest (.error e) r)
    (he : e.kind = .malformedFloat) :
    e.IsAt r.cursor.mark ∧ ∃ point ∈ decimalPoints, r.cursor.peek = some point ∧
      ∃ r', r.read = (.ok ⟨.period, String.singleton point, e.line, e.column, e.span⟩, r') := by
  cases h with
  | @fault gap rest fault hgap h =>
      cases fault with
      | malformedFloat whole point =>
          obtain ⟨after, htext, -, -, hpoint⟩ := h.exists_point
          obtain rfl : rest = point :: after := List.append_cancel_left htext
          have hplace := LexError.isAt_ofFault (.malformedFloat whole point) (before ++ gap)
          exact ⟨hplace, point, hpoint, rfl, _, read_point _ after finished hpoint hplace rfl⟩
      | unrecognized c => cases he
      | unterminatedString text => cases he
  | pastEnd hgap hfinished => cases he

/-- A literal that is not closed is passed with the newline that cuts it off, or else to the end. -/
theorem Step.passed_of_unterminatedString (h : Step before finished rest (.error e) r)
    (hend : finished = true → rest = []) (he : e.kind = .unterminatedString) :
    r.cursor.mark.offset = e.offset + e.length ∧
      ((r.cursor.rest = [] ∧ ∃ t r', r.read = (.ok t, r') ∧ t.kind = .endOfInput) ∨
        (r.cursor.passed.head? = some '\n' ∧ r.cursor.mark.line = e.line + 1 ∧
          r.cursor.mark.column = 1)) := by
  cases h with
  | @fault gap rest fault hgap h =>
      cases fault with
      | unterminatedString text =>
          refine ⟨byteSize_append (before ++ gap) text, ?_⟩
          rcases h.rest_eq_nil_or_newline with rfl | ⟨line, rfl, hline⟩
          · -- the end has not been delivered, because the literal was still to be read
            have hnot : finished = false := by
              rw [Bool.eq_false_iff]
              intro hfinished
              obtain ⟨c, after, htext, -⟩ := Lexeme.first_of_fault _ _ h
              exact List.cons_ne_nil c after (htext ▸ (List.append_eq_nil_iff.1 (hend hfinished)).2)
            subst hnot
            exact Or.inl ⟨rfl, _, _, (Step.endOfInput (.nil []) rfl).read_eq, rfl⟩
          · have hplace := Mark.after_concat_newline (before ++ gap) line hline
            refine Or.inr ⟨?_, hplace⟩
            simp [between, Cursor.between, Fault.passed]
      | unrecognized c => cases he
      | malformedFloat whole point => cases he
  | pastEnd hgap hfinished => cases he

end Steps
end Reader

/-- Whatever calls have been made, the error of a failed read tells where the reader then stands.
It is stuck on a character that begins nothing, in front of a point that belongs to no number, and
behind a literal that is not closed, which ends with its line or with the source. -/
theorem stands_after_error (s : String) (calls : List Reader.Call) (e : LexError) (r : Reader)
    (h : ((Reader.ofText s.toList).after calls).read = (.error e, r)) :
    (e.kind = .unrecognized → e.IsAt r.cursor.mark ∧ r.StuckOn e) ∧
      (e.kind = .malformedFloat → e.IsAt r.cursor.mark ∧
        ∃ point ∈ decimalPoints, r.cursor.peek = some point ∧
          ∃ r', r.read = (.ok ⟨.period, String.singleton point, e.line, e.column, e.span⟩, r')) ∧
      (e.kind = .unterminatedString → r.cursor.mark.offset = e.offset + e.length ∧
        ((r.cursor.rest = [] ∧ ∃ t r', r.read = (.ok t, r') ∧ t.kind = .endOfInput) ∨
          (r.cursor.passed.head? = some '\n' ∧ r.cursor.mark.line = e.line + 1 ∧
            r.cursor.mark.column = 1))) := by
  have hwithin := Reader.within_after s.toList calls
  generalize (Reader.ofText s.toList).after calls = start at h hwithin
  obtain ⟨before, rest, finished, -, hend⟩ := hwithin
  have hstep := Reader.read_eq_iff_step.1 h
  refine ⟨?_, hstep.point_of_malformedFloat, hstep.passed_of_unterminatedString hend⟩
  intro he
  obtain ⟨hplace, hagain⟩ := hstep.stuck_of_unrecognized he
  exact ⟨hplace, Reader.stuckOn_of_read hagain⟩

/-- A point without digits after it, then a literal cut off by a newline, then half an operator. -/
theorem stands_after_error_sample :
    let reader (calls : List Reader.Call) := (Reader.ofText "１.'a\n|b".toList).after calls
    (∃ point ∈ decimalPoints, (reader []).read.2.cursor.peek = some point ∧
        ∃ r', (reader []).read.2.read =
          (.ok ⟨.period, String.singleton point, 1, 2, ⟨3, 4⟩⟩, r')) ∧
      (reader [.read, .read]).read.2.cursor.mark.offset = 4 + 3 ∧
      (reader [.read, .read, .read]).read.2.StuckOn
        ⟨.unrecognized, "unrecognized token '|'", 2, 1, 7, 1⟩ := by
  intro reader
  have hread : ∀ calls e, (reader calls).read.1 = .error e →
      (reader calls).read = (.error e, (reader calls).read.2) := fun _ _ h => Prod.ext h rfl
  have hpoint := stands_after_error "１.'a\n|b" []
    ⟨.malformedFloat, "expected a digit after the decimal point", 1, 2, 3, 1⟩ _
    (hread _ _ (by decide +kernel))
  have hcut := stands_after_error "１.'a\n|b" [.read, .read]
    ⟨.unterminatedString, "unterminated string literal", 1, 3, 4, 3⟩ _
    (hread _ _ (by decide +kernel))
  have hhalf := stands_after_error "１.'a\n|b" [.read, .read, .read]
    ⟨.unrecognized, "unrecognized token '|'", 2, 1, 7, 1⟩ _ (hread _ _ (by decide +kernel))
  exact ⟨(hpoint.2.1 rfl).2, (hcut.2.2 rfl).1, (hhalf.1 rfl).2⟩

end TwinScript
