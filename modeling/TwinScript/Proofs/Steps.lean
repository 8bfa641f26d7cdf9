import TwinScript.Proofs.Lexemes
import TwinScript.Proofs.Positions

/-!
# The steps of a reader

One call of `Reader.read` passes a gap and then meets a lexeme, a fault or the end of the text.
`Reader.Step` lists these four outcomes, with the reader that each leaves, in terms of the grammar;
`read_eq_iff_step` says that reading is exactly this relation.
-/
namespace TwinScript
open Text

theorem Cursor.skipGap_between (before gap rest : List Char) (hgap : Gap.Stands gap rest)
    (hrest : ¬ StartsIn Gap.Part rest) :
    (between before (gap ++ rest)).skipGap = between (before ++ gap) rest := by
  have hlead : Gap.leading false (between before (gap ++ rest)).rest = gap :=
    Gap.leading_append gap rest hgap hrest
  rw [skipGap, hlead, skip_between]

namespace Reader

def between (before rest : List Char) (finished : Bool) : Reader :=
  ⟨.between before rest, finished⟩

/-- One call of a reader that stands between `before` and a given text. -/
inductive Step (before : List Char) (finished : Bool) :
    List Char → Except LexError Token → Reader → Prop
  | token {gap rest : List Char} {lexeme : Lexeme} (hgap : Gap.Stands gap (lexeme.text ++ rest))
      (h : lexeme.Stands rest) :
      Step before finished (gap ++ (lexeme.text ++ rest))
        (.ok (lexeme.token (.after (before ++ gap)) (.after (before ++ gap ++ lexeme.text))))
        (between (before ++ gap ++ lexeme.text) rest finished)
  | fault {gap rest : List Char} {fault : Fault} (hgap : Gap.Stands gap (fault.passed ++ rest))
      (h : fault.Stands (fault.passed ++ rest)) :
      Step before finished (gap ++ (fault.passed ++ rest))
        (.error (.ofFault fault (.after (before ++ gap))))
        (between (before ++ gap ++ fault.passed) rest finished)
  | endOfInput {gap : List Char} (hgap : Gap.Stands gap []) (hfinished : finished = false) :
      Step before finished gap (.ok (.endOfInput (.after (before ++ gap))))
        (between (before ++ gap) [] true)
  | pastEnd {gap : List Char} (hgap : Gap.Stands gap []) (hfinished : finished = true) :
      Step before finished gap (.error (.pastEnd (.after (before ++ gap))))
        (between (before ++ gap) [] true)

variable {before rest : List Char} {finished : Bool} {result : Except LexError Token} {r : Reader}

theorem Step.read_eq (h : Step before finished rest result r) :
    (between before rest finished).read = (result, r) := by
  cases h with
  | @token gap rest lexeme hgap h =>
      have hskip := Cursor.skipGap_between before gap _ hgap h.not_startsIn_part
      obtain ⟨c, after, heq, hfirst⟩ := Lexeme.first_of_stands lexeme rest h
      have hfinish := Cursor.skip_between (before ++ gap) lexeme.text rest
      rw [heq] at hskip hfinish ⊢
      simp only [read, between, hskip, Cursor.rest_between, hfirst, hfinish, Cursor.mark_between]
  | @fault gap rest fault hgap h =>
      have hskip := Cursor.skipGap_between before gap _ hgap h.not_startsIn_part
      obtain ⟨c, after, heq, hfirst⟩ := Lexeme.first_of_fault fault _ h
      have hfinish := Cursor.skip_between (before ++ gap) fault.passed rest
      rw [heq] at hskip hfinish ⊢
      simp only [read, between, hskip, Cursor.rest_between, hfirst, hfinish, Cursor.mark_between]
  | endOfInput hgap hfinished =>
      have hskip := Cursor.skipGap_between before rest [] hgap (not_startsIn_nil _)
      rw [List.append_nil] at hskip
      simp [read, between, hskip, hfinished]
  | pastEnd hgap hfinished =>
      have hskip := Cursor.skipGap_between before rest [] hgap (not_startsIn_nil _)
      rw [List.append_nil] at hskip
      simp [read, between, hskip, hfinished]

theorem Step.gap_append {gap : List Char} (h : Step (before ++ gap) finished rest result r)
    (hgap : Gap.Stands gap rest) : Step before finished (gap ++ rest) result r := by
  cases h with
  | @token gap' _ _ hmore hlexeme =>
      rw [← List.append_assoc, List.append_assoc before gap gap']
      exact .token (hgap.append hmore) hlexeme
  | @fault gap' _ _ hmore hfault =>
      rw [← List.append_assoc, List.append_assoc before gap gap']
      exact .fault (hgap.append hmore) hfault
  | endOfInput hmore hfinished =>
      rw [← List.append_nil rest] at hgap
      rw [List.append_assoc before]
      exact .endOfInput (hgap.append hmore) hfinished
  | pastEnd hmore hfinished =>
      rw [← List.append_nil rest] at hgap
      rw [List.append_assoc before]
      exact .pastEnd (hgap.append hmore) hfinished

theorem exists_step (before rest : List Char) (finished : Bool) :
    ∃ result r, Step before finished rest result r := by
  obtain ⟨gap, tail, rfl, hgap, htail⟩ := Gap.exists_gap rest
  cases tail with
  | nil =>
      rw [List.append_nil]
      cases finished with
      | false => exact ⟨_, _, .endOfInput hgap rfl⟩
      | true => exact ⟨_, _, .pastEnd hgap rfl⟩
  | cons c after =>
      rw [startsIn_cons] at htail
      rcases Lexeme.decided_cons c after htail with ⟨lexeme, rest, heq, h⟩ | ⟨fault, h⟩
      · rw [heq] at hgap ⊢
        exact ⟨_, _, .token hgap h⟩
      · obtain ⟨rest, heq⟩ := h.exists_append
        rw [heq] at hgap h ⊢
        exact ⟨_, _, .fault hgap h⟩

/-- Reading is the relation `Step`. -/
theorem read_eq_iff_step :
    (between before rest finished).read = (result, r) ↔ Step before finished rest result r := by
  constructor
  · intro h
    obtain ⟨result', r', hstep⟩ := exists_step before rest finished
    have heq := hstep.read_eq
    rw [h] at heq
    obtain ⟨rfl, rfl⟩ := Prod.mk.inj heq
    exact hstep
  · exact Step.read_eq

end Reader
end TwinScript
