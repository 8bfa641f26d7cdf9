import TwinScript.Gap
import TwinScript.Proofs.Grammar

/-!
# Reading a gap

`Gap.leading` takes exactly the gap of the grammar at the head of a text. It keeps one bit, whether
it is inside a comment, and the induction below carries both values of that bit.
-/
namespace TwinScript.Gap
open Script Text

theorem leading_true_of_stop (text : List Char) (h : ¬ StartsIn (· ≠ '\n') text) :
    leading true text = leading false text := by
  cases text with
  | nil => rfl
  | cons c cs =>
      have hc : c = '\n' := by simpa using h
      subst hc
      have hspace : isSpacing '\n' = true := by decide
      simp [leading, hspace]

theorem leading_true_append (body text : List Char) (hbody : '\n' ∉ body) :
    leading true (body ++ text) = body ++ leading true text := by
  induction body with
  | nil => rfl
  | cons c cs ih =>
      simp only [List.mem_cons, not_or] at hbody
      have hc : (c != '\n') = true := by
        rw [bne_iff_ne]
        exact fun h => hbody.1 h.symm
      simp only [List.cons_append, leading, if_true, hc, ih hbody.2]

theorem leading_eq_nil (text : List Char) (h : ¬ StartsIn Part text) : leading false text = [] := by
  cases text with
  | nil => rfl
  | cons c cs =>
      rw [startsIn_cons, Part, not_or] at h
      have hspace : ¬ isSpacing c = true := fun hc => h.1 ((isSpacing_iff c).1 hc)
      have hmark : ¬ isCommentMark c = true := fun hc => h.2 ((isCommentMark_iff c).1 hc)
      simp [leading, hspace, hmark]

theorem not_isSpacing_of_mem_commentMarks (c : Char) (h : c ∈ commentMarks) :
    ¬ isSpacing c = true := by
  exact of_listed h (by decide)

theorem leading_append (gap rest : List Char) (h : Stands gap rest) (hrest : ¬ StartsIn Part rest) :
    leading false (gap ++ rest) = gap := by
  induction h with
  | nil rest => exact leading_eq_nil rest hrest
  | space hc h ih =>
      have hspace := (isSpacing_iff _).2 hc
      simp [leading, hspace, ih hrest]
  | comment hmark hbody hend h ih =>
      have hspace := not_isSpacing_of_mem_commentMarks _ hmark
      have hcomment := (isCommentMark_iff _).2 hmark
      simp only [List.cons_append, List.append_assoc, leading, Bool.false_eq_true, if_false, hspace,
        hcomment, if_true]
      rw [leading_true_append _ _ hbody, leading_true_of_stop _ hend, ih hrest]

theorem Stands.append {gap more rest : List Char} (h : Stands gap (more ++ rest))
    (hmore : Stands more rest) : Stands (gap ++ more) rest := by
  generalize htext : more ++ rest = text at h
  induction h with
  | nil => exact hmore
  | space hc h ih => exact .space hc (ih htext)
  | comment hmark hbody hend h ih =>
      subst htext
      rw [List.cons_append, List.append_assoc]
      exact .comment hmark hbody (by rwa [List.append_assoc]) (ih rfl)

/-- The two halves of reading a gap: from outside a comment, and from inside one. -/
theorem exists_gap_aux (text : List Char) :
    (∃ gap rest, text = gap ++ rest ∧ Stands gap rest ∧ ¬ StartsIn Part rest) ∧
      ∃ body gap rest, text = body ++ (gap ++ rest) ∧ '\n' ∉ body ∧
        ¬ StartsIn (· ≠ '\n') (gap ++ rest) ∧ Stands gap rest ∧ ¬ StartsIn Part rest := by
  induction text with
  | nil =>
      have hstop : ¬ StartsIn Part [] := not_startsIn_nil Part
      exact ⟨⟨[], [], rfl, .nil [], hstop⟩, [], [], [], rfl, by simp, by simp, .nil [], hstop⟩
  | cons c cs ih =>
      obtain ⟨⟨gap, rest, hcs, hgap, hrest⟩, body, gap', rest', hcs', hbody, hend, hgap', hrest'⟩ :=
        ih
      -- a comment mark goes from the first half into the second, a newline back into the first
      constructor
      · by_cases hspace : c ∈ spaces
        · exact ⟨c :: gap, rest, by rw [hcs, List.cons_append], .space hspace hgap, hrest⟩
        · by_cases hmark : c ∈ commentMarks
          · refine ⟨c :: (body ++ gap'), rest', ?_, .comment hmark hbody hend hgap', hrest'⟩
            rw [hcs', List.cons_append, List.append_assoc]
          · refine ⟨[], c :: cs, rfl, .nil _, ?_⟩
            rw [startsIn_cons, Part, not_or]
            exact ⟨hspace, hmark⟩
      · by_cases hline : c = '\n'
        · subst hline
          have hspace : '\n' ∈ spaces := by decide
          exact ⟨[], '\n' :: gap, rest, by rw [hcs]; rfl, by simp, by simp, .space hspace hgap,
            hrest⟩
        · refine ⟨c :: body, gap', rest', by rw [hcs']; rfl, ?_, hend, hgap', hrest'⟩
          simp only [List.mem_cons, not_or]
          exact ⟨fun h => hline h.symm, hbody⟩

theorem exists_gap (text : List Char) :
    ∃ gap rest, text = gap ++ rest ∧ Stands gap rest ∧ ¬ StartsIn Part rest :=
  (exists_gap_aux text).1

theorem stands_unique (gap gap' rest rest' : List Char) (heq : gap ++ rest = gap' ++ rest')
    (h : Stands gap rest) (hrest : ¬ StartsIn Part rest) (h' : Stands gap' rest')
    (hrest' : ¬ StartsIn Part rest') : gap = gap' ∧ rest = rest' := by
  have hgap : gap = gap' := by
    rw [← leading_append gap rest h hrest, heq, leading_append gap' rest' h' hrest']
  subst hgap
  exact ⟨rfl, List.append_cancel_left heq⟩

end TwinScript.Gap
