import TwinScript.Proofs.Layout

/-!
# What follows a lexeme

A lexeme sees at most the first character of the text after it, and of that character only whether
it could go on with the lexeme. No character of a gap can go on with any lexeme, and all characters
that begin a word go on with the same ones. A gap sees even less, namely whether a newline follows.
So lexemes, gaps and pieces stand in front of every text that offers them nothing new.
-/
namespace TwinScript
open Script Text

/-- Two characters that go on with the same lexemes: equal ones, and any two that begin a word. -/
def Script.Alike (c d : Char) : Prop := c = d ∨ isWordStart c = true ∧ isWordStart d = true

def Script.closers : List Char :=
  punctuation.map Prod.fst ++ arithmetic ++ equalsSigns ++ comparisons.map Prod.fst ++ doubled ++
    quotes

/-- Where the second text stands after a lexeme, the first can stand as well: it is empty, begins
with a gap, or begins as the second does. -/
def Text.Follows (text text' : List Char) : Prop :=
  ∀ c, text.head? = some c → Gap.Part c ∨ StartsIn (Alike c) text'

namespace Text

theorem follows_of_head? {text text' : List Char} (h : text.head? = text'.head?) :
    Follows text text' := by
  intro c hc
  exact Or.inr ⟨c, h ▸ hc, Or.inl rfl⟩

theorem follows_append (text more : List Char) : Follows text (text ++ more) := by
  cases text with
  | nil => exact nofun
  | cons c cs => exact follows_of_head? rfl

theorem Follows.append {text text' : List Char} (h : Follows text text') (front : List Char) :
    Follows (front ++ text) (front ++ text') := by
  cases front with
  | nil => exact h
  | cons c cs => exact follows_of_head? rfl

theorem Follows.not_startsIn {P : Char → Prop} {text text' : List Char} (h : Follows text text')
    (hpart : ∀ c, Gap.Part c → ¬ P c) (halike : ∀ c d, Alike c d → P c → P d)
    (hstop : ¬ StartsIn P text') : ¬ StartsIn P text := by
  rintro ⟨c, hc, hPc⟩
  rcases h c hc with hgap | ⟨d, hd, hcd⟩
  · exact hpart c hgap hPc
  · exact hstop ⟨d, hd, halike c d hcd hPc⟩

theorem startsIn_append {P : Char → Prop} {text : List Char} (h : text ≠ []) (rest : List Char) :
    StartsIn P (text ++ rest) ↔ StartsIn P text := by
  obtain ⟨c, cs, rfl⟩ := List.exists_cons_of_ne_nil h
  rw [List.cons_append, startsIn_cons, startsIn_cons]

end Text

theorem Gap.Stands.of_startsIn {gap rest rest' : List Char} (h : Stands gap rest)
    (hline : StartsIn (· ≠ '\n') rest' → StartsIn (· ≠ '\n') rest) : Stands gap rest' := by
  induction h with
  | nil rest => exact .nil rest'
  | space hc h ih => exact .space hc (ih hline)
  | @comment mark body gap rest hmark hbody hend h ih =>
      refine .comment hmark hbody ?_ (ih hline)
      by_cases hgap : gap = []
      · subst hgap
        exact mt hline hend
      · rwa [startsIn_append hgap] at hend ⊢

namespace Lexeme

theorem Stands.of_follows {lexeme : Lexeme} {rest rest' : List Char} (h : lexeme.Stands rest)
    (hfollows : Follows rest' rest) : lexeme.Stands rest' := by
  have hpart : ∀ c, Gap.Part c →
      c ∉ equalsSigns ∧ c ∉ digits ∧ c ∉ decimalPoints ∧ ¬ WordPart c := by
    intro c hc
    exact of_listed (List.mem_append.2 hc) (by decide)
  -- of a class without letters only equal characters are alike
  have hlisted : ∀ {as : List Char}, as.all (fun c => ¬ isWordStart c = true) = true →
      ∀ c d, Alike c d → c ∈ as → d ∈ as := by
    rintro as has c d (rfl | ⟨hword, -⟩) hc
    · exact hc
    · exact absurd hword (of_decide_eq_true (List.all_eq_true.1 has c hc))
  cases h with
  | punctuation hc => exact .punctuation hc
  | arithmetic hc => exact .arithmetic hc
  | pair hc hd => exact .pair hc hd
  | alone hc hrest =>
      exact .alone hc
        (hfollows.not_startsIn (fun c hp => (hpart c hp).1) (hlisted (by decide)) hrest)
  | double hc => exact .double hc
  | string hquote hbody => exact .string hquote hbody
  | int hne hwhole hrest =>
      refine .int hne hwhole (hfollows.not_startsIn ?_ ?_ hrest)
      · intro c hp hc
        exact hc.elim (hpart c hp).2.1 (hpart c hp).2.2.1
      · intro c d hcd hc
        exact hc.imp (hlisted (by decide) c d hcd) (hlisted (by decide) c d hcd)
  | float hne hwhole hpoint hdec hdecimals hrest =>
      exact .float hne hwhole hpoint hdec hdecimals
        (hfollows.not_startsIn (fun c hp => (hpart c hp).2.1) (hlisted (by decide)) hrest)
  | word hc hletters hrest =>
      refine .word hc hletters (hfollows.not_startsIn (fun c hp => (hpart c hp).2.2.2) ?_ hrest)
      rintro c d (rfl | ⟨-, hword⟩) hpartc
      · exact hpartc
      · exact Or.inl hword

/-- The last character of a lexeme is a symbol, or it ends a run that what follows does not go on
with. -/
theorem Stands.getLast?_cases {lexeme : Lexeme} {rest : List Char} {c : Char}
    (h : lexeme.Stands rest) (hlast : lexeme.text.getLast? = some c) :
    c ∈ closers ∨ (c ∈ digits ∧ ¬ StartsIn (· ∈ digits) rest) ∨
      (WordPart c ∧ ¬ StartsIn WordPart rest) := by
  simp only [closers, List.mem_append]
  cases h with
  | punctuation hc =>
      cases hlast
      simp [List.mem_map_of_mem (f := Prod.fst) hc]
  | arithmetic hc =>
      cases hlast
      simp [hc]
  | pair hc hd =>
      cases hlast
      simp [hd]
  | alone hc hrest =>
      cases hlast
      simp [List.mem_map_of_mem (f := Prod.fst) hc]
  | double hc =>
      cases hlast
      simp [hc]
  | @string quote body value _ hquote hbody =>
      change (quote :: body ++ [quote]).getLast? = some c at hlast
      rw [List.getLast?_concat] at hlast
      cases hlast
      simp [hquote]
  | int hne hwhole hrest =>
      refine Or.inr (Or.inl ⟨hwhole c (List.mem_of_getLast? hlast), ?_⟩)
      rintro ⟨d, hd, hdigit⟩
      exact hrest ⟨d, hd, Or.inl hdigit⟩
  | @float whole decimals _ point hne hwhole hpoint hdec hdecimals hrest =>
      change (whole ++ ([point] ++ decimals)).getLast? = some c at hlast
      rw [← List.append_assoc, List.getLast?_append_of_ne_nil _ hdec] at hlast
      exact Or.inr (Or.inl ⟨hdecimals c (List.mem_of_getLast? hlast), hrest⟩)
  | word hc hletters hrest =>
      refine Or.inr (Or.inr ⟨?_, hrest⟩)
      rcases List.mem_cons.1 (List.mem_of_getLast? hlast) with rfl | hmem
      · exact Or.inl hc
      · exact hletters c hmem

/-- A lexeme does not begin with a newline, so a comment before it has ended. -/
theorem Stands.startsIn_ne_newline {lexeme : Lexeme} {rest : List Char} (h : lexeme.Stands rest)
    (rest' : List Char) : StartsIn (· ≠ '\n') (lexeme.text ++ rest') := by
  have hnot := h.not_startsIn_part
  rw [startsIn_append h.text_ne_nil] at hnot ⊢
  obtain ⟨c, cs, htext⟩ := List.exists_cons_of_ne_nil h.text_ne_nil
  rw [htext, startsIn_cons] at hnot ⊢
  rintro rfl
  exact hnot (Or.inl (by decide))

end Lexeme

namespace Piece

theorem Heads.of_follows {p : Piece} {rest rest' : List Char} (h : p.Heads rest)
    (hfollows : Follows rest' rest) : p.Heads rest' := by
  obtain ⟨hgap, hlexeme⟩ := h
  exact ⟨hgap.of_startsIn fun _ => hlexeme.startsIn_ne_newline rest, hlexeme.of_follows hfollows⟩

theorem Stand.of_follows {pieces : List Piece} {rest rest' : List Char} (h : Stand pieces rest)
    (hfollows : Follows rest' rest) : Stand pieces rest' := by
  induction pieces with
  | nil => trivial
  | cons p ps ih =>
      obtain ⟨hp, hps⟩ := (stand_cons_iff p ps rest).1 h
      exact (stand_cons_iff p ps rest').2 ⟨hp.of_follows (hfollows.append _), ih hps⟩

end Piece
end TwinScript
