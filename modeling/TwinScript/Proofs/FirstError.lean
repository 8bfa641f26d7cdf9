import TwinScript.Proofs.Runs

/-!
# The first error of a text

`LexError.Arises` lists the ways in which reading can fail at a place, each with all the fields of
the error, in terms of the text that is left there. `lex` fails exactly with the error that arises
where the layout of the text halts.
-/
namespace TwinScript
open Script Text

/-- The error that arises at a place from the text after it. -/
inductive LexError.Arises (place : Mark) : List Char → LexError → Prop
  | stray {c : Char} {after : List Char} (hc : Stray c) :
      Arises place (c :: after)
        { kind := .unrecognized
          message := "unrecognized token '" ++ String.singleton c ++ "'"
          line := place.line
          column := place.column
          offset := place.offset
          length := c.utf8Size }
  | half {c : Char} {after : List Char} (hc : c ∈ doubled) (hafter : ¬ StartsIn (· = c) after) :
      Arises place (c :: after)
        { kind := .unrecognized
          message := "unrecognized token '" ++ String.singleton c ++ "'"
          line := place.line
          column := place.column
          offset := place.offset
          length := c.utf8Size }
  | point {whole after : List Char} {point : Char} (hne : whole ≠ [])
      (hwhole : ∀ c ∈ whole, c ∈ digits) (hpoint : point ∈ decimalPoints)
      (hafter : ¬ StartsIn (· ∈ digits) after) :
      -- the error stands at the point, not at the number
      Arises place (whole ++ point :: after)
        { kind := .malformedFloat
          message := "expected a digit after the decimal point"
          line := place.line
          column := place.column + whole.length
          offset := place.offset + byteSize whole
          length := point.utf8Size }
  | atNewline {quote : Char} {body value slash after : List Char} (hquote : quote ∈ quotes)
      (hbody : Contents quote body value) (hslash : Dangling slash) :
      Arises place (quote :: (body ++ slash ++ '\n' :: after))
        { kind := .unterminatedString
          message := "unterminated string literal"
          line := place.line
          column := place.column
          offset := place.offset
          length := byteSize (quote :: (body ++ slash ++ ['\n'])) }
  | atEnd {quote : Char} {body value slash : List Char} (hquote : quote ∈ quotes)
      (hbody : Contents quote body value) (hslash : Dangling slash) :
      Arises place (quote :: (body ++ slash))
        { kind := .unterminatedString
          message := "unterminated string literal"
          line := place.line
          column := place.column
          offset := place.offset
          length := byteSize (quote :: (body ++ slash)) }

theorem newline_not_mem_of_digits (whole : List Char) (h : ∀ c ∈ whole, c ∈ digits) :
    '\n' ∉ whole := by
  intro hmem
  have hnot : '\n' ∉ digits := by decide
  exact hnot (h '\n' hmem)

namespace LexError

theorem ofFault_malformedFloat (place : Mark) (whole : List Char) (point : Char)
    (h : ∀ c ∈ whole, c ∈ digits) :
    ofFault (.malformedFloat whole point) place =
      { kind := .malformedFloat
        message := "expected a digit after the decimal point"
        line := place.line
        column := place.column + whole.length
        offset := place.offset + byteSize whole
        length := point.utf8Size } := by
  have hmem := newline_not_mem_of_digits whole h
  have hline : (place.past whole).line = place.line := by
    rw [Mark.line_past, List.count_eq_zero.2 hmem, Nat.add_zero]
  have hcolumn := Mark.column_past_of_not_mem place hmem
  unfold ofFault
  dsimp only [Fault.lead]
  rw [hline, hcolumn, Mark.offset_past]
  rfl

theorem arises_of_stands (place : Mark) (fault : Fault) (rest : List Char) (h : fault.Stands rest) :
    Arises place rest (ofFault fault place) := by
  cases h with
  | stray hc => exact .stray hc
  | half hc hafter => exact .half hc hafter
  | point hne hwhole hpoint hafter =>
      rw [ofFault_malformedFloat place _ _ hwhole]
      exact .point hne hwhole hpoint hafter
  | atNewline hquote hbody hslash => exact .atNewline hquote hbody hslash
  | atEnd hquote hbody hslash => exact .atEnd hquote hbody hslash

theorem Arises.exists_fault {place : Mark} {rest : List Char} {e : LexError}
    (h : Arises place rest e) : ∃ fault : Fault, fault.Stands rest ∧ e = ofFault fault place := by
  cases h with
  | stray hc => exact ⟨_, .stray hc, rfl⟩
  | half hc hafter => exact ⟨_, .half hc hafter, rfl⟩
  | point hne hwhole hpoint hafter =>
      exact ⟨_, .point hne hwhole hpoint hafter, (ofFault_malformedFloat place _ _ hwhole).symm⟩
  | atNewline hquote hbody hslash => exact ⟨_, .atNewline hquote hbody hslash, rfl⟩
  | atEnd hquote hbody hslash => exact ⟨_, .atEnd hquote hbody hslash, rfl⟩

end LexError

/-- A text is refused exactly with the error that arises after the pieces and the gap of a layout,
and these pieces are then what has been read before the error. -/
theorem lex_error_iff_arises (s : String) (e : LexError) :
    (lex s = .error e ↔
        ∃ layout : Layout s.toList, LexError.Arises layout.place layout.rest e) ∧
      ∀ layout : Layout s.toList, LexError.Arises layout.place layout.rest e →
        (Reader.ofText s.toList).run.tokens = layout.tokens := by
  refine ⟨⟨?_, ?_⟩, ?_⟩
  · intro herror
    obtain ⟨layout, fault, hfault, rfl⟩ := exists_layout_of_lex_error herror
    exact ⟨layout, LexError.arises_of_stands layout.place fault layout.rest hfault⟩
  · rintro ⟨layout, harises⟩
    obtain ⟨fault, hfault, rfl⟩ := harises.exists_fault
    exact lex_of_fault s layout fault hfault
  · intro layout harises
    obtain ⟨fault, hfault, -⟩ := harises.exists_fault
    obtain ⟨after, hrun⟩ := layout.run_of_fault fault hfault
    rw [hrun]

/-- A word, a gap, and a number whose point is not followed by a digit. -/
theorem lex_error_iff_arises_sample : ∃ (layout : Layout "a １.x".toList) (e : LexError),
    e = ⟨.malformedFloat, "expected a digit after the decimal point", 1, 4, 5, 1⟩ ∧
      LexError.Arises layout.place layout.rest e ∧ lex "a １.x" = .error e ∧
      (Reader.ofText "a １.x".toList).run.tokens = layout.tokens := by
  have hword : Lexeme.Stands (.plain .identifier ['a']) [' ', '１', '.', 'x'] := by
    have hkind : wordKind ['a'] = .identifier := by decide +kernel
    rw [← hkind]
    exact .word (by decide) nofun (by decide)
  let layout : Layout "a １.x".toList :=
    { pieces := [⟨[], .plain .identifier ['a']⟩]
      gap := [' ']
      rest := ['１', '.', 'x']
      pieces_stand := ⟨.nil _, hword, trivial⟩
      gap_stands := .space (by decide) (.nil _)
      text_eq := by decide +kernel }
  have harises : LexError.Arises layout.place layout.rest
      ⟨.malformedFloat, "expected a digit after the decimal point", 1, 4, 5, 1⟩ :=
    @LexError.Arises.point _ ['１'] ['x'] '.' (by decide) (fun _ h => of_listed h (by decide))
      (by decide) (by decide)
  have h := lex_error_iff_arises "a １.x"
    ⟨.malformedFloat, "expected a digit after the decimal point", 1, 4, 5, 1⟩
  exact ⟨layout, _, rfl, harises, h.1.2 ⟨layout, harises⟩, h.2 layout harises⟩

end TwinScript
