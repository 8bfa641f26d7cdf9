import TwinScript.Proofs.Layout

/-!
# Runs along a layout

A reader in front of pieces of the grammar returns their tokens, one call after the other, and is
then in front of what follows them. So the layout of a text determines what `lex` makes of it.
-/
namespace TwinScript
open Script Text

namespace Reader

theorem ofText_eq_between (text : List Char) : ofText text = between [] text false := rfl

theorem run_pieces (before rest : List Char) (finished : Bool) (pieces : List Piece)
    (h : Piece.Stand pieces rest) :
    (between before (Piece.textOf pieces ++ rest) finished).run =
      let more := (between (before ++ Piece.textOf pieces) rest finished).run
      { more with tokens := Piece.tokens before pieces ++ more.tokens } := by
  induction pieces generalizing before with
  | nil => simp [Piece.textOf, Piece.tokens]
  | cons p ps ih =>
      obtain ⟨hgap, hlexeme, hps⟩ := h
      have hread := (@Step.token before finished _ _ _ hgap hlexeme).read_eq
      have hkind : (p.lexeme.token (.after (before ++ p.gap))
          (.after (before ++ p.gap ++ p.lexeme.text))).kind ≠ .endOfInput := hlexeme.kind_ne.1
      simp only [Piece.textOf, Piece.text, List.append_assoc]
      rw [run_of_token hread hkind, ih _ hps]
      simp only [Piece.tokens, Piece.token_eq, Piece.text, List.append_assoc, List.cons_append]

theorem run_eq_of_read_eq (r r' : Reader) (h : r.read = r'.read) : r.run = r'.run := by
  rcases hread : r.read with ⟨e | t, after⟩
  · rw [run_of_error hread, run_of_error (h.symm.trans hread)]
  · by_cases ht : t.kind = .endOfInput
    · rw [run_of_endOfInput hread ht, run_of_endOfInput (h.symm.trans hread) ht]
    · rw [run_of_token hread ht, run_of_token (h.symm.trans hread) ht]

theorem run_gap (before gap rest : List Char) (finished : Bool) (hgap : Gap.Stands gap rest) :
    (between before (gap ++ rest) finished).run = (between (before ++ gap) rest finished).run := by
  obtain ⟨result, r, hstep⟩ := exists_step (before ++ gap) rest finished
  apply run_eq_of_read_eq
  rw [hstep.read_eq, (hstep.gap_append hgap).read_eq]

theorem run_endOfInput (before gap : List Char) (hgap : Gap.Stands gap []) :
    (between before gap false).run =
      ⟨[.endOfInput (.after (before ++ gap))], none, between (before ++ gap) [] true⟩ := by
  exact run_of_endOfInput (Step.endOfInput hgap rfl).read_eq rfl

theorem run_fault (before gap rest : List Char) (finished : Bool) (fault : Fault)
    (hgap : Gap.Stands gap rest) (hfault : fault.Stands rest) :
    ∃ after, (between before (gap ++ rest) finished).run =
      ⟨[], some (.ofFault fault (.after (before ++ gap))), after⟩ := by
  obtain ⟨more, rfl⟩ := hfault.exists_append
  exact ⟨_, run_of_error (Step.fault hgap hfault).read_eq⟩

end Reader

theorem Piece.filter_tokens (before rest : List Char) (pieces : List Piece)
    (h : Stand pieces rest) :
    (tokens before pieces).filter (·.kind ≠ .endOfInput) = tokens before pieces := by
  induction pieces generalizing before with
  | nil => rfl
  | cons p ps ih =>
      obtain ⟨-, hlexeme, hps⟩ := h
      rw [tokens, List.filter_cons_of_pos, ih _ hps]
      simpa [token, Lexeme.written] using hlexeme.kind_ne.1

namespace Layout

variable {source : List Char}

theorem filter_tokens (layout : Layout source) :
    layout.tokens.filter (·.kind ≠ .endOfInput) = layout.tokens :=
  Piece.filter_tokens [] _ layout.pieces layout.pieces_stand

theorem filter_tokens_append (layout : Layout source) (place : Mark) :
    (layout.tokens ++ [Token.endOfInput place]).filter (·.kind ≠ .endOfInput) = layout.tokens := by
  have hend : [Token.endOfInput place].filter (·.kind ≠ .endOfInput) = [] := rfl
  rw [List.filter_append, layout.filter_tokens, hend, List.append_nil]

theorem run_eq (layout : Layout source) :
    (Reader.ofText source).run =
      let more :=
        (Reader.between (Piece.textOf layout.pieces) (layout.gap ++ layout.rest) false).run
      { more with tokens := layout.tokens ++ more.tokens } := by
  have h := Reader.run_pieces [] (layout.gap ++ layout.rest) false layout.pieces layout.pieces_stand
  rw [layout.text_eq, List.nil_append] at h
  exact h

theorem run_of_complete (layout : Layout source) (h : layout.rest = []) :
    (Reader.ofText source).run =
      ⟨layout.tokens ++ [.endOfInput (.after source)], none, .between source [] true⟩ := by
  have hgap := layout.gap_stands
  have htext := layout.text_eq
  rw [h] at hgap
  rw [h, List.append_nil] at htext
  rw [layout.run_eq, h, List.append_nil, Reader.run_endOfInput _ _ hgap, htext]

theorem run_of_fault (layout : Layout source) (fault : Fault) (h : fault.Stands layout.rest) :
    ∃ after, (Reader.ofText source).run =
      ⟨layout.tokens, some (.ofFault fault layout.place), after⟩ := by
  obtain ⟨after, hrun⟩ := Reader.run_fault (Piece.textOf layout.pieces) layout.gap layout.rest false
    fault layout.gap_stands h
  refine ⟨after, ?_⟩
  rw [layout.run_eq, hrun]
  simp only [List.append_nil, place]

end Layout

theorem lex_of_complete (s : String) (layout : Layout s.toList) (h : layout.rest = []) :
    lex s = .ok (layout.tokens ++ [.endOfInput (.after s.toList)]) := by
  rw [lex, Reader.readAll_eq_run, layout.run_of_complete h]

theorem lex_of_fault (s : String) (layout : Layout s.toList) (fault : Fault)
    (h : fault.Stands layout.rest) : lex s = .error (.ofFault fault layout.place) := by
  obtain ⟨after, hrun⟩ := layout.run_of_fault fault h
  rw [lex, Reader.readAll_eq_run, hrun]

theorem exists_layout_of_lex_ok {s : String} {tokens : List Token} (h : lex s = .ok tokens) :
    ∃ layout : Layout s.toList, layout.rest = [] ∧
      tokens = layout.tokens ++ [.endOfInput (.after s.toList)] := by
  obtain ⟨layout, hrest | ⟨fault, hfault⟩⟩ := Layout.exists_halts s.toList
  · rw [lex_of_complete s layout hrest] at h
    exact ⟨layout, hrest, (Except.ok.inj h).symm⟩
  · rw [lex_of_fault s layout fault hfault] at h
    cases h

theorem lex_ofList_of_complete {text : List Char} (layout : Layout text) (h : layout.rest = []) :
    lex (String.ofList text) = .ok (layout.tokens ++ [.endOfInput (.after text)]) := by
  have hlex := lex_of_complete (String.ofList text)
  rw [String.toList_ofList] at hlex
  exact hlex layout h

theorem exists_layout_of_lex_ofList {text : List Char} {tokens : List Token}
    (h : lex (String.ofList text) = .ok tokens) :
    ∃ layout : Layout text, layout.rest = [] ∧
      tokens = layout.tokens ++ [.endOfInput (.after text)] := by
  have hlayout := exists_layout_of_lex_ok h
  rwa [String.toList_ofList] at hlayout

theorem exists_layout_of_lex_error {s : String} {e : LexError} (h : lex s = .error e) :
    ∃ (layout : Layout s.toList) (fault : Fault), fault.Stands layout.rest ∧
      e = .ofFault fault layout.place := by
  obtain ⟨layout, hrest | ⟨fault, hfault⟩⟩ := Layout.exists_halts s.toList
  · rw [lex_of_complete s layout hrest] at h
    cases h
  · rw [lex_of_fault s layout fault hfault] at h
    exact ⟨layout, fault, hfault, (Except.error.inj h).symm⟩

/-- A text is accepted exactly when the grammar lays out the whole of it. There is then only one
layout, and the tokens are those that the grammar writes for it, with the end of the input after
them. -/
theorem lex_ok_iff_layout (s : String) :
    ((∃ tokens, lex s = .ok tokens) ↔ ∃ layout : Layout s.toList, layout.rest = []) ∧
      (∀ layout : Layout s.toList, layout.rest = [] →
        lex s = .ok (layout.tokens ++
          [{ kind := .endOfInput
             value := "EOF"
             line := s.toList.count '\n' + 1
             column := (lastLine s.toList).length + 1
             span := ⟨byteSize s.toList, byteSize s.toList⟩ }])) ∧
      ∀ layout layout' : Layout s.toList, layout.rest = [] → layout'.rest = [] →
        layout = layout' := by
  refine ⟨⟨?_, ?_⟩, fun layout h => lex_of_complete s layout h, ?_⟩
  · rintro ⟨tokens, htokens⟩
    obtain ⟨layout, hrest, -⟩ := exists_layout_of_lex_ok htokens
    exact ⟨layout, hrest⟩
  · rintro ⟨layout, hrest⟩
    exact ⟨_, lex_of_complete s layout hrest⟩
  · intro layout layout' hrest hrest'
    exact layout.eq_of_halts layout' (Or.inl hrest) (Or.inl hrest')

/-- A word, a sign alone, a number behind a newline, a literal and a comment that runs to the
end. -/
theorem lex_ok_iff_layout_sample : ∃ layout : Layout "if＝\n １.5'\\''#c".toList, layout.rest = [] ∧
    layout.tokens =
      [⟨.ifWord, "if", 1, 1, ⟨0, 2⟩⟩, ⟨.equals, "＝", 1, 3, ⟨2, 5⟩⟩,
        ⟨.float, "１.5", 2, 2, ⟨7, 12⟩⟩, ⟨.string, "'", 2, 5, ⟨12, 16⟩⟩] ∧
    lex "if＝\n １.5'\\''#c" = .ok
      [⟨.ifWord, "if", 1, 1, ⟨0, 2⟩⟩, ⟨.equals, "＝", 1, 3, ⟨2, 5⟩⟩,
        ⟨.float, "１.5", 2, 2, ⟨7, 12⟩⟩, ⟨.string, "'", 2, 5, ⟨12, 16⟩⟩,
        ⟨.endOfInput, "EOF", 2, 11, ⟨18, 18⟩⟩] := by
  have hword : Lexeme.Stands (.plain .ifWord ['i', 'f'])
      ['＝', '\n', ' ', '１', '.', '5', '\'', '\\', '\'', '\'', '#', 'c'] := by
    have hkind : wordKind ['i', 'f'] = .ifWord := by decide +kernel
    rw [← hkind]
    exact .word (by decide) (fun _ h => of_listed h (by decide)) (by decide)
  have hsign : Lexeme.Stands (.plain .equals ['＝'])
      ['\n', ' ', '１', '.', '5', '\'', '\\', '\'', '\'', '#', 'c'] :=
    .alone (by decide) (by decide)
  have hnumber : Lexeme.Stands (.plain .float ['１', '.', '5'])
      ['\'', '\\', '\'', '\'', '#', 'c'] :=
    @Lexeme.Stands.float ['１'] ['5'] _ '.' (by decide) (fun _ h => of_listed h (by decide))
      (by decide) (by decide) (fun _ h => of_listed h (by decide)) (by decide)
  have hliteral : Lexeme.Stands ⟨.string, ['\'', '\\', '\'', '\''], ['\'']⟩ ['#', 'c'] :=
    @Lexeme.Stands.string '\'' ['\\', '\''] ['\''] _ (by decide) (.escaped (by decide) .nil)
  have hgap : Gap.Stands ['#', 'c'] [] :=
    @Gap.Stands.comment '#' ['c'] [] [] (by decide) (by decide) (by decide) (.nil [])
  let layout : Layout "if＝\n １.5'\\''#c".toList :=
    { pieces := [⟨[], .plain .ifWord ['i', 'f']⟩, ⟨[], .plain .equals ['＝']⟩,
        ⟨['\n', ' '], .plain .float ['１', '.', '5']⟩,
        ⟨[], ⟨.string, ['\'', '\\', '\'', '\''], ['\'']⟩⟩]
      gap := ['#', 'c']
      rest := []
      pieces_stand := ⟨.nil _, hword, .nil _, hsign,
        .space (by decide) (.space (by decide) (.nil _)), hnumber, .nil _, hliteral, trivial⟩
      gap_stands := hgap
      text_eq := by decide +kernel }
  have htokens : layout.tokens =
      [⟨.ifWord, "if", 1, 1, ⟨0, 2⟩⟩, ⟨.equals, "＝", 1, 3, ⟨2, 5⟩⟩,
        ⟨.float, "１.5", 2, 2, ⟨7, 12⟩⟩, ⟨.string, "'", 2, 5, ⟨12, 16⟩⟩] := rfl
  have hlex := (lex_ok_iff_layout _).2.1 layout rfl
  rw [htokens] at hlex
  refine ⟨layout, rfl, htokens, hlex.trans ?_⟩
  decide +kernel

end TwinScript
