import TwinScript.Proofs.Displacement
import TwinScript.Proofs.Lookahead
import TwinScript.Proofs.Runs

/-!
# Texts joined by a newline

No lexeme reaches over a newline, and a newline ends every comment. So a text stands in front of a
newline as it stands alone, and reading two texts joined by a newline is reading one after the
other. The one exception is a literal cut off by the end of the first text: the newline that now
cuts it off is counted with it.
-/
namespace TwinScript
open Script Text

theorem Text.not_startsIn_append_newline (P : Char → Prop) (hP : ¬ P '\n') (text more : List Char)
    (h : ¬ StartsIn P text) : ¬ StartsIn P (text ++ '\n' :: more) := by
  cases text with
  | nil => rwa [List.nil_append, startsIn_cons]
  | cons c cs => rwa [List.cons_append, startsIn_cons, ← startsIn_cons P c cs]

theorem Text.follows_append_newline (text more : List Char) :
    Follows (text ++ '\n' :: more) text := by
  cases text with
  | nil =>
      intro c hc
      cases hc
      exact Or.inl (Or.inl (by decide))
  | cons c cs => exact follows_of_head? rfl

theorem Gap.Stands.append_newline {gap rest : List Char} (h : Stands gap rest) (more : List Char) :
    Stands gap (rest ++ '\n' :: more) := by
  apply h.of_startsIn
  intro hstarts
  by_contra hstop
  exact not_startsIn_append_newline _ (by simp) _ _ hstop hstarts

theorem Piece.Stand.append_newline {pieces : List Piece} {rest : List Char}
    (h : Piece.Stand pieces rest) (more : List Char) :
    Piece.Stand pieces (rest ++ '\n' :: more) :=
  h.of_follows (follows_append_newline rest more)

theorem Contents.newline_not_mem {quote : Char} {body value : List Char}
    (h : Contents quote body value) : '\n' ∉ body := by
  induction h with
  | nil => simp
  | plain hquote hslash hline h ih =>
      rw [List.mem_cons, not_or]
      exact ⟨hline.symm, ih⟩
  | escaped hline h ih =>
      rw [List.mem_cons, List.mem_cons, not_or, not_or]
      exact ⟨by decide, hline.symm, ih⟩

theorem Contents.newline_not_mem_open {quote : Char} {body value slash : List Char}
    (hquote : quote ∈ quotes) (hbody : Contents quote body value) (hslash : Dangling slash) :
    '\n' ∉ quote :: (body ++ slash) := by
  rw [List.mem_cons, List.mem_append, not_or, not_or]
  refine ⟨(quote_ne quote hquote).2.symm, hbody.newline_not_mem, ?_⟩
  rcases hslash with rfl | rfl <;> simp

/-- A fault stays what it is in front of a newline, unless it is a literal that the end of the text
has cut off: that literal then takes the newline too. -/
theorem Fault.Stands.append_newline {fault : Fault} {rest : List Char} (h : fault.Stands rest)
    (more : List Char) :
    (fault.Stands (rest ++ '\n' :: more) ∧ (fault.kind = .unterminatedString → '\n' ∈ rest)) ∨
      (fault = .unterminatedString rest ∧ '\n' ∉ rest ∧
        Fault.Stands (.unterminatedString (rest ++ ['\n'])) (rest ++ '\n' :: more)) := by
  cases h with
  | stray hc => exact Or.inl ⟨.stray hc, nofun⟩
  | half hc hafter =>
      refine Or.inl ⟨.half hc (not_startsIn_append_newline _ ?_ _ _ hafter), nofun⟩
      rintro rfl
      exact absurd hc (by decide)
  | point hne hwhole hpoint hafter =>
      refine Or.inl ⟨?_, nofun⟩
      rw [List.append_assoc, List.cons_append]
      exact .point hne hwhole hpoint (not_startsIn_append_newline _ (by decide) _ _ hafter)
  | @atNewline quote body value slash after hquote hbody hslash =>
      refine Or.inl ⟨?_, fun _ => by simp⟩
      rw [List.cons_append, List.append_assoc (body ++ slash), List.cons_append]
      exact .atNewline hquote hbody hslash
  | @atEnd quote body value slash hquote hbody hslash =>
      -- a backslash at the end escapes nothing, and the newline after it is not escaped either
      exact Or.inr ⟨rfl, hbody.newline_not_mem_open hquote hslash, .atNewline hquote hbody hslash⟩

def Token.shift (lines bytes : Nat) (t : Token) : Token :=
  { t with line := t.line + lines, span := ⟨t.span.start + bytes, t.span.stop + bytes⟩ }

def LexError.shift (lines bytes : Nat) (e : LexError) : LexError :=
  { e with line := e.line + lines, offset := e.offset + bytes }

/-- Whether the error is a literal that ran to the end of the source, and not to a newline in it. -/
def LexError.ranToEnd (source : List Char) (e : LexError) : Bool :=
  e.kind == .unterminatedString && (cut? e.offset source).any fun (_, text) =>
    byteSize text == e.length && !text.contains '\n'

theorem Text.utf8Size_newline : '\n'.utf8Size = 1 := rfl

theorem Token.beyond_newline (front : List Char) (t : Token) :
    t.beyond (front ++ ['\n']) = t.shift (front.count '\n' + 1) (byteSize front + 1) := by
  have hline : lastLine (front ++ ['\n']) = [] := by simp [lastLine]
  simp [beyond, shift, hline, utf8Size_newline]

theorem LexError.beyond_newline (front : List Char) (e : LexError) :
    e.beyond (front ++ ['\n']) = e.shift (front.count '\n' + 1) (byteSize front + 1) := by
  have hline : lastLine (front ++ ['\n']) = [] := by simp [lastLine]
  simp [beyond, shift, hline, utf8Size_newline]

/-- Behind a complete layout and a newline, a run is that of the second text, shifted. -/
theorem Layout.run_append_newline {source : List Char} (layout : Layout source)
    (h : layout.rest = []) (more : List Char) :
    (Reader.ofText (source ++ '\n' :: more)).run =
      let next := (Reader.ofText more).run.beyond (source ++ ['\n'])
      { next with tokens := layout.tokens ++ next.tokens } := by
  have hstand := layout.pieces_stand.append_newline more
  have hgap := layout.gap_stands.append_newline more
  have htext := layout.text_eq
  rw [h, List.append_nil] at hstand htext
  rw [h, List.nil_append] at hgap
  -- the newline belongs to the gap that ends the first text, so that the run may start behind it
  have hspace : Gap.Stands ['\n'] more := .space (by decide) (.nil more)
  have hgap' : Gap.Stands (layout.gap ++ ['\n']) more := hgap.append hspace
  have hrun := Reader.run_pieces [] (layout.gap ++ '\n' :: more) false layout.pieces hstand
  have hnext := Reader.run_gap (Piece.textOf layout.pieces) (layout.gap ++ ['\n']) more false hgap'
  rw [← List.append_assoc (Piece.textOf layout.pieces), htext, List.append_assoc,
    List.singleton_append] at hnext
  rw [← List.append_assoc, htext, List.nil_append, hnext, ← List.append_nil (source ++ ['\n']),
    Reader.between_append, Reader.run_beyond] at hrun
  exact hrun

theorem LexError.ofFault_unterminatedString_concat (text : List Char) (place : Mark) :
    let e := ofFault (.unterminatedString text) place
    ofFault (.unterminatedString (text ++ ['\n'])) place = { e with length := e.length + 1 } := by
  have hsize : byteSize (text ++ ['\n']) = byteSize text + 1 := by simp [utf8Size_newline]
  unfold ofFault
  dsimp only [Fault.extent]
  rw [hsize]
  rfl

namespace Layout

variable {source : List Char}

def appendNewline (layout : Layout source) (more : List Char) :
    Layout (source ++ '\n' :: more) where
  pieces := layout.pieces
  gap := layout.gap
  rest := layout.rest ++ '\n' :: more
  pieces_stand := by
    rw [← List.append_assoc]
    exact layout.pieces_stand.append_newline more
  gap_stands := layout.gap_stands.append_newline more
  text_eq := by
    rw [← List.append_assoc layout.gap, ← List.append_assoc, layout.text_eq]

theorem cut?_place (layout : Layout source) :
    cut? layout.place.offset source =
      some (Piece.textOf layout.pieces ++ layout.gap, layout.rest) := by
  rw [cut?_eq_some_iff]
  exact ⟨by rw [List.append_assoc, layout.text_eq], rfl⟩

theorem ranToEnd_ofFault (layout : Layout source) (fault : Fault) :
    (LexError.ofFault fault layout.place).ranToEnd source = true ↔
      ∃ text, fault = .unterminatedString text ∧ byteSize layout.rest = byteSize text ∧
        '\n' ∉ layout.rest := by
  cases fault with
  | unrecognized c => simp [LexError.ranToEnd, LexError.ofFault, Fault.kind]
  | malformedFloat whole point => simp [LexError.ranToEnd, LexError.ofFault, Fault.kind]
  | unterminatedString text =>
      have hoffset : (LexError.ofFault (.unterminatedString text) layout.place).offset =
          layout.place.offset := rfl
      rw [LexError.ranToEnd, hoffset, layout.cut?_place]
      simp [LexError.ofFault, Fault.kind, Fault.extent]

end Layout

theorem lex_append_newline_of_fault (s₁ s₂ : String) (layout : Layout s₁.toList) (fault : Fault)
    (h : fault.Stands layout.rest) :
    lex (s₁ ++ "\n" ++ s₂) =
      let e := LexError.ofFault fault layout.place
      .error (if e.ranToEnd s₁.toList then { e with length := e.length + 1 } else e) := by
  have htext : (s₁ ++ "\n" ++ s₂).toList = s₁.toList ++ '\n' :: s₂.toList := by simp
  have hlex : ∀ fault' : Fault, fault'.Stands (layout.rest ++ '\n' :: s₂.toList) →
      lex (s₁ ++ "\n" ++ s₂) = .error (.ofFault fault' layout.place) := by
    intro fault' hfault'
    have hlayout := lex_of_fault (s₁ ++ "\n" ++ s₂)
    rw [htext] at hlayout
    exact hlayout (layout.appendNewline s₂.toList) fault' hfault'
  have hran := layout.ranToEnd_ofFault fault
  rcases h.append_newline s₂.toList with ⟨hsame, hline⟩ | ⟨hfault, hline, hlonger⟩
  · have hnot : ¬ (LexError.ofFault fault layout.place).ranToEnd s₁.toList = true := by
      intro htrue
      obtain ⟨text, rfl, -, hmem⟩ := hran.1 htrue
      exact hmem (hline rfl)
    rw [hlex fault hsame]
    simp only [if_neg hnot]
  · have htrue : (LexError.ofFault fault layout.place).ranToEnd s₁.toList = true :=
      hran.2 ⟨layout.rest, hfault, rfl, hline⟩
    rw [hlex _ hlonger]
    subst hfault
    simp only [if_pos htrue, LexError.ofFault_unterminatedString_concat]

theorem lex_append_newline_of_complete (s₁ s₂ : String) (layout : Layout s₁.toList)
    (h : layout.rest = []) :
    lex (s₁ ++ "\n" ++ s₂) = match lex s₂ with
      | .ok more => .ok (layout.tokens ++
          more.map (Token.shift (s₁.toList.count '\n' + 1) (s₁.utf8ByteSize + 1)))
      | .error e => .error (e.shift (s₁.toList.count '\n' + 1) (s₁.utf8ByteSize + 1)) := by
  have htext : (s₁ ++ "\n" ++ s₂).toList = s₁.toList ++ '\n' :: s₂.toList := by simp
  have htoken : Token.beyond (s₁.toList ++ ['\n']) =
      Token.shift (s₁.toList.count '\n' + 1) (s₁.utf8ByteSize + 1) := by
    funext t
    rw [Token.beyond_newline, byteSize_toList]
  simp only [lex, Reader.readAll_eq_run, htext, layout.run_append_newline h, Reader.Run.beyond]
  cases (Reader.ofText s₂.toList).run.error with
  | none => simp only [Option.map_none, htoken]
  | some e => simp only [Option.map_some, LexError.beyond_newline, byteSize_toList]

/-- Reading is compositional at newlines. A text that can be read gives its tokens, and after them
what the second text gives, further down by the lines and bytes of the first. A text that cannot be
read gives its error whatever follows, with one more byte in a literal that ran to its end. -/
theorem lex_append_newline (s₁ s₂ : String) :
    (∀ tokens, lex s₁ = .ok tokens → ∃ ts, tokens = ts ++ [.endOfInput (.after s₁.toList)] ∧
        lex (s₁ ++ "\n" ++ s₂) = match lex s₂ with
          | .ok more => .ok (ts ++
              more.map (Token.shift (s₁.toList.count '\n' + 1) (s₁.utf8ByteSize + 1)))
          | .error e => .error (e.shift (s₁.toList.count '\n' + 1) (s₁.utf8ByteSize + 1))) ∧
      ∀ e, lex s₁ = .error e →
        lex (s₁ ++ "\n" ++ s₂) =
          .error (if e.ranToEnd s₁.toList then { e with length := e.length + 1 } else e) := by
  constructor
  · intro tokens htokens
    obtain ⟨layout, hrest, heq⟩ := exists_layout_of_lex_ok htokens
    exact ⟨layout.tokens, heq, lex_append_newline_of_complete s₁ s₂ layout hrest⟩
  · intro e he
    obtain ⟨layout, fault, hfault, rfl⟩ := exists_layout_of_lex_error he
    exact lex_append_newline_of_fault s₁ s₂ layout fault hfault

/-- A comment before the newline with an error after it, and a literal that the first text leaves
open at a backslash. -/
theorem lex_append_newline_sample :
    lex ("宣言#x" ++ "\n" ++ "1.") =
        .error ⟨.malformedFloat, "expected a digit after the decimal point", 2, 2, 10, 1⟩ ∧
      lex ("'\\" ++ "\n" ++ "b'") =
        .error ⟨.unterminatedString, "unterminated string literal", 1, 1, 0, 3⟩ := by
  have hfirst : lex "宣言#x" =
      .ok [⟨.letWord, "宣言", 1, 1, ⟨0, 6⟩⟩, ⟨.endOfInput, "EOF", 1, 5, ⟨8, 8⟩⟩] := by decide +kernel
  have hsecond : lex "1." =
      .error ⟨.malformedFloat, "expected a digit after the decimal point", 1, 2, 1, 1⟩ := by
    decide +kernel
  have hopen : lex "'\\" =
      .error ⟨.unterminatedString, "unterminated string literal", 1, 1, 0, 2⟩ := by decide +kernel
  obtain ⟨ts, -, hjoined⟩ := (lex_append_newline "宣言#x" "1.").1 _ hfirst
  rw [hsecond] at hjoined
  refine ⟨hjoined.trans ?_, ((lex_append_newline "'\\" "b'").2 _ hopen).trans ?_⟩
  · exact congrArg Except.error (by decide +kernel)
  · exact congrArg Except.error (by decide +kernel)

end TwinScript
