import TwinScript.Proofs.FirstError
import TwinScript.Proofs.Stability

/-!
# Texts cut at a reported place

The places of tokens and errors are places where a layout can end. If a text is cut off at such a
place, what comes before it is read as it was, because the end of a text goes on with no lexeme, and
the end of the input is reported at the cut. Only the error in a number is reported behind the
beginning of a lexeme: there the cut leaves the digits, and they are a number of their own.
-/
namespace TwinScript
open Script Text

namespace Text

def upTo? (offset : Nat) (s : String) : Option String :=
  (cut? offset s.toList).map fun (front, _) => String.ofList front

/-- The longest run of digits at the end of a text. -/
def lastDigits (text : List Char) : List Char := (text.reverse.takeWhile isDigit).reverse

theorem upTo?_byteSize {s : String} {front rest : List Char} (h : s.toList = front ++ rest) :
    upTo? (byteSize front) s = some (String.ofList front) := by
  rw [upTo?, h, cut?_byteSize_append]
  rfl

theorem lastDigits_append {front whole : List Char} (hwhole : ∀ c ∈ whole, c ∈ digits)
    (hfront : ∀ c, front.getLast? = some c → c ∉ digits) : lastDigits (front ++ whole) = whole := by
  have hstop : ¬ StartsIn (· ∈ digits) front.reverse := by
    rintro ⟨c, hc, hdigit⟩
    rw [List.head?_reverse] at hc
    exact hfront c hc hdigit
  obtain ⟨htake, -⟩ := span_of_stop isDigit_iff whole.reverse front.reverse
    (fun c hc => hwhole c (List.mem_reverse.1 hc)) hstop
  rw [lastDigits, List.reverse_append, htake, List.reverse_reverse]

end Text

def Token.endAt (offset line column : Nat) : Token :=
  ⟨.endOfInput, "EOF", line, column, ⟨offset, offset⟩⟩

def Reader.tokensRead (source : List Char) : List Token :=
  (ofText source).run.tokens.filter (·.kind ≠ .endOfInput)

theorem Gap.Stands.mem_spaces_of_getLast? {gap rest : List Char} {c : Char} (h : Stands gap rest)
    (hrest : StartsIn (· ≠ '\n') rest) (hlast : gap.getLast? = some c) : c ∈ spaces := by
  induction h with
  | nil rest => cases hlast
  | @space d gap rest hd h ih =>
      by_cases hgap : gap = []
      · subst hgap
        cases hlast
        exact hd
      · rw [← List.singleton_append, List.getLast?_append_of_ne_nil _ hgap] at hlast
        exact ih hrest hlast
  | @comment mark body gap rest hmark hbody hend h ih =>
      -- the comment is ended by a newline in the gap, as no newline follows the gap
      have hgap : gap ≠ [] := by
        rintro rfl
        exact hend hrest
      rw [← List.cons_append, List.getLast?_append_of_ne_nil _ hgap] at hlast
      exact ih hrest hlast

theorem Lexeme.Stands.not_mem_digits_of_getLast? {lexeme : Lexeme} {rest : List Char} {c : Char}
    (h : lexeme.Stands rest) (hrest : StartsIn (· ∈ digits) rest)
    (hlast : lexeme.text.getLast? = some c) : c ∉ digits := by
  rcases h.getLast?_cases hlast with hsymbol | ⟨-, hstop⟩ | ⟨-, hstop⟩
  · exact of_listed hsymbol (by decide)
  · exact absurd hrest hstop
  · obtain ⟨d, hd, hdigit⟩ := hrest
    exact absurd ⟨d, hd, Or.inr (Or.inl hdigit)⟩ hstop

theorem Lexeme.token_before_point {whole : List Char} (point : Char) (place : Mark)
    (hwhole : ∀ c ∈ whole, c ∈ digits) :
    let e := LexError.ofFault (.malformedFloat whole point) place
    (Lexeme.plain .int whole).token place (place.past whole) =
      ⟨.int, String.ofList whole, e.line, e.column - whole.length,
        ⟨e.offset - byteSize whole, e.offset⟩⟩ := by
  intro e
  have he : e = _ := LexError.ofFault_malformedFloat place whole point hwhole
  rw [he]
  simp only [Lexeme.token, Lexeme.plain, Mark.offset_past, Nat.add_sub_cancel]

theorem Piece.exists_append_of_tokens {before : List Char} {pieces : List Piece} {i : Nat}
    {t : Token} (h : (tokens before pieces)[i]? = some t) :
    ∃ ps p qs, pieces = ps ++ p :: qs ∧ ps.length = i ∧ t = p.token (before ++ textOf ps) := by
  induction pieces generalizing before i with
  | nil => cases h
  | cons p ps ih =>
      cases i with
      | zero =>
          cases h
          exact ⟨[], p, ps, rfl, rfl, by rw [textOf, List.append_nil]⟩
      | succ i =>
          obtain ⟨qs, q, more, rfl, rfl, rfl⟩ := ih h
          refine ⟨p :: qs, q, more, rfl, rfl, ?_⟩
          simp only [textOf, List.append_assoc]

namespace Layout

variable {source : List Char}

def cutAtRest (layout : Layout source) :
    Layout (Piece.textOf layout.pieces ++ layout.gap) where
  pieces := layout.pieces
  gap := layout.gap
  rest := []
  pieces_stand := by
    rw [List.append_nil]
    exact layout.pieces_stand.of_follows (follows_append _ _)
  gap_stands := layout.gap_stands.of_startsIn fun h => absurd h (not_startsIn_nil _)
  text_eq := by rw [List.append_nil]

/-- The layout of the text up to a point that ends its digits, which are the last lexeme. -/
def cutAtPoint (layout : Layout source) {whole after : List Char} (hne : whole ≠ [])
    (hwhole : ∀ c ∈ whole, c ∈ digits) (hrest : layout.rest = whole ++ after) :
    Layout (Piece.textOf layout.pieces ++ layout.gap ++ whole) where
  pieces := layout.pieces ++ [⟨layout.gap, .plain .int whole⟩]
  gap := []
  rest := []
  pieces_stand := by
    have hpieces := layout.pieces_stand
    have hgap := layout.gap_stands
    have hint : (Lexeme.plain .int whole).Stands [] := .int hne hwhole (not_startsIn_nil _)
    rw [hrest] at hpieces hgap
    rw [Piece.stand_append_iff, Piece.stand_cons_iff]
    refine ⟨hpieces.of_follows ?_, ⟨?_, hint⟩, trivial⟩
    · rw [← List.append_assoc]
      simpa [Piece.textOf, Piece.text, Lexeme.plain] using
        follows_append (layout.gap ++ whole) after
    · exact hgap.of_startsIn fun _ => hint.startsIn_ne_newline after
  gap_stands := .nil []
  text_eq := by
    simp [Piece.textOf_append, Piece.textOf, Piece.text, Lexeme.plain]

theorem lex_cutAtRest (layout : Layout source) :
    lex (String.ofList (Piece.textOf layout.pieces ++ layout.gap)) =
      .ok (layout.tokens ++ [.endOfInput layout.place]) :=
  lex_ofList_of_complete layout.cutAtRest rfl

theorem lex_cutAtPoint (layout : Layout source) {whole after : List Char} (hne : whole ≠ [])
    (hwhole : ∀ c ∈ whole, c ∈ digits) (hrest : layout.rest = whole ++ after) :
    let front := Piece.textOf layout.pieces ++ layout.gap ++ whole
    lex (String.ofList front) = .ok (layout.tokens ++
      [(Lexeme.plain .int whole).token layout.place (.after front),
        .endOfInput (.after front)]) := by
  intro front
  rw [lex_ofList_of_complete (layout.cutAtPoint hne hwhole hrest) rfl]
  simp only [tokens, cutAtPoint, Piece.tokens_append, Piece.tokens, Piece.token_eq,
    List.nil_append, place, List.append_assoc, front]
  rfl

/-- The layout up to the gap before a token. -/
theorem exists_layout_before (layout : Layout source) {i : Nat} {t : Token}
    (h : layout.tokens[i]? = some t) :
    ∃ (shorter : Layout source) (lexeme : Lexeme) (finish : Mark),
      shorter.tokens = layout.tokens.take i ∧ t = lexeme.token shorter.place finish := by
  have hstand := layout.pieces_stand
  have htext := layout.text_eq
  obtain ⟨ps, p, qs, hpieces, rfl, rfl⟩ := Piece.exists_append_of_tokens h
  rw [hpieces, Piece.stand_append_iff, Piece.stand_cons_iff] at hstand
  rw [hpieces, Piece.textOf_append] at htext
  obtain ⟨hps, ⟨hgap, -⟩, -⟩ := hstand
  have hmore : Piece.textOf (p :: qs) ++ (layout.gap ++ layout.rest) =
      p.gap ++ (p.lexeme.text ++ (Piece.textOf qs ++ (layout.gap ++ layout.rest))) := by
    rw [Piece.textOf, Piece.text]
    simp only [List.append_assoc]
  rw [hmore] at hps
  rw [List.append_assoc, hmore] at htext
  refine ⟨⟨ps, p.gap, _, hps, hgap, htext⟩, p.lexeme, _, ?_, Piece.token_eq _ p⟩
  rw [tokens, tokens, hpieces, Piece.tokens_append,
    List.take_left' (Piece.length_tokens [] ps)]

theorem not_mem_digits_of_getLast? (layout : Layout source) (h : StartsIn (· ∈ digits) layout.rest)
    {c : Char} (hlast : (Piece.textOf layout.pieces ++ layout.gap).getLast? = some c) :
    c ∉ digits := by
  by_cases hgap : layout.gap = []
  · have hstand := layout.pieces_stand
    rw [hgap, List.append_nil] at hlast
    rw [hgap, List.nil_append] at hstand
    obtain ⟨lexeme, hlexeme, hend⟩ := hstand.exists_last hlast
    exact hlexeme.not_mem_digits_of_getLast? h hend
  · rw [List.getLast?_append_of_ne_nil _ hgap] at hlast
    have hline : StartsIn (· ≠ '\n') layout.rest := by
      obtain ⟨d, hd, hdigit⟩ := h
      exact ⟨d, hd, of_listed hdigit (by decide)⟩
    exact of_listed (layout.gap_stands.mem_spaces_of_getLast? hline hlast) (by decide)

end Layout

section Cuts

variable {s : String}

theorem lex_upTo?_place (layout : Layout s.toList) :
    ∃ front, upTo? layout.place.offset s = some front ∧
      lex front = .ok (layout.tokens ++ [.endOfInput layout.place]) := by
  have htext : s.toList = Piece.textOf layout.pieces ++ layout.gap ++ layout.rest := by
    rw [List.append_assoc, layout.text_eq]
  exact ⟨_, upTo?_byteSize htext, layout.lex_cutAtRest⟩

/-- Up to a point that no digit follows, the digits before it are read as a number. -/
theorem lex_upTo?_point (layout : Layout s.toList) {whole : List Char} {point : Char}
    (h : Fault.Stands (.malformedFloat whole point) layout.rest) :
    let e := LexError.ofFault (.malformedFloat whole point) layout.place
    ∃ front, upTo? e.offset s = some front ∧ lastDigits front.toList = whole ∧ whole ≠ [] ∧
      lex front = .ok (layout.tokens ++
        [⟨.int, String.ofList whole, e.line, e.column - whole.length,
          ⟨e.offset - byteSize whole, e.offset⟩⟩, .endAt e.offset e.line e.column]) := by
  intro e
  obtain ⟨after, hrest, hne, hwhole, -⟩ := h.exists_point
  let front := Piece.textOf layout.pieces ++ layout.gap ++ whole
  have htext : s.toList = front ++ point :: after := by
    rw [List.append_assoc, List.append_assoc, ← hrest, layout.text_eq]
  have hplace : layout.place.past whole = .after front := Mark.past_after _ whole
  have hoffset : e.offset = byteSize front := congrArg Mark.offset hplace
  have hend : Token.endAt e.offset e.line e.column = .endOfInput (.after front) :=
    congrArg Token.endOfInput hplace
  refine ⟨String.ofList front, ?_, ?_, hne, ?_⟩
  · rw [hoffset]
    exact upTo?_byteSize htext
  · rw [String.toList_ofList]
    refine lastDigits_append hwhole fun c hc => layout.not_mem_digits_of_getLast? ?_ hc
    obtain ⟨c, cs, rfl⟩ := List.exists_cons_of_ne_nil hne
    rw [hrest, List.cons_append, startsIn_cons]
    exact hwhole c List.mem_cons_self
  · rw [layout.lex_cutAtPoint hne hwhole hrest,
      ← Lexeme.token_before_point point layout.place hwhole, hend, hplace]

end Cuts

/-- A text cut off where a token begins is read as the tokens before it, and a text cut off at its
first error as all the tokens before the error; the end of the input comes at the cut. If the error
is a point, the cut leaves one number more: the digits in front of the point. -/
theorem lex_cut_at_report (s : String) :
    let tokens := Reader.tokensRead s.toList
    (∀ i t, tokens[i]? = some t → ∃ front, upTo? t.span.start s = some front ∧
        lex front = .ok (tokens.take i ++ [.endAt t.span.start t.line t.column])) ∧
      ∀ e, lex s = .error e → ∃ front, upTo? e.offset s = some front ∧
        (e.kind ≠ .malformedFloat →
          lex front = .ok (tokens ++ [.endAt e.offset e.line e.column])) ∧
        (e.kind = .malformedFloat →
          let whole := lastDigits front.toList
          whole ≠ [] ∧ lex front = .ok (tokens ++
            [⟨.int, String.ofList whole, e.line, e.column - whole.length,
              ⟨e.offset - byteSize whole, e.offset⟩⟩, .endAt e.offset e.line e.column])) := by
  intro tokens
  constructor
  · intro i t ht
    obtain ⟨layout, hhalts⟩ := Layout.exists_halts s.toList
    have htokens : tokens = layout.tokens := layout.filter_run_tokens hhalts
    rw [htokens] at ht ⊢
    obtain ⟨shorter, lexeme, finish, hshorter, rfl⟩ := layout.exists_layout_before ht
    rw [← hshorter]
    exact lex_upTo?_place shorter
  · intro e he
    obtain ⟨layout, fault, hfault, rfl⟩ := exists_layout_of_lex_error he
    have htokens : tokens = layout.tokens := layout.filter_run_tokens (Or.inr ⟨fault, hfault⟩)
    rw [htokens]
    cases fault with
    | malformedFloat whole point =>
        obtain ⟨front, hfront, hdigits, hne, hlex⟩ := lex_upTo?_point layout hfault
        refine ⟨front, hfront, fun hkind => absurd rfl hkind, fun _ => ?_⟩
        rw [hdigits]
        exact ⟨hne, hlex⟩
    | unrecognized c =>
        obtain ⟨front, hfront, hlex⟩ := lex_upTo?_place layout
        exact ⟨front, hfront, fun _ => hlex, nofun⟩
    | unterminatedString text =>
        obtain ⟨front, hfront, hlex⟩ := lex_upTo?_place layout
        exact ⟨front, hfront, fun _ => hlex, nofun⟩

/-- Cut between a word and a sign that touches it, and at the point behind digits of both
scripts. -/
theorem lex_cut_at_report_sample :
    let tokens := Reader.tokensRead "甲＝=#c\n１2．".toList
    tokens[1]? = some ⟨.binOp, "＝=", 1, 2, ⟨3, 7⟩⟩ ∧
      (∃ front, upTo? 3 "甲＝=#c\n１2．" = some front ∧
        lex front = .ok (tokens.take 1 ++ [.endAt 3 1 2])) ∧
      ∃ front, upTo? 14 "甲＝=#c\n１2．" = some front ∧
        lex front = .ok (tokens ++ [⟨.int, "１2", 2, 1, ⟨10, 14⟩⟩, .endAt 14 2 3]) := by
  intro tokens
  have hcut := lex_cut_at_report "甲＝=#c\n１2．"
  have hsign : tokens[1]? = some ⟨.binOp, "＝=", 1, 2, ⟨3, 7⟩⟩ := by decide +kernel
  have herror : lex "甲＝=#c\n１2．" =
      .error ⟨.malformedFloat, "expected a digit after the decimal point", 2, 3, 14, 3⟩ := by
    decide +kernel
  obtain ⟨front, hfront, -, hlex⟩ := hcut.2 _ herror
  have hdigits : (upTo? 14 "甲＝=#c\n１2．").map (fun front => lastDigits front.toList) =
      some ['１', '2'] := by decide +kernel
  rw [hfront, Option.map_some, Option.some.injEq] at hdigits
  obtain ⟨-, hlex⟩ := hlex rfl
  rw [hdigits] at hlex
  exact ⟨hsign, hcut.1 1 _ hsign, front, hfront, hlex⟩

end TwinScript
