import TwinScript.Proofs.Runs
import TwinScript.Proofs.Sessions

/-!
# Spans tile the source

Each token covers the bytes of its lexeme, and the tokens of a session lie in the source one after
the other, also when errors come between them. The invariant of the induction is the place of the
reader: the source is what the reader has passed and what is left, and every token so far ends
before that place. When the whole source can be read, the spans and the gaps between them make up
the source.
-/
namespace TwinScript
open Script Text

/-- The span of a token lies in the source, and the text it covers is that of the token. -/
structure Token.Fits (source : List Char) (t : Token) : Prop where
  start_le_stop : t.span.start ≤ t.span.stop
  stop_le_size : t.span.stop ≤ byteSize source
  start_boundary : (cut? t.span.start source).isSome
  stop_boundary : (cut? t.span.stop source).isSome
  empty_iff : t.span.isEmpty = true ↔ t.kind = .endOfInput
  value_eq : t.kind ≠ .string → t.kind ≠ .endOfInput →
    slice? t.span.start t.span.stop source = some t.value.toList
  quoted : t.kind = .string → ∃ quote ∈ quotes, ∃ body,
    slice? t.span.start t.span.stop source = some (quote :: (body ++ [quote]))

theorem Text.isSome_cut? (front rest : List Char) :
    (cut? (byteSize front) (front ++ rest)).isSome := by
  rw [cut?_byteSize_append]
  rfl

theorem Lexeme.Stands.value_eq_text {lexeme : Lexeme} {rest : List Char} (h : lexeme.Stands rest)
    (hkind : lexeme.kind ≠ .string) : lexeme.value = lexeme.text := by
  cases h with
  | string hquote hbody => exact absurd rfl hkind
  | _ => rfl

theorem Lexeme.fits_token {lexeme : Lexeme} {rest : List Char} (h : lexeme.Stands rest)
    (front : List Char) :
    (lexeme.token (.after front) (.after (front ++ lexeme.text))).Fits
      (front ++ (lexeme.text ++ rest)) := by
  obtain ⟨hend, hstring⟩ := h.kind_ne
  have hsize : byteSize lexeme.text ≠ 0 := fun hzero => h.text_ne_nil (byteSize_eq_zero_iff.1 hzero)
  have hslice := slice?_append front lexeme.text rest
  rw [← byteSize_append, List.append_assoc] at hslice
  refine ⟨?_, ?_, ?_, ?_, ?_, ?_, ?_⟩
  · change byteSize front ≤ byteSize (front ++ lexeme.text)
    rw [byteSize_append]
    omega
  · change byteSize (front ++ lexeme.text) ≤ byteSize (front ++ (lexeme.text ++ rest))
    simp only [byteSize_append]
    omega
  · exact isSome_cut? front _
  · rw [← List.append_assoc]
    exact isSome_cut? (front ++ lexeme.text) rest
  · have hne : ¬ byteSize front = byteSize (front ++ lexeme.text) := by
      rw [byteSize_append]
      omega
    constructor
    · intro hempty
      exact absurd (beq_iff_eq.1 hempty) hne
    · intro hkind
      exact absurd hkind hend
  · intro hkind _
    change slice? (byteSize front) (byteSize (front ++ lexeme.text)) _ =
      some (String.ofList lexeme.value).toList
    rw [hslice, h.value_eq_text hkind, String.toList_ofList]
  · intro hkind
    obtain ⟨quote, body, value, hquote, -, hlexeme⟩ := hstring hkind
    refine ⟨quote, hquote, body, ?_⟩
    change slice? (byteSize front) (byteSize (front ++ lexeme.text)) _ = _
    rw [hslice, hlexeme]

theorem Token.fits_endOfInput (source : List Char) :
    (endOfInput (.after source)).Fits source := by
  have hcut := isSome_cut? source []
  rw [List.append_nil] at hcut
  refine ⟨Nat.le_refl _, Nat.le_refl _, hcut, hcut, ?_, fun _ hkind => absurd rfl hkind, nofun⟩
  exact ⟨fun _ => rfl, fun _ => beq_self_eq_true _⟩

namespace Reader

theorem Step.fits {before rest : List Char} {finished : Bool} {result : Except LexError Token}
    {r : Reader} (h : Step before finished rest result r) :
    ∃ passed rest' finished', rest = passed ++ rest' ∧
      r = between (before ++ passed) rest' finished' ∧
      ∀ t, result = .ok t → t.Fits (before ++ rest) ∧ byteSize before ≤ t.span.start ∧
        t.span.stop ≤ byteSize (before ++ passed) := by
  have hle : ∀ more : List Char, byteSize before ≤ byteSize (before ++ more) := by
    intro more
    rw [byteSize_append]
    omega
  cases h with
  | @token gap rest lexeme hgap h =>
      refine ⟨gap ++ lexeme.text, rest, finished, by simp, by simp, ?_⟩
      rintro t ⟨⟩
      rw [← List.append_assoc before gap, ← List.append_assoc before gap]
      exact ⟨Lexeme.fits_token h (before ++ gap), hle gap, Nat.le_refl _⟩
  | @fault gap rest fault hgap h =>
      exact ⟨gap ++ fault.passed, rest, finished, by simp, by simp, nofun⟩
  | endOfInput hgap hfinished =>
      refine ⟨rest, [], true, by simp, rfl, ?_⟩
      rintro t ⟨⟩
      exact ⟨Token.fits_endOfInput _, hle rest, Nat.le_refl _⟩
  | pastEnd hgap hfinished => exact ⟨rest, [], true, by simp, rfl, nofun⟩

def tokensOf (results : List (Except LexError Token)) : List Token :=
  results.filterMap Except.toOption

theorem Reads.fits {before rest : List Char} {finished : Bool}
    {results : List (Except LexError Token)} {r : Reader}
    (h : Reads (between before rest finished) results r) :
    (∀ t ∈ tokensOf results, t.Fits (before ++ rest) ∧ byteSize before ≤ t.span.start) ∧
      (tokensOf results).Pairwise (fun t u => t.span.stop ≤ u.span.start) := by
  generalize hr : between before rest finished = start at h
  induction h generalizing before rest finished with
  | nil => exact ⟨nofun, .nil⟩
  | @cons _ r' _ result results hread more ih =>
      subst hr
      obtain ⟨passed, rest', finished', rfl, rfl, htoken⟩ := (read_eq_iff_step.1 hread).fits
      obtain ⟨hlater, hpairs⟩ := ih rfl
      rw [List.append_assoc] at hlater
      have hlater' : ∀ u ∈ tokensOf results, u.Fits (before ++ (passed ++ rest')) ∧
          byteSize before ≤ u.span.start := by
        intro u hu
        obtain ⟨hfits, hstart⟩ := hlater u hu
        rw [byteSize_append] at hstart
        exact ⟨hfits, by omega⟩
      cases result with
      | error e => exact ⟨hlater', hpairs⟩
      | ok t =>
          obtain ⟨hfits, hstart, hstop⟩ := htoken t rfl
          constructor
          · intro u hu
            rcases List.mem_cons.1 hu with rfl | hu
            · exact ⟨hfits, hstart⟩
            · exact hlater' u hu
          · refine List.pairwise_cons.2 ⟨fun u hu => ?_, hpairs⟩
            exact Nat.le_trans hstop (hlater u hu).2

theorem session_fits (source : List Char) (calls : List Call) :
    let returned := tokensOf ((ofText source).results calls)
    (∀ t ∈ returned, t.Fits source) ∧
      returned.Pairwise (fun t u => t.span.stop ≤ u.span.start) := by
  obtain ⟨results, hreads, hsub, -⟩ := reads_session (ofText source) calls
  have htokens := hsub.filterMap Except.toOption
  rw [ofText_eq_between] at hreads
  obtain ⟨hfits, hpairs⟩ := hreads.fits
  exact ⟨fun t ht => (hfits t (htokens.subset ht)).1, hpairs.sublist htokens⟩

end Reader

/-- The text before each token and the text it covers, cut out of the source at the spans, from a
byte offset on. -/
def Token.tiles? (source : List Char) (start : Nat) :
    List Token → Option (List (List Char × List Char))
  | [] => some []
  | t :: ts => do
    let gap ← slice? start t.span.start source
    let text ← slice? t.span.start t.span.stop source
    let more ← tiles? source t.span.stop ts
    some ((gap, text) :: more)

namespace Text

def tilesText : List (List Char × List Char) → List Char
  | [] => []
  | (gap, text) :: more => gap ++ (text ++ tilesText more)

/-- Each text before a token is a gap. -/
def TilesStand : List (List Char × List Char) → Prop
  | [] => True
  | (gap, text) :: more => Gap.Stands gap (text ++ tilesText more) ∧ TilesStand more

end Text

def Piece.tiles (gap : List Char) : List Piece → List (List Char × List Char)
  | [] => [(gap, [])]
  | p :: ps => (p.gap, p.lexeme.text) :: tiles gap ps

theorem Piece.tilesText_tiles (gap : List Char) (pieces : List Piece) :
    tilesText (tiles gap pieces) = textOf pieces ++ gap := by
  induction pieces with
  | nil => simp [tiles, tilesText, textOf]
  | cons p ps ih => simp only [tiles, tilesText, ih, textOf, text, List.append_assoc]

theorem Piece.tilesStand_tiles (gap : List Char) (pieces : List Piece) (h : Stand pieces gap)
    (hgap : Gap.Stands gap []) : TilesStand (tiles gap pieces) := by
  induction pieces with
  | nil => exact ⟨hgap, trivial⟩
  | cons p ps ih =>
      obtain ⟨hpgap, -, hps⟩ := h
      refine ⟨?_, ih hps⟩
      rwa [tilesText_tiles]

theorem Piece.tiles?_tokens (before gap : List Char) (pieces : List Piece) :
    Token.tiles? (before ++ (textOf pieces ++ gap)) (byteSize before)
      (tokens before pieces ++ [.endOfInput (.after (before ++ (textOf pieces ++ gap)))]) =
        some (tiles gap pieces) := by
  induction pieces generalizing before with
  | nil =>
      have hgap := slice?_append before gap []
      have hend := slice?_append (before ++ gap) [] []
      simp only [List.append_nil, byteSize_nil, Nat.add_zero, ← byteSize_append] at hgap hend
      simp only [tokens, textOf, List.nil_append, Token.tiles?, Token.endOfInput,
        Mark.offset_after, hgap, hend, tiles, Option.bind_eq_bind, Option.bind_some]
  | cons p ps ih =>
      have hgap := slice?_append before p.gap (p.lexeme.text ++ (textOf ps ++ gap))
      have htext := slice?_append (before ++ p.gap) p.lexeme.text (textOf ps ++ gap)
      have hmore := ih (before ++ (p.gap ++ p.lexeme.text))
      simp only [List.append_assoc, ← byteSize_append] at hgap htext hmore
      simp only [tokens, token_eq, textOf, text, List.cons_append, Token.tiles?, Lexeme.token,
        Mark.offset_after, List.append_assoc, hgap, htext, hmore, tiles, Option.bind_eq_bind,
        Option.bind_some]

theorem Layout.exists_tiles {source : List Char} (layout : Layout source) (h : layout.rest = []) :
    ∃ tiles, Token.tiles? source 0 (layout.tokens ++ [.endOfInput (.after source)]) = some tiles ∧
      TilesStand tiles ∧ tilesText tiles = source := by
  have hpieces := layout.pieces_stand
  have hgap := layout.gap_stands
  have htext := layout.text_eq
  rw [h, List.append_nil] at hpieces htext
  rw [h] at hgap
  refine ⟨Piece.tiles layout.gap layout.pieces, ?_, ?_, ?_⟩
  · have htiles := Piece.tiles?_tokens [] layout.gap layout.pieces
    rwa [List.nil_append, htext] at htiles
  · exact Piece.tilesStand_tiles layout.gap layout.pieces hpieces hgap
  · rw [Piece.tilesText_tiles, htext]

/-- The tokens of any session fit the source and lie in it in the order in which they are returned.
When the source can be read, cutting it at the spans leaves only gaps between the tokens, and the
cuts put together are the source. -/
theorem spans_tile (s : String) :
    (∀ calls, let returned := Reader.tokensOf ((Reader.ofText s.toList).results calls)
      (∀ t ∈ returned, t.Fits s.toList) ∧
        returned.Pairwise (fun t u => t.span.stop ≤ u.span.start)) ∧
      ∀ tokens, lex s = .ok tokens →
        (∃ tiles, Token.tiles? s.toList 0 tokens = some tiles ∧ TilesStand tiles ∧
          tilesText tiles = s.toList) ∧
        ∃ last, tokens.getLast? = some last ∧ last.kind = .endOfInput ∧
          last.span = ⟨s.utf8ByteSize, s.utf8ByteSize⟩ := by
  refine ⟨Reader.session_fits s.toList, ?_⟩
  intro tokens htokens
  obtain ⟨layout, hrest, rfl⟩ := exists_layout_of_lex_ok htokens
  refine ⟨layout.exists_tiles hrest, _, List.getLast?_concat, rfl, ?_⟩
  rw [← byteSize_toList]
  rfl

/-- A string after a number that ends in a point, and a text with a string and an open comment. -/
theorem spans_tile_sample :
    (∃ t ∈ Reader.tokensOf ((Reader.ofText "１.”あ”".toList).results [.readAll, .read, .readAll]),
      t.kind = .string ∧ t.Fits "１.”あ”".toList) ∧
    ∃ tokens, lex "x ”あ”＃" = .ok tokens ∧
      ∃ tiles, Token.tiles? "x ”あ”＃".toList 0 tokens = some tiles ∧ TilesStand tiles ∧
        tilesText tiles = "x ”あ”＃".toList := by
  constructor
  · have hmem : ⟨.string, "あ", 1, 3, ⟨4, 13⟩⟩ ∈
        Reader.tokensOf ((Reader.ofText "１.”あ”".toList).results [.readAll, .read, .readAll]) := by
      decide +kernel
    exact ⟨_, hmem, rfl, ((spans_tile "１.”あ”").1 _).1 _ hmem⟩
  · have hlex : lex "x ”あ”＃" = .ok [⟨.identifier, "x", 1, 1, ⟨0, 1⟩⟩,
        ⟨.string, "あ", 1, 3, ⟨2, 11⟩⟩, ⟨.endOfInput, "EOF", 1, 7, ⟨14, 14⟩⟩] := by
      decide +kernel
    exact ⟨_, hlex, ((spans_tile _).2 _ hlex).1⟩

end TwinScript
