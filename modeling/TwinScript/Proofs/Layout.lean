import Mathlib.Data.List.Basic
import TwinScript.Proofs.Steps

/-!
# Layouts of a text

A layout cuts a text into gaps and lexemes of the grammar, up to a place from which the rest is
still to be read. A reader follows any layout of its text: it returns the tokens of the layout and
goes on with the rest. Since every text has a layout whose rest is empty or starts with a fault, and
only one, layouts describe the whole run of a reader.
-/
namespace TwinScript
open Text

/-- Reading cannot go on: the text is at its end, or a fault stands at its head. -/
def Halts (rest : List Char) : Prop := rest = [] ∨ ∃ fault : Fault, fault.Stands rest

theorem Halts.not_startsIn_part {rest : List Char} (h : Halts rest) : ¬ StartsIn Gap.Part rest := by
  rcases h with rfl | ⟨fault, hfault⟩
  · exact not_startsIn_nil _
  · exact hfault.not_startsIn_part

theorem Halts.not_stands {lexeme : Lexeme} {rest : List Char} (h : Halts (lexeme.text ++ rest)) :
    ¬ lexeme.Stands rest := by
  intro hlexeme
  rcases h with hnil | ⟨fault, hfault⟩
  · exact hlexeme.text_ne_nil (List.append_eq_nil_iff.1 hnil).1
  · exact hlexeme.not_fault fault hfault

/-- The token that a lexeme gives behind a text. Its place is counted in that text: newlines, the
characters since the last of them, and bytes. -/
def Lexeme.written (lexeme : Lexeme) (before : List Char) : Token :=
  { kind := lexeme.kind
    value := String.ofList lexeme.value
    line := before.count '\n' + 1
    column := (lastLine before).length + 1
    span := ⟨byteSize before, byteSize before + byteSize lexeme.text⟩ }

theorem Lexeme.token_after (lexeme : Lexeme) (before : List Char) :
    lexeme.token (.after before) (.after (before ++ lexeme.text)) = lexeme.written before := by
  simp only [token, Mark.after, written, byteSize_append]

/-- A lexeme with the gap before it. -/
@[ext] structure Piece where
  gap : List Char
  lexeme : Lexeme

namespace Piece

def text (p : Piece) : List Char := p.gap ++ p.lexeme.text

def textOf : List Piece → List Char
  | [] => []
  | p :: ps => p.text ++ textOf ps

/-- The pieces stand one after the other, with `rest` after the last. -/
def Stand : List Piece → List Char → Prop
  | [], _ => True
  | p :: ps, rest => Gap.Stands p.gap (p.lexeme.text ++ (textOf ps ++ rest)) ∧
      p.lexeme.Stands (textOf ps ++ rest) ∧ Stand ps rest

def Heads (p : Piece) (rest : List Char) : Prop :=
  Gap.Stands p.gap (p.lexeme.text ++ rest) ∧ p.lexeme.Stands rest

def token (before : List Char) (p : Piece) : Token := p.lexeme.written (before ++ p.gap)

theorem token_eq (before : List Char) (p : Piece) :
    p.token before =
      p.lexeme.token (.after (before ++ p.gap)) (.after (before ++ p.text)) := by
  rw [token, ← Lexeme.token_after, List.append_assoc, text]

theorem stop_token (before : List Char) (p : Piece) :
    (p.token before).span.stop = byteSize (before ++ p.text) := by
  rw [token_eq]
  rfl

def tokens (before : List Char) : List Piece → List Token
  | [] => []
  | p :: ps => p.token before :: tokens (before ++ p.text) ps

theorem stand_cons_iff (p : Piece) (ps : List Piece) (rest : List Char) :
    Stand (p :: ps) rest ↔ p.Heads (textOf ps ++ rest) ∧ Stand ps rest :=
  and_assoc.symm

theorem textOf_append (ps qs : List Piece) : textOf (ps ++ qs) = textOf ps ++ textOf qs := by
  induction ps with
  | nil => rfl
  | cons p ps ih => rw [List.cons_append, textOf, textOf, ih, List.append_assoc]

theorem tokens_append (before : List Char) (ps qs : List Piece) :
    tokens before (ps ++ qs) = tokens before ps ++ tokens (before ++ textOf ps) qs := by
  induction ps generalizing before with
  | nil => simp [tokens, textOf]
  | cons p ps ih => simp only [List.cons_append, tokens, ih, textOf, List.append_assoc]

theorem stand_append_iff (ps qs : List Piece) (rest : List Char) :
    Stand (ps ++ qs) rest ↔ Stand ps (textOf qs ++ rest) ∧ Stand qs rest := by
  induction ps with
  | nil => simp [Stand]
  | cons p ps ih =>
      simp only [List.cons_append, stand_cons_iff, ih, textOf_append, List.append_assoc, and_assoc]

theorem Stand.exists_last {pieces : List Piece} {rest : List Char} {c : Char}
    (h : Stand pieces rest) (hlast : (textOf pieces).getLast? = some c) :
    ∃ lexeme : Lexeme, lexeme.Stands rest ∧ lexeme.text.getLast? = some c := by
  induction pieces with
  | nil => cases hlast
  | cons p ps ih =>
      obtain ⟨hp, hps⟩ := (stand_cons_iff p ps rest).1 h
      rw [textOf] at hlast
      by_cases hmore : textOf ps = []
      · rw [hmore, List.append_nil, text,
          List.getLast?_append_of_ne_nil _ hp.2.text_ne_nil] at hlast
        rw [hmore] at hp
        exact ⟨p.lexeme, hp.2, hlast⟩
      · rw [List.getLast?_append_of_ne_nil _ hmore] at hlast
        exact ih hps hlast

theorem Heads.unique {p p' : Piece} {rest rest' : List Char} (h : p.Heads rest)
    (h' : p'.Heads rest') (heq : p.text ++ rest = p'.text ++ rest') : p = p' ∧ rest = rest' := by
  obtain ⟨hgap, hlexeme⟩ := h
  obtain ⟨hgap', hlexeme'⟩ := h'
  rw [text, text, List.append_assoc, List.append_assoc] at heq
  obtain ⟨hg, htail⟩ := Gap.stands_unique _ _ _ _ heq hgap hlexeme.not_startsIn_part
    hgap' hlexeme'.not_startsIn_part
  obtain ⟨hl, hrest⟩ := hlexeme.unique hlexeme' htail
  exact ⟨Piece.ext hg hl, hrest⟩

theorem Heads.not_halts {p : Piece} {rest gap rest' : List Char} (h : p.Heads rest)
    (hgap : Gap.Stands gap rest') (hrest' : Halts rest') : gap ++ rest' ≠ p.text ++ rest := by
  intro heq
  rw [text, List.append_assoc] at heq
  obtain ⟨-, rfl⟩ := Gap.stands_unique _ _ _ _ heq hgap hrest'.not_startsIn_part h.1
    h.2.not_startsIn_part
  exact hrest'.not_stands h.2

theorem not_stand_cons_of_halts (p : Piece) (ps : List Piece) (gap rest rest' : List Char)
    (hgap : Gap.Stands gap rest) (hrest : Halts rest) (h : Stand (p :: ps) rest') :
    gap ++ rest ≠ textOf (p :: ps) ++ rest' := by
  rw [textOf, List.append_assoc]
  exact ((stand_cons_iff p ps rest').1 h).1.not_halts hgap hrest

/-- A text is cut into pieces in only one way, up to where reading halts. -/
theorem stand_unique (ps ps' : List Piece) (gap gap' rest rest' : List Char)
    (h : Stand ps (gap ++ rest)) (hgap : Gap.Stands gap rest) (hrest : Halts rest)
    (h' : Stand ps' (gap' ++ rest')) (hgap' : Gap.Stands gap' rest') (hrest' : Halts rest')
    (heq : textOf ps ++ (gap ++ rest) = textOf ps' ++ (gap' ++ rest')) :
    ps = ps' ∧ gap = gap' ∧ rest = rest' := by
  induction ps generalizing ps' with
  | nil =>
      cases ps' with
      | nil =>
          obtain ⟨rfl, rfl⟩ := Gap.stands_unique gap gap' rest rest' heq hgap
            hrest.not_startsIn_part hgap' hrest'.not_startsIn_part
          exact ⟨rfl, rfl, rfl⟩
      | cons p' ps' => exact absurd heq (not_stand_cons_of_halts p' ps' gap rest _ hgap hrest h')
  | cons p ps ih =>
      cases ps' with
      | nil => exact absurd heq.symm (not_stand_cons_of_halts p ps gap' rest' _ hgap' hrest' h)
      | cons p' ps' =>
          obtain ⟨hp, hps⟩ := (stand_cons_iff p ps _).1 h
          obtain ⟨hp', hps'⟩ := (stand_cons_iff p' ps' _).1 h'
          rw [textOf, textOf, List.append_assoc, List.append_assoc] at heq
          obtain ⟨rfl, hmore⟩ := hp.unique hp' heq
          obtain ⟨rfl, rfl, rfl⟩ := ih ps' hps hps' hmore
          exact ⟨rfl, rfl, rfl⟩

end Piece

/-- A text cut into pieces, one more gap, and a rest. -/
@[ext] structure Layout (source : List Char) where
  pieces : List Piece
  gap : List Char
  rest : List Char
  pieces_stand : Piece.Stand pieces (gap ++ rest)
  gap_stands : Gap.Stands gap rest
  text_eq : Piece.textOf pieces ++ (gap ++ rest) = source

namespace Layout

variable {source : List Char}

def place (layout : Layout source) : Mark := .after (Piece.textOf layout.pieces ++ layout.gap)

def tokens (layout : Layout source) : List Token := Piece.tokens [] layout.pieces

def cons (gap : List Char) (lexeme : Lexeme) (layout : Layout source)
    (hgap : Gap.Stands gap (lexeme.text ++ source)) (h : lexeme.Stands source) :
    Layout (gap ++ (lexeme.text ++ source)) where
  pieces := ⟨gap, lexeme⟩ :: layout.pieces
  gap := layout.gap
  rest := layout.rest
  pieces_stand := by
    refine ⟨?_, ?_, layout.pieces_stand⟩
    · rwa [layout.text_eq]
    · rwa [layout.text_eq]
  gap_stands := layout.gap_stands
  text_eq := by rw [Piece.textOf, Piece.text, List.append_assoc, List.append_assoc, layout.text_eq]

/-- Every text has a layout up to where reading halts. -/
theorem exists_halts (source : List Char) : ∃ layout : Layout source, Halts layout.rest := by
  obtain ⟨gap, tail, rfl, hgap, htail⟩ := Gap.exists_gap source
  cases tail with
  | nil => exact ⟨⟨[], gap, [], trivial, hgap, rfl⟩, Or.inl rfl⟩
  | cons c after =>
      rw [startsIn_cons] at htail
      rcases Lexeme.decided_cons c after htail with ⟨lexeme, rest, heq, h⟩ | ⟨fault, h⟩
      · have hpos := List.length_pos_iff.2 h.text_ne_nil
        have hlength : rest.length < (gap ++ c :: after).length := by
          rw [heq, List.length_append, List.length_append]
          omega
        obtain ⟨layout, hhalts⟩ := exists_halts rest
        rw [heq] at hgap ⊢
        exact ⟨layout.cons gap lexeme hgap h, hhalts⟩
      · exact ⟨⟨[], gap, c :: after, trivial, hgap, rfl⟩, Or.inr ⟨fault, h⟩⟩
termination_by source.length

theorem eq_of_halts (layout layout' : Layout source) (h : Halts layout.rest)
    (h' : Halts layout'.rest) : layout = layout' := by
  obtain ⟨hpieces, hgap, hrest⟩ := Piece.stand_unique _ _ _ _ _ _ layout.pieces_stand
    layout.gap_stands h layout'.pieces_stand layout'.gap_stands h'
    (layout.text_eq.trans layout'.text_eq.symm)
  exact Layout.ext hpieces hgap hrest

end Layout
end TwinScript
