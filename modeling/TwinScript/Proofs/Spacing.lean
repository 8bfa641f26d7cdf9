import Mathlib.Data.List.Forall2
import TwinScript.Proofs.Lookahead
import TwinScript.Proofs.Runs

/-!
# Texts with other gaps

A lexeme looks at most at the character after it, and no character of a gap can continue a lexeme.
So the lexemes of a text stay what they are when other gaps are put around and between them, also
where there was no gap before. A gap can be left out only where there was none.
-/
namespace TwinScript
open Script Text

/-- A gap that is one whatever follows it: each of its comments is ended by a newline in it. -/
inductive Gap.Closed : List Char → Prop
  | nil : Closed []
  | space {c : Char} {gap : List Char} (hc : c ∈ spaces) (h : Closed gap) : Closed (c :: gap)
  | comment {mark : Char} {body gap : List Char} (hmark : mark ∈ commentMarks) (hbody : '\n' ∉ body)
      (h : Closed gap) : Closed (mark :: (body ++ '\n' :: gap))

theorem Gap.Closed.stands {gap : List Char} (h : Closed gap) (rest : List Char) :
    Stands gap rest := by
  induction h with
  | nil => exact .nil rest
  | space hc h ih => exact .space hc ih
  | comment hmark hbody h ih =>
      refine .comment hmark hbody ?_ (.space (by decide) ih)
      rw [List.cons_append, startsIn_cons]
      exact not_not_intro rfl

theorem Gap.Stands.part_of_head? {gap rest : List Char} {c : Char} (h : Stands gap rest)
    (hc : gap.head? = some c) : Part c := by
  cases h with
  | nil => cases hc
  | space hspace h =>
      cases hc
      exact Or.inl hspace
  | comment hmark hbody hend h =>
      cases hc
      exact Or.inr hmark

def Token.text? (source : List Char) (t : Token) : Option (List Char) :=
  slice? t.span.start t.span.stop source

theorem Lexeme.text?_token (lexeme : Lexeme) (front rest : List Char) :
    (lexeme.token (.after front) (.after (front ++ lexeme.text))).text?
      (front ++ (lexeme.text ++ rest)) = some lexeme.text := by
  have hslice := slice?_append front lexeme.text rest
  rwa [← byteSize_append, List.append_assoc] at hslice

def Token.content (t : Token) : Token.Kind × String := (t.kind, t.value)

def Lexeme.content (lexeme : Lexeme) : Token.Kind × String :=
  (lexeme.kind, String.ofList lexeme.value)

/-- New gaps for the tokens of a text: one before each token but the end of the input, and a last
one, in which a comment may run to the end. Two tokens go without a gap only if they touch. -/
structure Spacing (tokens : List Token) where
  gaps : List (List Char)
  last : List Char
  length_eq : gaps.length + 1 = tokens.length
  closed : ∀ gap ∈ gaps, Gap.Closed gap
  last_stands : Gap.Stands last []
  touching : ∀ i t u, tokens[i]? = some t → tokens[i + 1]? = some u → gaps[i + 1]? = some [] →
    t.span.stop = u.span.start

namespace Spacing

variable {tokens : List Token}

def around (spacing : Spacing tokens) (texts : List (List Char)) : List Char :=
  (List.zipWith (· ++ ·) spacing.gaps texts).flatten ++ spacing.last

/-- A spacing whose inner gaps are all nonempty. -/
def ofNonempty (gaps : List (List Char)) (last : List Char)
    (length_eq : gaps.length + 1 = tokens.length) (closed : ∀ gap ∈ gaps, Gap.Closed gap)
    (last_stands : Gap.Stands last []) (inner : ∀ gap ∈ gaps.tail, gap ≠ []) : Spacing tokens where
  gaps := gaps
  last := last
  length_eq := length_eq
  closed := closed
  last_stands := last_stands
  touching := by
    intro i t u _ _ hgap
    rw [← List.getElem?_tail] at hgap
    exact absurd rfl (inner [] (List.mem_of_getElem? hgap))

end Spacing

namespace Piece

def respace (gaps : List (List Char)) (pieces : List Piece) : List Piece :=
  List.zipWith (fun gap p => ⟨gap, p.lexeme⟩) gaps pieces

theorem textOf_respace (gaps : List (List Char)) (pieces : List Piece) :
    textOf (respace gaps pieces) =
      (List.zipWith (· ++ ·) gaps (pieces.map (·.lexeme.text))).flatten := by
  induction pieces generalizing gaps with
  | nil => simp [respace, textOf]
  | cons p ps ih =>
      cases gaps with
      | nil => rfl
      | cons gap gaps =>
          have htext := ih gaps
          rw [respace] at htext
          simp only [respace, List.zipWith_cons_cons, textOf, text, List.map_cons,
            List.flatten_cons, htext]

theorem length_tokens (before : List Char) (pieces : List Piece) :
    (tokens before pieces).length = pieces.length := by
  induction pieces generalizing before with
  | nil => rfl
  | cons p ps ih => rw [tokens, List.length_cons, ih, List.length_cons]

theorem map_content_tokens (before : List Char) (pieces : List Piece) :
    (tokens before pieces).map Token.content = pieces.map (·.lexeme.content) := by
  induction pieces generalizing before with
  | nil => rfl
  | cons p ps ih =>
      rw [tokens, List.map_cons, ih, List.map_cons]
      rfl

theorem map_content_respace (gaps : List (List Char)) (pieces : List Piece)
    (hlength : gaps.length = pieces.length) :
    (respace gaps pieces).map (·.lexeme.content) = pieces.map (·.lexeme.content) := by
  induction pieces generalizing gaps with
  | nil => simp [respace]
  | cons p ps ih =>
      obtain ⟨gap, gaps, rfl⟩ := List.exists_cons_of_length_eq_add_one hlength
      have hmore := ih gaps (Nat.succ.inj hlength)
      rw [respace] at hmore
      simp only [respace, List.zipWith_cons_cons, List.map_cons, hmore]

/-- The new gap before a piece is left out only if there was none. -/
def Keeps (p : Piece) (gap : List Char) : Prop := gap = [] → p.gap = []

/-- Pieces stand with other gaps. The first gap is free, since no lexeme comes before it. -/
theorem stand_respace (gaps : List (List Char)) (pieces : List Piece) (rest last : List Char)
    (h : Stand pieces rest) (hclosed : ∀ gap ∈ gaps, Gap.Closed gap) (hlast : Gap.Stands last [])
    (hlength : gaps.length = pieces.length)
    (hkeeps : List.Forall₂ Keeps pieces.tail gaps.tail) : Stand (respace gaps pieces) last := by
  induction pieces generalizing gaps with
  | nil =>
      rw [respace, List.zipWith_nil_right]
      trivial
  | cons p ps ih =>
      obtain ⟨gap, gaps, rfl⟩ := List.exists_cons_of_length_eq_add_one hlength
      obtain ⟨-, hlexeme, hps⟩ := h
      obtain ⟨hgap, hgaps⟩ := List.forall_mem_cons.1 hclosed
      rw [List.tail_cons, List.tail_cons] at hkeeps
      refine ⟨hgap.stands _, hlexeme.of_follows ?_, ?_⟩
      · intro c hc
        cases hkeeps with
        | nil => exact Or.inl (hlast.part_of_head? hc)
        | @cons q gap' qs gaps' hq hqs =>
            have hne := hps.2.1.text_ne_nil
            obtain ⟨hgap', -⟩ := List.forall_mem_cons.1 hgaps
            by_cases hnil : gap' = []
            · -- the two lexemes touched before, and the same one follows
              right
              subst hnil
              obtain ⟨d, ds, hd⟩ := List.exists_cons_of_ne_nil hne
              simp only [textOf, text, hq rfl, hd, List.nil_append, List.cons_append,
                List.zipWith_cons_cons] at hc ⊢
              exact ⟨c, hc, Or.inl rfl⟩
            · left
              obtain ⟨d, ds, rfl⟩ := List.exists_cons_of_ne_nil hnil
              exact (hgap'.stands []).part_of_head? hc
      · apply ih gaps hps hgaps (Nat.succ.inj hlength)
        cases hkeeps with
        | nil => exact .nil
        | cons hq hqs => exact hqs

theorem keeps_of_touching (before : List Char) (gaps : List (List Char)) (pieces : List Piece)
    (hlength : gaps.length = pieces.length)
    (h : ∀ i t u, (tokens before pieces)[i]? = some t → (tokens before pieces)[i + 1]? = some u →
      gaps[i + 1]? = some [] → t.span.stop = u.span.start) :
    List.Forall₂ Keeps pieces.tail gaps.tail := by
  induction pieces generalizing before gaps with
  | nil =>
      rw [List.length_eq_zero_iff.1 hlength]
      exact .nil
  | cons p ps ih =>
      obtain ⟨gap, gaps, rfl⟩ := List.exists_cons_of_length_eq_add_one hlength
      have hlength' := Nat.succ.inj hlength
      have hmore := ih (before ++ p.text) gaps hlength' fun i t u ht hu hgap =>
        h (i + 1) t u ht hu hgap
      cases ps with
      | nil =>
          rw [List.length_eq_zero_iff.1 hlength']
          exact .nil
      | cons q qs =>
          obtain ⟨gap', gaps, rfl⟩ := List.exists_cons_of_length_eq_add_one hlength'
          refine .cons ?_ hmore
          rintro rfl
          have hspan := h 0 _ _ rfl rfl rfl
          rw [stop_token] at hspan
          change byteSize (before ++ p.text) = byteSize (before ++ p.text ++ q.gap) at hspan
          rw [byteSize_append _ q.gap] at hspan
          exact byteSize_eq_zero_iff.1 (by omega)

theorem mapM_text?_tokens (before rest : List Char) (pieces : List Piece) :
    (tokens before pieces).mapM (Token.text? (before ++ (textOf pieces ++ rest))) =
      some (pieces.map (·.lexeme.text)) := by
  induction pieces generalizing before with
  | nil => rfl
  | cons p ps ih =>
      have htext := p.lexeme.text?_token (before ++ p.gap) (textOf ps ++ rest)
      have hmore := ih (before ++ p.text)
      simp only [tokens, token_eq, textOf, text, List.append_assoc] at htext hmore ⊢
      rw [List.mapM_cons, htext, hmore]
      rfl

end Piece

namespace Layout

variable {source : List Char} (layout : Layout source)
  (spacing : Spacing (layout.tokens ++ [.endOfInput (.after source)]))

theorem length_gaps : spacing.gaps.length = layout.pieces.length := by
  have htokens : layout.tokens.length = layout.pieces.length := Piece.length_tokens [] layout.pieces
  have hlength := spacing.length_eq
  rw [List.length_append, List.length_singleton, htokens] at hlength
  omega

theorem keeps_gaps : List.Forall₂ Piece.Keeps layout.pieces.tail spacing.gaps.tail := by
  have hleft : ∀ (i : Nat) (t : Token), layout.tokens[i]? = some t →
      (layout.tokens ++ [.endOfInput (.after source)])[i]? = some t := by
    intro i t ht
    obtain ⟨hi, -⟩ := List.getElem?_eq_some_iff.1 ht
    rwa [List.getElem?_append_left hi]
  apply Piece.keeps_of_touching [] _ _ (layout.length_gaps spacing)
  intro i t u ht hu
  exact spacing.touching i t u (hleft i t ht) (hleft (i + 1) u hu)

def respace : Layout (spacing.around (layout.pieces.map (·.lexeme.text))) where
  pieces := Piece.respace spacing.gaps layout.pieces
  gap := spacing.last
  rest := []
  pieces_stand := by
    rw [List.append_nil]
    exact Piece.stand_respace _ _ _ _ layout.pieces_stand spacing.closed spacing.last_stands
      (layout.length_gaps spacing) (layout.keeps_gaps spacing)
  gap_stands := spacing.last_stands
  text_eq := by rw [List.append_nil, Piece.textOf_respace, Spacing.around]

theorem content_respace :
    (layout.respace spacing).tokens.map Token.content = layout.tokens.map Token.content := by
  calc
    _ = (Piece.respace spacing.gaps layout.pieces).map (·.lexeme.content) :=
        Piece.map_content_tokens [] _
    _ = layout.pieces.map (·.lexeme.content) :=
        Piece.map_content_respace _ _ (layout.length_gaps spacing)
    _ = layout.tokens.map Token.content := (Piece.map_content_tokens [] _).symm

theorem texts_tokens :
    ((layout.tokens ++ [Token.endOfInput (.after source)]).filter (·.kind ≠ .endOfInput)).mapM
      (Token.text? source) = some (layout.pieces.map (·.lexeme.text)) := by
  have htexts := Piece.mapM_text?_tokens [] (layout.gap ++ layout.rest) layout.pieces
  rw [List.nil_append, layout.text_eq] at htexts
  rw [layout.filter_tokens_append, Layout.tokens, htexts]

end Layout

/-- Layout does not matter: whatever gaps are put around and between the tokens of a text, the same
kinds and values are read. -/
theorem lex_respaced (s : String) (tokens : List Token) (h : lex s = .ok tokens)
    (spacing : Spacing tokens) :
    ∃ texts tokens',
      (tokens.filter (·.kind ≠ .endOfInput)).mapM (Token.text? s.toList) = some texts ∧
      lex (String.ofList (spacing.around texts)) = .ok tokens' ∧
      tokens'.map (fun t => (t.kind, t.value)) = tokens.map (fun t => (t.kind, t.value)) := by
  obtain ⟨layout, hrest, rfl⟩ := exists_layout_of_lex_ok h
  have hlex := lex_of_complete (String.ofList (spacing.around (layout.pieces.map (·.lexeme.text))))
  rw [String.toList_ofList] at hlex
  refine ⟨_, _, layout.texts_tokens, hlex (layout.respace spacing) rfl, ?_⟩
  rw [List.map_append, List.map_append]
  exact congrArg (· ++ [(Token.Kind.endOfInput, "EOF")]) (layout.content_respace spacing)

/-- Three tokens without a gap, set apart by a comment, a wide space and a newline, with a comment
after them that runs to the end. -/
theorem lex_respaced_sample :
    lex "x==1" = .ok [⟨.identifier, "x", 1, 1, ⟨0, 1⟩⟩, ⟨.binOp, "==", 1, 2, ⟨1, 3⟩⟩,
        ⟨.int, "1", 1, 4, ⟨3, 4⟩⟩, ⟨.endOfInput, "EOF", 1, 5, ⟨4, 4⟩⟩] ∧
      ∃ tokens', lex "#c\nx　==\n1＃" = .ok tokens' ∧ tokens'.map (fun t => (t.kind, t.value)) =
        [(.identifier, "x"), (.binOp, "=="), (.int, "1"), (.endOfInput, "EOF")] := by
  have hlex : lex "x==1" = .ok [⟨.identifier, "x", 1, 1, ⟨0, 1⟩⟩, ⟨.binOp, "==", 1, 2, ⟨1, 3⟩⟩,
      ⟨.int, "1", 1, 4, ⟨3, 4⟩⟩, ⟨.endOfInput, "EOF", 1, 5, ⟨4, 4⟩⟩] := by decide +kernel
  have hcomment : Gap.Closed ['#', 'c', '\n'] :=
    @Gap.Closed.comment '#' ['c'] [] (by decide) (by decide) .nil
  have hwide : Gap.Closed ['\u3000'] := .space (by decide) .nil
  have hline : Gap.Closed ['\n'] := .space (by decide) .nil
  have hlast : Gap.Stands ['＃'] [] :=
    @Gap.Stands.comment '＃' [] [] [] (by decide) (by decide) (by decide) (.nil [])
  obtain ⟨texts, tokens', htexts, hlex', hcontent⟩ := lex_respaced "x==1" _ hlex
    (.ofNonempty [['#', 'c', '\n'], ['\u3000'], ['\n']] ['＃'] rfl
      (by simp [hcomment, hwide, hline]) hlast (by simp))
  have hslices : some texts = some [['x'], ['=', '='], ['1']] := by
    rw [← htexts]
    decide +kernel
  cases hslices
  exact ⟨hlex, tokens', hlex', hcontent⟩

end TwinScript
