import Mathlib.Data.List.Forall2
import TwinScript.Proofs.Lookahead
import TwinScript.Proofs.Tiling

/-!
# Texts with other words

A word can be exchanged for any other word. It begins with a letter, and letters go on with the same
lexemes, so what stands before the word does not notice; and what stands after a word cannot go on
with a word, whichever it is. So the pieces of a text stay what they are around the exchanged words.
Words hold no newlines, hence all lines stay where they are.
-/
namespace TwinScript
open Script Text
open Token (Kind)

/-- A letter with further letters, digits and underscores after it. -/
structure Word where
  first : Char
  letters : List Char
  first_start : isWordStart first = true
  letters_part : ∀ d ∈ letters, WordPart d

namespace Word

def text (w : Word) : List Char := w.first :: w.letters

def lexeme (w : Word) : Lexeme := .plain (wordKind w.text) w.text

def ofText? : List Char → Option Word
  | [] => none
  | c :: cs =>
    if h : isWordStart c = true ∧ cs.all isWordPart = true then
      some ⟨c, cs, h.1, fun d hd => (isWordPart_iff d).1 (List.all_eq_true.1 h.2 d hd)⟩
    else none

theorem text_of_ofText? {cs : List Char} {w : Word} (h : ofText? cs = some w) : w.text = cs := by
  cases cs with
  | nil => cases h
  | cons c cs =>
      by_cases hword : isWordStart c = true ∧ cs.all isWordPart = true
      · rw [ofText?, dif_pos hword] at h
        cases h
        rfl
      · rw [ofText?, dif_neg hword] at h
        cases h

theorem newline_not_mem_text (w : Word) : '\n' ∉ w.text := by
  intro hmem
  rcases List.mem_cons.1 hmem with hfirst | hletters
  · have hstart := w.first_start
    rw [← hfirst] at hstart
    exact absurd hstart (by decide)
  · exact absurd (w.letters_part '\n' hletters) (by decide)

theorem stands_lexeme (w : Word) {rest : List Char} (hrest : ¬ StartsIn WordPart rest) :
    w.lexeme.Stands rest :=
  .word w.first_start w.letters_part hrest

end Word

/-- The kind of some word: an identifier, or the kind of a reserved word. -/
def Token.Kind.IsWord (kind : Kind) : Prop :=
  kind = .identifier ∨ ∃ keyword ∈ Keyword.all, keyword.kind = kind

instance (kind : Kind) : Decidable kind.IsWord := inferInstanceAs (Decidable (_ ∨ _))

theorem Token.Kind.isWord_of_isKeyword {kind : Kind} (h : kind.isKeyword = true) : kind.IsWord := by
  cases kind <;> first | decide | cases h

theorem Lexeme.Stands.exists_word {lexeme : Lexeme} {rest : List Char} (h : lexeme.Stands rest)
    (hkind : lexeme.kind.IsWord) : ∃ w : Word, lexeme = w.lexeme ∧ ¬ StartsIn WordPart rest := by
  have hpunctuation : ∀ p ∈ Script.punctuation, ¬ p.2.IsWord := by decide
  have hcomparisons : ∀ p ∈ comparisons, ¬ p.2.IsWord := by decide
  have hbinOp : ¬ Kind.IsWord .binOp := by decide
  have hstring : ¬ Kind.IsWord .string := by decide
  have hint : ¬ Kind.IsWord .int := by decide
  have hfloat : ¬ Kind.IsWord .float := by decide
  cases h with
  | punctuation hc => exact absurd hkind (hpunctuation _ hc)
  | alone hc hrest => exact absurd hkind (hcomparisons _ hc)
  | word hc hletters hrest => exact ⟨⟨_, _, hc, hletters⟩, rfl, hrest⟩
  | arithmetic hc => exact absurd hkind hbinOp
  | pair hc hd => exact absurd hkind hbinOp
  | double hc => exact absurd hkind hbinOp
  | string hquote hbody => exact absurd hkind hstring
  | int hne hwhole hrest => exact absurd hkind hint
  | float hne hwhole hpoint hdec hdecimals hrest => exact absurd hkind hfloat

/-- New words for some of the tokens that are words. Tokens of one text differ in their spans, so
each of them can be given a word of its own. -/
structure Renaming (tokens : List Token) where
  name : Token → Option Word
  isWord_of_name : ∀ t ∈ tokens, (name t).isSome → t.kind.IsWord

def Text.renameTile (name : Token → Option Word) (tile : List Char × List Char) (t : Token) :
    List Char × List Char :=
  (tile.1, (name t).elim tile.2 Word.text)

/-- The text made of the tiles of the tokens, in which new words stand for the tokens that have
one. -/
def Renaming.text {tokens : List Token} (ren : Renaming tokens)
    (tiles : List (List Char × List Char)) : List Char :=
  tilesText (List.zipWith (renameTile ren.name) tiles tokens)

/-- The second token has the new word, or is as the first where there is none, and its line is the
same. -/
structure Token.Renamed (name : Option Word) (t u : Token) : Prop where
  kind_eq : u.kind = name.elim t.kind fun w => wordKind w.text
  value_eq : u.value = name.elim t.value fun w => String.ofList w.text
  line_eq : u.line = t.line

namespace Piece

section Single

variable {p : Piece} {name : Option Word} {rest : List Char}

def rename (p : Piece) (name : Option Word) : Piece := ⟨p.gap, name.elim p.lexeme Word.lexeme⟩

theorem Heads.rename (h : p.Heads rest) (hword : name.isSome → p.lexeme.kind.IsWord) :
    (p.rename name).Heads rest := by
  cases name with
  | none => exact h
  | some w =>
      obtain ⟨hgap, hlexeme⟩ := h
      obtain ⟨w', -, hrest⟩ := hlexeme.exists_word (hword rfl)
      exact ⟨hgap.of_startsIn fun _ => hlexeme.startsIn_ne_newline rest, w.stands_lexeme hrest⟩

theorem Heads.follows_rename (h : p.Heads rest) (hword : name.isSome → p.lexeme.kind.IsWord)
    (rest' : List Char) : Follows ((p.rename name).text ++ rest') (p.text ++ rest) := by
  cases name with
  | none =>
      have hne : p.text ≠ [] := List.append_ne_nil_of_right_ne_nil _ h.2.text_ne_nil
      obtain ⟨c, cs, htext⟩ := List.exists_cons_of_ne_nil hne
      change Follows (p.text ++ rest') _
      rw [htext]
      exact follows_of_head? rfl
  | some w =>
      obtain ⟨w', hlexeme, -⟩ := h.2.exists_word (hword rfl)
      change Follows (p.gap ++ w.text ++ rest') (p.gap ++ p.lexeme.text ++ rest)
      rw [hlexeme, List.append_assoc, List.append_assoc]
      apply Follows.append
      intro c hc
      cases hc
      exact Or.inr ⟨w'.first, rfl, Or.inr ⟨w.first_start, w'.first_start⟩⟩

theorem Heads.count_newline_rename (h : p.Heads rest)
    (hword : name.isSome → p.lexeme.kind.IsWord) :
    (p.rename name).text.count '\n' = p.text.count '\n' := by
  cases name with
  | none => rfl
  | some w =>
      obtain ⟨w', hlexeme, -⟩ := h.2.exists_word (hword rfl)
      change (p.gap ++ w.text).count '\n' = (p.gap ++ p.lexeme.text).count '\n'
      rw [hlexeme, List.count_append, List.count_append,
        List.count_eq_zero.2 w.newline_not_mem_text]
      exact congrArg _ (List.count_eq_zero.2 w'.newline_not_mem_text).symm

theorem renamed_token (p : Piece) (name : Option Word) {before before' : List Char}
    (hcount : before'.count '\n' = before.count '\n') :
    Token.Renamed name (p.token before) ((p.rename name).token before') := by
  have hline : (before' ++ p.gap).count '\n' + 1 = (before ++ p.gap).count '\n' + 1 := by
    rw [List.count_append, List.count_append, hcount]
  cases name with
  | none => exact ⟨rfl, rfl, hline⟩
  | some w => exact ⟨rfl, rfl, hline⟩

end Single

section All

variable (name : Token → Option Word)

def renameAll (before : List Char) : List Piece → List Piece
  | [] => []
  | p :: ps => p.rename (name (p.token before)) :: renameAll (before ++ p.text) ps

/-- The pieces stand, and only words have new words. -/
def Renames (before : List Char) (pieces : List Piece) (rest : List Char) : Prop :=
  Stand pieces rest ∧ ∀ t ∈ tokens before pieces, (name t).isSome → t.kind.IsWord

variable {name} {before rest : List Char} {pieces : List Piece}

theorem Renames.of_cons {p : Piece} {ps : List Piece} (h : Renames name before (p :: ps) rest) :
    p.Heads (textOf ps ++ rest) ∧ ((name (p.token before)).isSome → p.lexeme.kind.IsWord) ∧
      Renames name (before ++ p.text) ps rest := by
  obtain ⟨hstand, hwords⟩ := h
  obtain ⟨hp, hps⟩ := (stand_cons_iff p ps rest).1 hstand
  obtain ⟨hword, hmore⟩ := List.forall_mem_cons.1 hwords
  exact ⟨hp, hword, hps, hmore⟩

theorem Renames.follows (h : Renames name before pieces rest) :
    Follows (textOf (renameAll name before pieces) ++ rest) (textOf pieces ++ rest) := by
  cases pieces with
  | nil => exact follows_of_head? rfl
  | cons p ps =>
      obtain ⟨hp, hword, -⟩ := h.of_cons
      simp only [renameAll, textOf, List.append_assoc]
      exact hp.follows_rename hword _

theorem Renames.stand (h : Renames name before pieces rest) :
    Stand (renameAll name before pieces) rest := by
  induction pieces generalizing before with
  | nil => trivial
  | cons p ps ih =>
      obtain ⟨hp, hword, hmore⟩ := h.of_cons
      exact (stand_cons_iff _ _ rest).2 ⟨(hp.rename hword).of_follows hmore.follows, ih hmore⟩

theorem Renames.count_newline (h : Renames name before pieces rest) :
    (textOf (renameAll name before pieces)).count '\n' = (textOf pieces).count '\n' := by
  induction pieces generalizing before with
  | nil => rfl
  | cons p ps ih =>
      obtain ⟨hp, hword, hmore⟩ := h.of_cons
      rw [renameAll, textOf, textOf, List.count_append, List.count_append, ih hmore,
        hp.count_newline_rename hword]

theorem Renames.tokens (h : Renames name before pieces rest) {before' : List Char}
    (hcount : before'.count '\n' = before.count '\n') :
    List.Forall₂ (fun t u => Token.Renamed (name t) t u) (tokens before pieces)
      (tokens before' (renameAll name before pieces)) := by
  induction pieces generalizing before before' with
  | nil => exact .nil
  | cons p ps ih =>
      obtain ⟨hp, hword, hmore⟩ := h.of_cons
      refine .cons (renamed_token p _ hcount) (ih hmore ?_)
      rw [List.count_append, List.count_append, hcount, hp.count_newline_rename hword]

theorem tilesText_renameTile (name : Token → Option Word) (before gap : List Char)
    (pieces : List Piece) (last : Token) (hlast : name last = none) :
    tilesText (List.zipWith (renameTile name) (tiles gap pieces)
        (Piece.tokens before pieces ++ [last])) =
      textOf (renameAll name before pieces) ++ gap := by
  induction pieces generalizing before with
  | nil => simp [tiles, Piece.tokens, renameTile, hlast, tilesText, renameAll, textOf]
  | cons p ps ih =>
      have htile : (p.rename (name (p.token before))).text =
          p.gap ++ (name (p.token before)).elim p.lexeme.text Word.text := by
        cases hname : name (p.token before) <;> rfl
      rw [tiles, tokens, List.cons_append, List.zipWith_cons_cons, tilesText, ih, renameAll, textOf,
        htile, List.append_assoc, List.append_assoc]
      rfl

end All
end Piece

namespace Layout

variable {source : List Char} (layout : Layout source)
  (ren : Renaming (layout.tokens ++ [.endOfInput (.after source)]))

theorem name_endOfInput : ren.name (.endOfInput (.after source)) = none := by
  have hnot : ¬ Kind.IsWord .endOfInput := by decide
  cases hname : ren.name (.endOfInput (.after source)) with
  | none => rfl
  | some w =>
      refine absurd (ren.isWord_of_name (.endOfInput (.after source)) (by simp) ?_) hnot
      rw [hname]
      rfl

theorem renames : Piece.Renames ren.name [] layout.pieces (layout.gap ++ layout.rest) :=
  ⟨layout.pieces_stand, fun t ht => ren.isWord_of_name t (List.mem_append_left _ ht)⟩

def rename : Layout (Piece.textOf (Piece.renameAll ren.name [] layout.pieces) ++
    (layout.gap ++ layout.rest)) where
  pieces := Piece.renameAll ren.name [] layout.pieces
  gap := layout.gap
  rest := layout.rest
  pieces_stand := (layout.renames ren).stand
  gap_stands := layout.gap_stands
  text_eq := rfl

theorem text_renaming (h : layout.rest = []) :
    ren.text (Piece.tiles layout.gap layout.pieces) =
      Piece.textOf (Piece.renameAll ren.name [] layout.pieces) ++ (layout.gap ++ layout.rest) := by
  rw [h, List.append_nil]
  exact Piece.tilesText_renameTile ren.name [] layout.gap layout.pieces _
    (layout.name_endOfInput ren)

theorem renamed_tokens :
    List.Forall₂ (fun t u => Token.Renamed (ren.name t) t u)
      (layout.tokens ++ [.endOfInput (.after source)])
      ((layout.rename ren).tokens ++ [.endOfInput (.after (Piece.textOf
        (Piece.renameAll ren.name [] layout.pieces) ++ (layout.gap ++ layout.rest)))]) := by
  have hcount := (layout.renames ren).count_newline
  have hsource := congrArg (List.count '\n') layout.text_eq
  have hline : (Piece.textOf (Piece.renameAll ren.name [] layout.pieces) ++
      (layout.gap ++ layout.rest)).count '\n' + 1 = source.count '\n' + 1 := by
    rw [List.count_append, hcount, ← List.count_append, hsource]
  apply List.rel_append ((layout.renames ren).tokens rfl)
  refine .cons ?_ .nil
  rw [layout.name_endOfInput ren]
  exact ⟨rfl, rfl, hline⟩

end Layout

theorem lex_rename (s : String) (layout : Layout s.toList) (h : layout.rest = [])
    (ren : Renaming (layout.tokens ++ [.endOfInput (.after s.toList)])) :
    ∃ tiles tokens',
      Token.tiles? s.toList 0 (layout.tokens ++ [.endOfInput (.after s.toList)]) = some tiles ∧
      tilesText tiles = s.toList ∧ lex (String.ofList (ren.text tiles)) = .ok tokens' ∧
      List.Forall₂ (fun t u => Token.Renamed (ren.name t) t u)
        (layout.tokens ++ [.endOfInput (.after s.toList)]) tokens' := by
  have htiles := Piece.tiles?_tokens [] layout.gap layout.pieces
  have htext := layout.text_eq
  rw [h, List.append_nil] at htext
  rw [List.nil_append, htext] at htiles
  refine ⟨_, _, htiles, ?_, ?_, layout.renamed_tokens ren⟩
  · rw [Piece.tilesText_tiles, htext]
  · rw [layout.text_renaming ren h]
    exact lex_ofList_of_complete (layout.rename ren) h

namespace Keyword

theorem exists_of_kindOf? {text : String} {kind : Kind} (h : kindOf? text = some kind) :
    ∃ keyword ∈ all, keyword.kind = kind ∧ (text = keyword.latin ∨ text = keyword.japanese) := by
  obtain ⟨keyword, hfind, hkind⟩ := Option.map_eq_some_iff.1 h
  have hspells := List.find?_some hfind
  rw [spells, Bool.or_eq_true, beq_iff_eq, beq_iff_eq] at hspells
  exact ⟨keyword, List.mem_of_find?_eq_some hfind, hkind, hspells⟩

theorem kindOf?_twin {text : String} {kind : Kind} (h : kindOf? text = some kind) :
    kindOf? (twin text) = some kind ∧ ∃ w, Word.ofText? (twin text).toList = some w := by
  have htwin : ∀ keyword ∈ all,
      twin keyword.latin = keyword.japanese ∧ twin keyword.japanese = keyword.latin := by
    decide +kernel
  have hword : ∀ keyword ∈ all, (Word.ofText? keyword.latin.toList).isSome ∧
      (Word.ofText? keyword.japanese.toList).isSome := by
    decide +kernel
  obtain ⟨keyword, hmem, rfl, rfl | rfl⟩ := exists_of_kindOf? h
  · rw [(htwin keyword hmem).1]
    exact ⟨kindOf?_japanese hmem, Option.isSome_iff_exists.1 (hword keyword hmem).2⟩
  · rw [(htwin keyword hmem).2]
    exact ⟨kindOf?_latin hmem, Option.isSome_iff_exists.1 (hword keyword hmem).1⟩

end Keyword

/-- A token of the kind of a reserved word is that word. -/
def Token.Reserved (t : Token) : Prop :=
  t.kind.isKeyword = true → Keyword.kindOf? t.value = some t.kind

theorem Lexeme.Stands.reserved_written {lexeme : Lexeme} {rest : List Char}
    (h : lexeme.Stands rest) (before : List Char) : (lexeme.written before).Reserved := by
  intro hkeyword
  obtain ⟨w, rfl, -⟩ := h.exists_word (Kind.isWord_of_isKeyword hkeyword)
  change (wordKind w.text).isKeyword = true at hkeyword
  change Keyword.kindOf? (String.ofList w.text) = some (wordKind w.text)
  unfold wordKind at hkeyword ⊢
  cases hkind : Keyword.kindOf? (String.ofList w.text) with
  | none =>
      rw [hkind] at hkeyword
      cases hkeyword
  | some kind => rfl

theorem Piece.reserved_of_mem_tokens {before rest : List Char} {pieces : List Piece}
    (h : Stand pieces rest) {t : Token} (ht : t ∈ tokens before pieces) : t.Reserved := by
  induction pieces generalizing before with
  | nil => cases ht
  | cons p ps ih =>
      obtain ⟨hp, hps⟩ := (stand_cons_iff p ps rest).1 h
      rcases List.mem_cons.1 ht with rfl | hmore
      · exact hp.2.reserved_written _
      · exact ih hps hmore

/-- The twins of the chosen tokens among those that are reserved words. -/
def Renaming.translation (tokens : List Token) (chosen : Token → Bool) : Renaming tokens where
  name t :=
    if chosen t && t.kind.isKeyword then Word.ofText? (Keyword.twin t.value).toList else none
  isWord_of_name := by
    intro t _ hname
    by_cases hchosen : (chosen t && t.kind.isKeyword) = true
    · exact Kind.isWord_of_isKeyword (Bool.and_eq_true_iff.1 hchosen).2
    · rw [if_neg hchosen] at hname
      cases hname

theorem Token.Renamed.of_translation {tokens : List Token} {chosen : Token → Bool} {t u : Token}
    (h : Token.Renamed ((Renaming.translation tokens chosen).name t) t u) (ht : t.Reserved) :
    u.kind = t.kind ∧
      u.value = if chosen t && t.kind.isKeyword then Keyword.twin t.value else t.value := by
  obtain ⟨hkind, hvalue, -⟩ := h
  by_cases hchosen : (chosen t && t.kind.isKeyword) = true
  · obtain ⟨htwin, w, hw⟩ := Keyword.kindOf?_twin (ht (Bool.and_eq_true_iff.1 hchosen).2)
    have hname : (Renaming.translation tokens chosen).name t = some w := (if_pos hchosen).trans hw
    rw [hname, Option.elim_some, Word.text_of_ofText? hw] at hkind hvalue
    rw [String.ofList_toList] at hvalue
    rw [wordKind, String.ofList_toList, htwin] at hkind
    exact ⟨hkind, hvalue.trans (if_pos hchosen).symm⟩
  · have hname : (Renaming.translation tokens chosen).name t = none := if_neg hchosen
    rw [hname] at hkind hvalue
    exact ⟨hkind, hvalue.trans (if_neg hchosen).symm⟩

theorem Token.map_eq_map_of_forall₂ {α : Type} {f g : Token → α} {tokens tokens' : List Token}
    (h : List.Forall₂ (fun t u => g u = f t) tokens tokens') : tokens'.map g = tokens.map f := by
  rw [← List.forall₂_eq_eq_eq, List.forall₂_map_left_iff, List.forall₂_map_right_iff]
  exact h.flip

/-- Words can be exchanged for other words. The tiles of the tokens make up the text; whatever new
words are put in place of tiles that are words, the text is read as before, with the new words and
their kinds in these places. If the new words are the twins of reserved words, then all kinds stay
as they are. -/
theorem lex_renamed (s : String) (tokens : List Token) (h : lex s = .ok tokens) :
    (∀ ren : Renaming tokens, ∃ tiles tokens', Token.tiles? s.toList 0 tokens = some tiles ∧
      tilesText tiles = s.toList ∧ lex (String.ofList (ren.text tiles)) = .ok tokens' ∧
      tokens'.length = tokens.length ∧
      List.Forall₂ (fun t u => Token.Renamed (ren.name t) t u) tokens tokens') ∧
    ∀ chosen : Token → Bool, ∃ tiles tokens', Token.tiles? s.toList 0 tokens = some tiles ∧
      lex (String.ofList ((Renaming.translation tokens chosen).text tiles)) = .ok tokens' ∧
      tokens'.map Token.kind = tokens.map Token.kind ∧
      tokens'.map Token.value = tokens.map fun t =>
        if chosen t && t.kind.isKeyword then Keyword.twin t.value else t.value := by
  obtain ⟨layout, hrest, rfl⟩ := exists_layout_of_lex_ok h
  constructor
  · intro ren
    obtain ⟨tiles, tokens', htiles, htext, hlex, hrenamed⟩ := lex_rename s layout hrest ren
    exact ⟨tiles, tokens', htiles, htext, hlex, hrenamed.length_eq.symm, hrenamed⟩
  · intro chosen
    obtain ⟨tiles, tokens', htiles, -, hlex, hrenamed⟩ :=
      lex_rename s layout hrest (Renaming.translation _ chosen)
    have hreserved : ∀ t ∈ layout.tokens ++ [.endOfInput (.after s.toList)], t.Reserved := by
      intro t ht
      rcases List.mem_append.1 ht with hpiece | hend
      · exact Piece.reserved_of_mem_tokens layout.pieces_stand hpiece
      · rw [List.mem_singleton.1 hend]
        exact nofun
    have hboth := ((List.forall₂_and_left _ _).2 ⟨hreserved, hrenamed⟩).imp
      fun t u htu => htu.2.of_translation htu.1
    refine ⟨tiles, tokens', htiles, hlex, ?_, ?_⟩
    · exact Token.map_eq_map_of_forall₂ (hboth.imp fun t u htu => htu.1)
    · exact Token.map_eq_map_of_forall₂ (hboth.imp fun t u htu => htu.2)

/-- A word that touches a number and a sign becomes a reserved word, while a literal with the same
letters stays; and a reserved word on the next line becomes its twin. -/
theorem lex_renamed_sample :
    ∃ tokens, lex "1x='x'\nもし" = .ok tokens ∧
      (∃ tokens', lex "1関数='x'\nもし" = .ok tokens' ∧
        tokens'.map Token.kind = [.int, .funcWord, .equals, .string, .ifWord, .endOfInput]) ∧
      ∃ tokens', lex "1x='x'\nif" = .ok tokens' ∧
        tokens'.map Token.kind = tokens.map Token.kind := by
  have hlex : lex "1x='x'\nもし" = .ok [⟨.int, "1", 1, 1, ⟨0, 1⟩⟩, ⟨.identifier, "x", 1, 2, ⟨1, 2⟩⟩,
      ⟨.equals, "=", 1, 3, ⟨2, 3⟩⟩, ⟨.string, "x", 1, 4, ⟨3, 6⟩⟩, ⟨.ifWord, "もし", 2, 1, ⟨7, 13⟩⟩,
      ⟨.endOfInput, "EOF", 2, 3, ⟨13, 13⟩⟩] := by
    decide +kernel
  obtain ⟨hrename, htranslate⟩ := lex_renamed _ _ hlex
  have htiles : Token.tiles? "1x='x'\nもし".toList 0 [⟨.int, "1", 1, 1, ⟨0, 1⟩⟩,
      ⟨.identifier, "x", 1, 2, ⟨1, 2⟩⟩, ⟨.equals, "=", 1, 3, ⟨2, 3⟩⟩, ⟨.string, "x", 1, 4, ⟨3, 6⟩⟩,
      ⟨.ifWord, "もし", 2, 1, ⟨7, 13⟩⟩, ⟨.endOfInput, "EOF", 2, 3, ⟨13, 13⟩⟩] =
      some [([], ['1']), ([], ['x']), ([], ['=']), ([], ['\'', 'x', '\'']), (['\n'], ['も', 'し']),
        ([], [])] := by
    decide +kernel
  refine ⟨_, hlex, ?_, ?_⟩
  · obtain ⟨tiles, tokens', htiles', -, hread, -, hrenamed⟩ := hrename
      { name := fun t => if t.kind = .identifier then Word.ofText? ['関', '数'] else none
        isWord_of_name := by decide +kernel }
    cases htiles.symm.trans htiles'
    refine ⟨tokens', hread, ?_⟩
    rw [Token.map_eq_map_of_forall₂ (hrenamed.imp fun t u htu => htu.kind_eq)]
    decide +kernel
  · obtain ⟨tiles, tokens', htiles', hread, hkinds, -⟩ := htranslate fun _ => true
    cases htiles.symm.trans htiles'
    exact ⟨tokens', hread, hkinds⟩

end TwinScript
