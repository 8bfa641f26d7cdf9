import TwinScript.Proofs.Completing
import TwinScript.Proofs.Cutting
import TwinScript.Proofs.Renaming

/-!
# Accepting an offered word

Completion and reading cut a text into words by classes of their own. Every word character of the
reader is one of completion, except nine characters in the blocks of kana that are no letters:
marks, and places without a character. So where a text ends with a word, completion takes the whole
of that word or what follows the last such mark in it. An offered word that takes its place is then
read as the reserved word it is in the first case, and as a part of an identifier in the second.
-/
namespace TwinScript
open Script Text
open Token (Kind)

/-- The characters in the blocks of kana that are no letters: the sound marks, the double hyphen,
the middle dot, and three places without a character. A word may hold and even begin with them. -/
def Script.kanaMarks : List Char :=
  ['\u3040', '\u3097', '\u3098', '\u3099', '\u309a', '\u309b', '\u309c', '\u30a0', '\u30fb']

theorem Text.isAlphanumeric_of_mem_eastAsian {r : Nat × Nat} {c : Char} (hr : r ∈ eastAsianRanges)
    (hlow : r.1 ≤ c.toNat) (hhigh : c.toNat ≤ r.2) : isAlphanumeric c = true := by
  have hhas : eastAsianRanges.has c = true := Ranges.has_iff.2 ⟨r, hr, hlow, hhigh⟩
  rw [isAlphanumeric, hhas, Bool.or_true, Bool.true_or]

theorem Text.isAlphanumeric_of_isAlpha {c : Char} (h : c.isAlpha = true) :
    isAlphanumeric c = true := by
  have hranges : (0x41, 0x5A) ∈ alphabetRanges ∧ (0x61, 0x7A) ∈ alphabetRanges := by decide
  have hhas : alphabetRanges.has c = true := by
    rw [Ranges.has_iff]
    rcases Bool.or_eq_true_iff.1 h with hupper | hlower
    · exact ⟨_, hranges.1, of_decide_eq_true hupper⟩
    · obtain ⟨hlow, hhigh⟩ := Bool.and_eq_true_iff.1 hlower
      exact ⟨_, hranges.2, of_decide_eq_true hlow, of_decide_eq_true hhigh⟩
  rw [isAlphanumeric, hhas, Bool.true_or, Bool.true_or]

theorem Script.isAlphanumeric_or_mem_kanaMarks {c : Char} (h : isJapanese c = true) :
    isAlphanumeric c = true ∨ c ∈ kanaMarks := by
  have hranges : (0x3041, 0x3096) ∈ eastAsianRanges ∧ (0x309D, 0x309F) ∈ eastAsianRanges ∧
      (0x30A1, 0x30FA) ∈ eastAsianRanges ∧ (0x30FC, 0x30FF) ∈ eastAsianRanges ∧
      (0x4E00, 0xA48C) ∈ eastAsianRanges := by decide
  obtain ⟨hhiragana, hiteration, hkatakana, hlong, hkanji⟩ := hranges
  simp only [isJapanese, Bool.or_eq_true, Bool.and_eq_true, decide_eq_true_eq] at h
  by_cases hletter : (0x3041 ≤ c.toNat ∧ c.toNat ≤ 0x3096) ∨ (0x309D ≤ c.toNat ∧ c.toNat ≤ 0x309F) ∨
      (0x30A1 ≤ c.toNat ∧ c.toNat ≤ 0x30FA) ∨ (0x30FC ≤ c.toNat ∧ c.toNat ≤ 0x30FF) ∨
      (0x4E00 ≤ c.toNat ∧ c.toNat ≤ 0xA48C)
  · rcases hletter with h | h | h | h | h
    · exact Or.inl (isAlphanumeric_of_mem_eastAsian hhiragana h.1 h.2)
    · exact Or.inl (isAlphanumeric_of_mem_eastAsian hiteration h.1 h.2)
    · exact Or.inl (isAlphanumeric_of_mem_eastAsian hkatakana h.1 h.2)
    · exact Or.inl (isAlphanumeric_of_mem_eastAsian hlong h.1 h.2)
    · exact Or.inl (isAlphanumeric_of_mem_eastAsian hkanji h.1 h.2)
  · have hcode : c.toNat ∈ kanaMarks.map Char.toNat := by
      have hcodes : kanaMarks.map Char.toNat =
          [0x3040, 0x3097, 0x3098, 0x3099, 0x309A, 0x309B, 0x309C, 0x30A0, 0x30FB] := by decide
      simp only [hcodes, List.mem_cons, List.not_mem_nil, or_false]
      omega
    obtain ⟨d, hd, hcd⟩ := List.mem_map.1 hcode
    rw [Char.ext (UInt32.toNat_inj.1 hcd)] at hd
    exact Or.inr hd

/-- Completion ends a word only at a mark. -/
theorem Completion.isWordChar_or_mem_kanaMarks {c : Char} (h : WordPart c) :
    isWordChar isAlphanumeric c = true ∨ c ∈ kanaMarks := by
  have hchar : isAlphanumeric c = true → isWordChar isAlphanumeric c = true := by
    intro hc
    rw [isWordChar, hc, Bool.true_or, Bool.true_or]
  rcases h with hstart | hdigit | hunderscore
  · rcases Bool.or_eq_true_iff.1 hstart with halpha | hjapanese
    · exact Or.inl (hchar (isAlphanumeric_of_isAlpha halpha))
    · exact (isAlphanumeric_or_mem_kanaMarks hjapanese).imp_left hchar
  · exact Or.inl (of_listed hdigit (by decide +kernel))
  · exact Or.inl (of_listed hunderscore (by decide +kernel))

theorem Script.isWordStart_of_mem_kanaMarks {c : Char} (h : c ∈ kanaMarks) :
    isWordStart c = true := by
  exact of_listed h (by decide)

theorem Keyword.isWordStart_of_kindOf? {text : String} {kind : Kind}
    (h : kindOf? text = some kind) :
    text.toList ≠ [] ∧ ∀ c ∈ text.toList, isWordStart c = true := by
  have hall : ∀ keyword ∈ all,
      (keyword.latin.toList ≠ [] ∧ keyword.latin.toList.all isWordStart = true) ∧
      keyword.japanese.toList ≠ [] ∧ keyword.japanese.toList.all isWordStart = true := by
    decide +kernel
  simp only [List.all_eq_true] at hall
  obtain ⟨keyword, hfind, -⟩ := Option.map_eq_some_iff.1 h
  obtain ⟨hlatin, hjapanese⟩ := hall keyword (List.mem_of_find?_eq_some hfind)
  have hspells := List.find?_some hfind
  rw [spells, Bool.or_eq_true, beq_iff_eq, beq_iff_eq] at hspells
  rcases hspells with rfl | rfl
  · exact hlatin
  · exact hjapanese

theorem Word.wordPart_of_mem_text (w : Word) {c : Char} (h : c ∈ w.text) : WordPart c := by
  rcases List.mem_cons.1 h with rfl | hletters
  · exact Or.inl w.first_start
  · exact w.letters_part c hletters

theorem Word.startsIn_ne_newline (w : Word) : StartsIn (· ≠ '\n') w.text := by
  refine ⟨w.first, rfl, fun hline => ?_⟩
  exact w.newline_not_mem_text (List.mem_cons.2 (Or.inl hline.symm))

/-- The text can be read, and this is the token before the end of the input. -/
def LastToken (s : String) (t : Token) : Prop :=
  ∃ tokens e, lex s = .ok (tokens ++ [t, e]) ∧ e.kind = .endOfInput

/-- A word stands at the end of a text, behind pieces and a gap. -/
structure Word.Ends (w : Word) (pieces : List Piece) (gap : List Char) : Prop where
  pieces_stand : Piece.Stand pieces (gap ++ w.text)
  gap_stands : Gap.Stands gap w.text

namespace Word.Ends

variable {w : Word} {pieces : List Piece} {gap : List Char}

theorem exchange (h : w.Ends pieces gap) (w' : Word) : w'.Ends pieces gap := by
  constructor
  · apply h.pieces_stand.of_follows
    apply Follows.append
    intro c hc
    cases hc
    exact Or.inr ⟨w.first, rfl, Or.inr ⟨w'.first_start, w.first_start⟩⟩
  · apply h.gap_stands.of_startsIn
    exact fun _ => w.startsIn_ne_newline

theorem lastToken (h : w.Ends pieces gap) :
    LastToken (String.ofList (Piece.textOf pieces ++ gap ++ w.text))
      (w.lexeme.token (.after (Piece.textOf pieces ++ gap))
        (.after (Piece.textOf pieces ++ gap ++ w.text))) := by
  have hword : Piece.Heads ⟨gap, w.lexeme⟩ [] := by
    refine ⟨?_, w.stands_lexeme (not_startsIn_nil _)⟩
    rw [List.append_nil]
    exact h.gap_stands
  have hstand : Piece.Stand (pieces ++ [⟨gap, w.lexeme⟩]) [] := by
    rw [Piece.stand_append_iff, Piece.stand_cons_iff]
    refine ⟨?_, hword, trivial⟩
    simpa [Piece.textOf, Piece.text, lexeme, Lexeme.plain] using h.pieces_stand
  have htext : Piece.textOf (pieces ++ [⟨gap, w.lexeme⟩]) =
      Piece.textOf pieces ++ gap ++ w.text := by
    simp [Piece.textOf_append, Piece.textOf, Piece.text, lexeme, Lexeme.plain]
  let layout : Layout (Piece.textOf pieces ++ gap ++ w.text) :=
    ⟨pieces ++ [⟨gap, w.lexeme⟩], [], [], hstand, .nil [],
      by rw [htext, List.append_nil, List.append_nil]⟩
  have htokens : layout.tokens = Piece.tokens [] pieces ++
      [w.lexeme.token (.after (Piece.textOf pieces ++ gap))
        (.after (Piece.textOf pieces ++ gap ++ w.text))] := by
    rw [Layout.tokens, Piece.tokens_append, List.nil_append, Piece.tokens, Piece.tokens,
      Piece.token_eq, Piece.text, ← List.append_assoc]
    rfl
  refine ⟨Piece.tokens [] pieces,
    .endOfInput (.after (Piece.textOf pieces ++ gap ++ w.text)), ?_, rfl⟩
  rw [lex_ofList_of_complete layout rfl, htokens, List.append_assoc]
  rfl

theorem not_isWordStart_of_getLast? (h : w.Ends pieces gap) {c : Char}
    (hlast : (Piece.textOf pieces ++ gap).getLast? = some c) : ¬ isWordStart c = true := by
  by_cases hgap : gap = []
  · have hstand := h.pieces_stand
    rw [hgap, List.append_nil] at hlast
    rw [hgap, List.nil_append] at hstand
    obtain ⟨lexeme, hlexeme, hend⟩ := hstand.exists_last hlast
    rcases hlexeme.getLast?_cases hend with hsymbol | ⟨hdigit, -⟩ | ⟨-, hstop⟩
    · exact of_listed hsymbol (by decide)
    · exact of_listed hdigit (by decide)
    · exact absurd ⟨w.first, rfl, Or.inl w.first_start⟩ hstop
  · rw [List.getLast?_append_of_ne_nil _ hgap] at hlast
    have hspace := h.gap_stands.mem_spaces_of_getLast? w.startsIn_ne_newline hlast
    exact of_listed hspace (by decide)

end Word.Ends

theorem LastToken.exists_ends {s : String} {t : Token} (h : LastToken s t) (hkind : t.kind.IsWord)
    (hstop : t.span.stop = byteSize s.toList) :
    ∃ (w : Word) (pieces : List Piece) (gap : List Char), w.Ends pieces gap ∧
      s.toList = Piece.textOf pieces ++ gap ++ w.text := by
  obtain ⟨tokens, e, hlex, -⟩ := h
  obtain ⟨layout, hrest, htokens⟩ := exists_layout_of_lex_ok hlex
  have hinit : tokens ++ [t] = layout.tokens := by
    rw [← List.singleton_append, ← List.append_assoc] at htokens
    exact (List.append_inj' htokens rfl).1
  have hstand := layout.pieces_stand
  have htext := layout.text_eq
  rw [Layout.tokens] at hinit
  rcases List.eq_nil_or_concat' layout.pieces with hnil | ⟨ps, p, hpieces⟩
  · rw [hnil, Piece.tokens] at hinit
    simp at hinit
  · rw [hpieces, Piece.tokens_append] at hinit
    obtain ⟨rfl⟩ : [t] = Piece.tokens ([] ++ Piece.textOf ps) [p] :=
      (List.append_inj' hinit rfl).2
    rw [hpieces, Piece.stand_append_iff, Piece.stand_cons_iff] at hstand
    rw [hpieces, Piece.textOf_append, hrest, List.append_nil] at htext
    -- the word ends where the text does, so no gap follows it
    have hgap : layout.gap = [] := by
      have hsize := congrArg byteSize htext
      rw [Piece.stop_token] at hstop
      rw [← byteSize_eq_zero_iff]
      simp only [Piece.textOf, byteSize_append, byteSize_nil] at hsize hstop
      omega
    rw [hgap, hrest, List.append_nil] at hstand
    rw [hgap, List.append_nil] at htext
    obtain ⟨hps, ⟨hgap', hlexeme⟩, -⟩ := hstand
    obtain ⟨w, hw, -⟩ := hlexeme.exists_word hkind
    have hword : p.text = p.gap ++ w.text := by
      rw [Piece.text, hw]
      rfl
    have hlast : Piece.textOf [p] = p.gap ++ w.text := by
      rw [Piece.textOf, Piece.textOf, List.append_nil, hword]
    rw [hlast] at hps htext
    rw [hw, Piece.textOf, List.append_nil, List.append_nil] at hgap'
    refine ⟨w, ps, p.gap, ⟨?_, hgap'⟩, ?_⟩
    · rwa [List.append_nil] at hps
    · rw [← htext, List.append_assoc]

/-- What completion takes for the word at the end of the text is the end of that word: a letter in
front of the word would belong to it. -/
theorem Word.Ends.exists_front {w : Word} {pieces : List Piece} {gap kept needle : List Char}
    (h : w.Ends pieces gap) (heq : Piece.textOf pieces ++ gap ++ w.text = kept ++ needle)
    (hneedle : ∀ c ∈ needle, isWordStart c = true) :
    ∃ front, kept = Piece.textOf pieces ++ gap ++ front ∧ w.text = front ++ needle := by
  rcases List.append_eq_append_iff.1 heq with ⟨front, hkept, hword⟩ | ⟨lost, hbefore, hlost⟩
  · exact ⟨front, hkept, hword⟩
  · rcases List.eq_nil_or_concat' lost with rfl | ⟨init, c, rfl⟩
    · rw [List.append_nil] at hbefore
      exact ⟨[], by rw [hbefore, List.append_nil], hlost.symm⟩
    · have hlast : (Piece.textOf pieces ++ gap).getLast? = some c := by
        rw [hbefore, ← List.append_assoc, List.getLast?_concat]
      have hstart : isWordStart c = true := hneedle c (by simp [hlost])
      exact absurd hstart (h.not_isWordStart_of_getLast? hlast)

theorem Word.exists_text_eq_append {w : Word} {front needle letters : List Char}
    (h : w.text = front ++ needle) (hne : letters ≠ [])
    (hletters : ∀ c ∈ letters, isWordStart c = true) :
    ∃ w' : Word, w'.text = front ++ letters := by
  cases front with
  | nil =>
      obtain ⟨c, cs, rfl⟩ := List.exists_cons_of_ne_nil hne
      obtain ⟨hc, hcs⟩ := List.forall_mem_cons.1 hletters
      exact ⟨⟨c, cs, hc, fun d hd => Or.inl (hcs d hd)⟩, rfl⟩
  | cons c cs =>
      obtain ⟨rfl, hletters'⟩ := List.cons.inj h
      refine ⟨⟨w.first, cs ++ letters, w.first_start, fun d hd => ?_⟩, rfl⟩
      rcases List.mem_append.1 hd with hd | hd
      · exact w.letters_part d (hletters' ▸ List.mem_append_left _ hd)
      · exact Or.inl (hletters d hd)

theorem Completion.exists_kept_of_reserved {p : String} {completion : Completion}
    {candidate : Candidate} {kind : Kind}
    (hat : Completion.at? p (byteSize p.toList) = some completion)
    (hmem : candidate ∈ completion.candidates)
    (hkind : Keyword.kindOf? candidate.replacement = some kind) :
    ∃ kept needle, p.toList = kept ++ needle ∧ byteSize kept = completion.start ∧
      needle <+: candidate.replacement.toList ∧
      ∀ c, kept.getLast? = some c → ¬ isWordChar isAlphanumeric c = true := by
  rw [at?_of_append (List.append_nil _).symm (by simp)] at hat
  obtain rfl := Option.some.inj hat
  have hword : ¬ BeginsCommand p.toList := by
    intro hcommand
    have hnone : ∀ text ∈ [".help", ".load ", ".exit"], Keyword.kindOf? text = none := by
      decide +kernel
    obtain ⟨-, -, htexts⟩ := (answers_ofTyped isAlphanumeric p.toList).command hcommand
    have hoffered := (htexts candidate.replacement).1 (List.mem_map_of_mem hmem)
    rw [hnone _ hoffered.1] at hkind
    cases hkind
  have hstart : (ofTyped isAlphanumeric p.toList).start =
      byteSize (splitWord isAlphanumeric p.toList).1 := by
    rw [ofTyped_of_word hword, start_ofTexts]
  obtain ⟨-, -, htexts⟩ := (answers_ofTyped isAlphanumeric p.toList).word hword
  have hoffered := (htexts _ _ (splitWord_append _ _).symm hstart.symm candidate.replacement).1
    (List.mem_map_of_mem hmem)
  exact ⟨_, _, (splitWord_append _ _).symm, hstart.symm, hoffered.2.2.1,
    fun c hc => not_isWordChar_of_getLast? hc⟩

/-- A text that can be read ends with a word. A reserved word offered there is put in place of what
completion took for the word: the text can be read again, and its last token is that reserved word
exactly if what was kept does not end with one of the marks. -/
theorem completed_word_read {p : String} {t : Token} {completion : Completion}
    {candidate : Candidate} {kind : Kind} (hlast : LastToken p t) (hword : t.kind.IsWord)
    (hstop : t.span.stop = byteSize p.toList)
    (hat : Completion.at? p (byteSize p.toList) = some completion)
    (hmem : candidate ∈ completion.candidates)
    (hkind : Keyword.kindOf? candidate.replacement = some kind) :
    ∃ kept needle t', p.toList = kept ++ needle ∧ byteSize kept = completion.start ∧
      LastToken (String.ofList kept ++ candidate.replacement) t' ∧
      (t'.value = candidate.replacement ∧ t'.kind = kind ↔
        ∀ c, kept.getLast? = some c → c ∉ kanaMarks) := by
  obtain ⟨kept, needle, htext, hstart, hneedle, hmaximal⟩ :=
    Completion.exists_kept_of_reserved hat hmem hkind
  obtain ⟨hne, hletters⟩ := Keyword.isWordStart_of_kindOf? hkind
  obtain ⟨w, pieces, gap, hends, htext'⟩ := hlast.exists_ends hword hstop
  obtain ⟨front, rfl, hfront⟩ := hends.exists_front (htext'.symm.trans htext)
    fun c hc => hletters c (hneedle.subset hc)
  obtain ⟨w', hw'⟩ := Word.exists_text_eq_append hfront hne hletters
  have hlast' := (hends.exchange w').lastToken
  have hjoin : String.ofList (Piece.textOf pieces ++ gap ++ w'.text) =
      String.ofList (Piece.textOf pieces ++ gap ++ front) ++ candidate.replacement := by
    rw [← String.toList_inj, hw']
    simp
  rw [hjoin] at hlast'
  refine ⟨_, needle, _, htext, hstart, hlast', ?_⟩
  change String.ofList w'.text = _ ∧ wordKind w'.text = _ ↔ _
  rw [hw']
  rcases List.eq_nil_or_concat' front with rfl | ⟨init, c, rfl⟩
  · -- the whole word was taken, and no mark belongs to what stands before a word
    rw [List.nil_append, String.ofList_toList, wordKind, String.ofList_toList, hkind,
      Option.getD_some, List.append_nil]
    refine iff_of_true ⟨rfl, rfl⟩ fun c hc hmark => ?_
    exact hends.not_isWordStart_of_getLast? hc (isWordStart_of_mem_kanaMarks hmark)
  · -- the word goes on to the left of the place, so its last character there is a mark
    have hend : (Piece.textOf pieces ++ gap ++ (init ++ [c])).getLast? = some c := by
      rw [← List.append_assoc, List.getLast?_concat]
    have hpart : WordPart c := w.wordPart_of_mem_text (by simp [hfront])
    have hmark : c ∈ kanaMarks :=
      (Completion.isWordChar_or_mem_kanaMarks hpart).resolve_left (hmaximal c hend)
    refine iff_of_false ?_ fun hnot => hnot c hend hmark
    rintro ⟨hvalue, -⟩
    rw [← String.toList_inj, String.toList_ofList] at hvalue
    have hlength := congrArg List.length hvalue
    simp only [List.length_append, List.length_singleton] at hlength
    omega

/-- Behind a literal and a comment, where the whole word is taken. -/
theorem completed_word_read_sample :
    Completion.at? "'l'#é\nも" 10 = some ⟨7, [⟨"もし", "もし"⟩]⟩ ∧
      LastToken "'l'#é\nも" ⟨.identifier, "も", 2, 1, ⟨7, 10⟩⟩ ∧
      ∃ t', LastToken "'l'#é\nもし" t' ∧ t'.value = "もし" ∧ t'.kind = .ifWord := by
  have hat : Completion.at? "'l'#é\nも" 10 = some ⟨7, [⟨"もし", "もし"⟩]⟩ := by
    rw [Completion.at?_of_append (List.append_nil _).symm (by decide +kernel),
      Completion.ofTyped_of_word (by decide +kernel), Completion.extensions, Keyword.spellings_eq]
    decide +kernel
  have hlast : LastToken "'l'#é\nも" ⟨.identifier, "も", 2, 1, ⟨7, 10⟩⟩ :=
    ⟨[⟨.string, "l", 1, 1, ⟨0, 3⟩⟩], ⟨.endOfInput, "EOF", 2, 2, ⟨10, 10⟩⟩, by decide +kernel, rfl⟩
  obtain ⟨kept, needle, t', htext, hkept, hlast', hiff⟩ := completed_word_read hlast (by decide)
    (by decide +kernel) hat (List.mem_singleton.2 rfl) (show _ = some .ifWord by decide +kernel)
  have hcut : cut? 7 "'l'#é\nも".toList = some ("'l'#é\n".toList, ['も']) := by decide +kernel
  have hcut' : cut? 7 "'l'#é\nも".toList = some (kept, needle) :=
    cut?_eq_some_iff.2 ⟨htext, hkept⟩
  cases hcut.symm.trans hcut'
  refine ⟨hat, hlast, t', hlast', hiff.2 ?_⟩
  intro c hc
  cases hc
  decide

/-- A middle dot begins an identifier, but completion does not count it as a part of the word: the
word offered after it is swallowed by the identifier. -/
theorem completed_word_swallowed :
    LastToken "・l" ⟨.identifier, "・l", 1, 1, ⟨0, 4⟩⟩ ∧
      Completion.at? "・l" 4 = some ⟨3, [⟨"let", "let"⟩]⟩ ∧
      Keyword.kindOf? "let" = some .letWord ∧
      LastToken ("・" ++ "let") ⟨.identifier, "・let", 1, 1, ⟨0, 6⟩⟩ ∧
      ¬ ∃ t', LastToken ("・" ++ "let") t' ∧ t'.value = "let" ∧ t'.kind = .letWord := by
  have hat : Completion.at? "・l" 4 = some ⟨3, [⟨"let", "let"⟩]⟩ := by
    rw [Completion.at?_of_append (List.append_nil _).symm (by decide +kernel),
      Completion.ofTyped_of_word (by decide +kernel), Completion.extensions, Keyword.spellings_eq]
    decide +kernel
  have hlast : LastToken "・l" ⟨.identifier, "・l", 1, 1, ⟨0, 4⟩⟩ :=
    ⟨[], ⟨.endOfInput, "EOF", 1, 3, ⟨4, 4⟩⟩, by decide +kernel, rfl⟩
  have hlex : lex ("・" ++ "let") = .ok ([] ++ [⟨.identifier, "・let", 1, 1, ⟨0, 6⟩⟩,
      ⟨.endOfInput, "EOF", 1, 5, ⟨6, 6⟩⟩]) := by
    decide +kernel
  refine ⟨hlast, hat, by decide +kernel, ⟨_, _, hlex, rfl⟩, ?_⟩
  rintro ⟨t', ⟨tokens, e, hlex', -⟩, hvalue, -⟩
  have htokens := (List.append_inj' (Except.ok.inj (hlex.symm.trans hlex')) rfl).2
  cases htokens
  exact absurd hvalue (by decide)

end TwinScript
