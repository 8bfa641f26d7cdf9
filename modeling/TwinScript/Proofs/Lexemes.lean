import TwinScript.Proofs.Gaps

/-!
# Reading a lexeme

`Lexeme.first` gives exactly the lexeme or the fault of the grammar at the head of a text. For each
recognizer the proof has two halves: the grammar leaves no text out, and on each form of the grammar
the recognizer computes what the form says. Together they determine the recognizer, so it is never
inverted case by case.
-/
namespace TwinScript
open Script Text
open Token (Kind)

theorem quote_ne (quote : Char) (h : quote ∈ quotes) : quote ≠ '\\' ∧ quote ≠ '\n' := by
  exact of_listed h (by decide)

namespace Lexeme

theorem closing_plain (quote c : Char) (cs : List Char) (hslash : c ≠ '\\') (hline : c ≠ '\n') :
    closing quote (c :: cs) = if c = quote then .ok ([c], []) else match closing quote cs with
      | .error text => .error (c :: text)
      | .ok (text, value) => .ok (c :: text, c :: value) := by
  exact closing.eq_6 quote c cs hline (fun h => absurd h hslash) (fun _ h => absurd h hslash)
    (fun _ _ h => absurd h hslash)

theorem closing_escaped (quote c : Char) (cs : List Char) (hline : c ≠ '\n') :
    closing quote ('\\' :: c :: cs) = match closing quote cs with
      | .error text => .error ('\\' :: c :: text)
      | .ok (text, value) => .ok ('\\' :: c :: text, c :: value) := by
  exact closing.eq_5 quote c cs hline

theorem closing_contents_append (quote : Char) (body value tail : List Char)
    (h : Contents quote body value) :
    closing quote (body ++ tail) = match closing quote tail with
      | .error text => .error (body ++ text)
      | .ok (text, more) => .ok (body ++ text, value ++ more) := by
  induction h with
  | nil => cases hc : closing quote tail <;> simp [hc]
  | plain hquote hslash hline h ih =>
      rw [List.cons_append, closing_plain _ _ _ hslash hline, if_neg hquote, ih]
      cases closing quote tail <;> rfl
  | escaped hline h ih =>
      rw [List.cons_append, List.cons_append, closing_escaped _ _ _ hline, ih]
      cases closing quote tail <;> rfl

theorem closing_of_quote (quote : Char) (body value rest : List Char) (hquote : quote ∈ quotes)
    (h : Contents quote body value) :
    closing quote (body ++ quote :: rest) = .ok (body ++ [quote], value) := by
  obtain ⟨hslash, hline⟩ := quote_ne quote hquote
  rw [closing_contents_append _ _ _ _ h, closing_plain _ _ _ hslash hline, if_pos rfl]
  simp

theorem closing_of_newline (quote : Char) (body value slash after : List Char)
    (h : Contents quote body value) (hslash : Dangling slash) :
    closing quote (body ++ slash ++ '\n' :: after) = .error (body ++ slash ++ ['\n']) := by
  rw [List.append_assoc, closing_contents_append _ _ _ _ h]
  rcases hslash with rfl | rfl <;> simp [closing]

theorem closing_of_end (quote : Char) (body value slash : List Char)
    (h : Contents quote body value) (hslash : Dangling slash) :
    closing quote (body ++ slash) = .error (body ++ slash) := by
  rw [closing_contents_append _ _ _ _ h]
  rcases hslash with rfl | rfl <;> simp [closing]

/-- What follows an opening quote: contents, and then the closing quote, a newline or the end. -/
theorem exists_contents (quote : Char) (text : List Char) :
    ∃ body value tail, text = body ++ tail ∧ Contents quote body value ∧
      ((∃ rest, tail = quote :: rest) ∨
        ∃ slash, Dangling slash ∧ (tail = slash ∨ ∃ after, tail = slash ++ '\n' :: after)) := by
  match text with
  | [] => exact ⟨[], [], [], rfl, .nil, Or.inr ⟨[], Or.inl rfl, Or.inl rfl⟩⟩
  | c :: cs =>
      by_cases hquote : c = quote
      · exact ⟨[], [], c :: cs, rfl, .nil, Or.inl ⟨cs, by rw [hquote]⟩⟩
      by_cases hline : c = '\n'
      · exact ⟨[], [], c :: cs, rfl, .nil, Or.inr ⟨[], Or.inl rfl, Or.inr ⟨cs, by rw [hline]; rfl⟩⟩⟩
      by_cases hslash : c = '\\'
      · subst hslash
        match cs with
        | [] => exact ⟨[], [], ['\\'], rfl, .nil, Or.inr ⟨['\\'], Or.inr rfl, Or.inl rfl⟩⟩
        | d :: ds =>
            by_cases hd : d = '\n'
            · subst hd
              exact ⟨[], [], '\\' :: '\n' :: ds, rfl, .nil,
                Or.inr ⟨['\\'], Or.inr rfl, Or.inr ⟨ds, rfl⟩⟩⟩
            · obtain ⟨body, value, tail, hds, hbody, htail⟩ := exists_contents quote ds
              exact ⟨'\\' :: d :: body, d :: value, tail, by rw [hds]; rfl, .escaped hd hbody,
                htail⟩
      · obtain ⟨body, value, tail, hcs, hbody, htail⟩ := exists_contents quote cs
        exact ⟨c :: body, c :: value, tail, by rw [hcs]; rfl, .plain hquote hslash hline hbody,
          htail⟩
termination_by text.length

theorem not_mem_digits_of_mem_decimalPoints (c : Char) (h : c ∈ decimalPoints) : c ∉ digits := by
  exact of_listed h (by decide)

theorem number_of_int (whole rest : List Char) (hwhole : ∀ c ∈ whole, c ∈ digits)
    (hrest : ¬ StartsIn (fun c => c ∈ digits ∨ c ∈ decimalPoints) rest) :
    number (whole ++ rest) = .ok (plain .int whole) := by
  have hstop : ¬ StartsIn (· ∈ digits) rest := fun ⟨c, hc, hdigit⟩ => hrest ⟨c, hc, Or.inl hdigit⟩
  obtain ⟨htake, hdrop⟩ := span_of_stop isDigit_iff whole rest hwhole hstop
  rw [number, htake, hdrop]
  cases rest with
  | nil => rfl
  | cons c cs =>
      rw [startsIn_cons, not_or] at hrest
      have hpoint : ¬ isDecimalPoint c = true := fun h => hrest.2 ((isDecimalPoint_iff c).1 h)
      simp [hpoint]

theorem number_of_float (whole decimals rest : List Char) (point : Char)
    (hwhole : ∀ c ∈ whole, c ∈ digits) (hpoint : point ∈ decimalPoints) (hdec : decimals ≠ [])
    (hdecimals : ∀ c ∈ decimals, c ∈ digits) (hrest : ¬ StartsIn (· ∈ digits) rest) :
    number (whole ++ point :: (decimals ++ rest)) =
      .ok (plain .float (whole ++ point :: decimals)) := by
  have hstop : ¬ StartsIn (· ∈ digits) (point :: (decimals ++ rest)) := by
    rw [startsIn_cons]
    exact not_mem_digits_of_mem_decimalPoints point hpoint
  obtain ⟨htake, hdrop⟩ := span_of_stop isDigit_iff whole _ hwhole hstop
  obtain ⟨htake', -⟩ := span_of_stop isDigit_iff decimals rest hdecimals hrest
  have hp := (isDecimalPoint_iff point).2 hpoint
  obtain ⟨d, ds, rfl⟩ := List.exists_cons_of_ne_nil hdec
  simp only [number, htake, hdrop, if_pos hp, htake']

theorem number_of_point (whole after : List Char) (point : Char)
    (hwhole : ∀ c ∈ whole, c ∈ digits) (hpoint : point ∈ decimalPoints)
    (hafter : ¬ StartsIn (· ∈ digits) after) :
    number (whole ++ point :: after) = .error (.malformedFloat whole point) := by
  have hstop : ¬ StartsIn (· ∈ digits) (point :: after) := by
    rw [startsIn_cons]
    exact not_mem_digits_of_mem_decimalPoints point hpoint
  obtain ⟨htake, hdrop⟩ := span_of_stop isDigit_iff whole _ hwhole hstop
  obtain ⟨htake', -⟩ := span_of_stop isDigit_iff [] after nofun hafter
  have hp := (isDecimalPoint_iff point).2 hpoint
  rw [List.nil_append] at htake'
  simp only [number, htake, hdrop, if_pos hp, htake']

theorem word_of_letters (letters rest : List Char) (hletters : ∀ c ∈ letters, WordPart c)
    (hrest : ¬ StartsIn WordPart rest) :
    word (letters ++ rest) = plain (wordKind letters) letters := by
  rw [word, (span_of_stop isWordPart_iff letters rest hletters hrest).1, wordKind]

theorem first_of_digits (whole rest : List Char) (hne : whole ≠ [])
    (hwhole : ∀ c ∈ whole, c ∈ digits) :
    ∃ c after, whole ++ rest = c :: after ∧ first c after = number (whole ++ rest) := by
  obtain ⟨c, cs, rfl⟩ := List.exists_cons_of_ne_nil hne
  have hlead := (Lead.ofChar?_digit_iff c).2 (hwhole c (by simp))
  exact ⟨c, cs ++ rest, rfl, by simp only [first, hlead, List.cons_append]⟩

/-- On a lexeme of the grammar, that lexeme is read. -/
theorem first_of_stands (lexeme : Lexeme) (rest : List Char) (h : lexeme.Stands rest) :
    ∃ c after, lexeme.text ++ rest = c :: after ∧ first c after = .ok lexeme := by
  cases h with
  | @punctuation c kind _ hc =>
      have hlead := (Lead.ofChar?_single_iff c kind).2 (Or.inl hc)
      exact ⟨c, rest, rfl, by simp only [first, hlead, plain]⟩
  | @arithmetic c _ hc =>
      have hlead := (Lead.ofChar?_single_iff c .binOp).2 (Or.inr ⟨hc, rfl⟩)
      exact ⟨c, rest, rfl, by simp only [first, hlead, plain]⟩
  | @pair c d alone _ hc hd =>
      have hlead := (Lead.ofChar?_pair_iff c alone).2 hc
      exact ⟨c, d :: rest, rfl, by
        simp only [first, hlead, plain, if_pos ((isEqualsSign_iff d).2 hd)]⟩
  | @alone c alone _ hc hrest =>
      have hlead := (Lead.ofChar?_pair_iff c alone).2 hc
      refine ⟨c, rest, rfl, ?_⟩
      cases rest with
      | nil => simp only [first, hlead, plain]
      | cons d ds =>
          rw [startsIn_cons, ← isEqualsSign_iff] at hrest
          simp only [first, hlead, plain, if_neg hrest]
  | @double c _ hc =>
      have hlead := (Lead.ofChar?_double_iff c).2 hc
      exact ⟨c, c :: rest, rfl, by simp only [first, hlead, plain, if_true]⟩
  | @string quote body value _ hquote hbody =>
      have hlead := (Lead.ofChar?_quote_iff quote).2 hquote
      refine ⟨quote, body ++ quote :: rest, by simp, ?_⟩
      simp only [first, hlead, string, closing_of_quote quote body value rest hquote hbody]
  | @int whole _ hne hwhole hrest =>
      obtain ⟨c, after, heq, hfirst⟩ := first_of_digits whole rest hne hwhole
      exact ⟨c, after, heq, by rw [hfirst, number_of_int whole rest hwhole hrest, plain]⟩
  | @float whole decimals _ point hne hwhole hpoint hdec hdecimals hrest =>
      obtain ⟨c, after, heq, hfirst⟩ :=
        first_of_digits whole (point :: (decimals ++ rest)) hne hwhole
      refine ⟨c, after, by rw [← heq]; simp, ?_⟩
      rw [hfirst, number_of_float whole decimals rest point hwhole hpoint hdec hdecimals hrest,
        plain]
  | @word c letters _ hc hletters hrest =>
      have hlead := (Lead.ofChar?_word_iff c).2 hc
      have hall : ∀ d ∈ c :: letters, WordPart d := List.forall_mem_cons.2 ⟨Or.inl hc, hletters⟩
      refine ⟨c, letters ++ rest, rfl, ?_⟩
      simp only [first, hlead]
      rw [← List.cons_append, word_of_letters (c :: letters) rest hall hrest, plain]

/-- On a fault of the grammar, that fault is found. -/
theorem first_of_fault (fault : Fault) (text : List Char) (h : fault.Stands text) :
    ∃ c after, text = c :: after ∧ first c after = .error fault := by
  cases h with
  | @stray c after hc =>
      have hlead := (Lead.ofChar?_eq_none_iff c).2 hc.2
      exact ⟨c, after, rfl, by simp only [first, hlead]⟩
  | @half c after hc hafter =>
      have hlead := (Lead.ofChar?_double_iff c).2 hc
      refine ⟨c, after, rfl, ?_⟩
      cases after with
      | nil => simp only [first, hlead]
      | cons d ds =>
          rw [startsIn_cons] at hafter
          simp only [first, hlead, if_neg hafter]
  | @point whole after point hne hwhole hpoint hafter =>
      obtain ⟨c, more, heq, hfirst⟩ := first_of_digits whole (point :: after) hne hwhole
      exact ⟨c, more, heq, by rw [hfirst, number_of_point whole after point hwhole hpoint hafter]⟩
  | @atNewline quote body value slash after hquote hbody hslash =>
      have hlead := (Lead.ofChar?_quote_iff quote).2 hquote
      refine ⟨quote, _, rfl, ?_⟩
      simp only [first, hlead, string, closing_of_newline quote body value slash after hbody hslash]
  | @atEnd quote body value slash hquote hbody hslash =>
      have hlead := (Lead.ofChar?_quote_iff quote).2 hquote
      refine ⟨quote, _, rfl, ?_⟩
      simp only [first, hlead, string, closing_of_end quote body value slash hbody hslash]

/-- The head of a text is a lexeme of the grammar, or a fault of the grammar. -/
def Decided (text : List Char) : Prop :=
  (∃ (lexeme : Lexeme) (rest : List Char), text = lexeme.text ++ rest ∧ lexeme.Stands rest) ∨
    ∃ fault : Fault, fault.Stands text

theorem decided_of_quote (quote : Char) (after : List Char) (hquote : quote ∈ quotes) :
    Decided (quote :: after) := by
  obtain ⟨body, value, tail, rfl, hbody, htail⟩ := exists_contents quote after
  rcases htail with ⟨rest, rfl⟩ | ⟨slash, hslash, rfl | ⟨more, rfl⟩⟩
  · exact Or.inl ⟨_, rest, by simp, .string hquote hbody⟩
  · exact Or.inr ⟨_, .atEnd hquote hbody hslash⟩
  · rw [← List.append_assoc]
    exact Or.inr ⟨_, .atNewline hquote hbody hslash⟩

theorem decided_of_digit (c : Char) (after : List Char) (hc : c ∈ digits) :
    Decided (c :: after) := by
  obtain ⟨more, rest, rfl, hmore, hrest⟩ := exists_span isDigit_iff after
  have hne : c :: more ≠ [] := List.cons_ne_nil c more
  have hwhole : ∀ d ∈ c :: more, d ∈ digits := List.forall_mem_cons.2 ⟨hc, hmore⟩
  by_cases hpoint : StartsIn (· ∈ decimalPoints) rest
  · cases rest with
    | nil => exact absurd hpoint (not_startsIn_nil _)
    | cons point after =>
        rw [startsIn_cons] at hpoint
        obtain ⟨decimals, rest, rfl, hdecimals, hstop⟩ := exists_span isDigit_iff after
        by_cases hdec : decimals = []
        · subst hdec
          exact Or.inr ⟨_, .point hne hwhole hpoint hstop⟩
        · refine Or.inl ⟨_, rest, ?_, .float hne hwhole hpoint hdec hdecimals hstop⟩
          simp
  · have hstop : ¬ StartsIn (fun d => d ∈ digits ∨ d ∈ decimalPoints) rest := by
      rintro ⟨d, hd, hdigit | hp⟩
      · exact hrest ⟨d, hd, hdigit⟩
      · exact hpoint ⟨d, hd, hp⟩
    exact Or.inl ⟨_, rest, rfl, .int hne hwhole hstop⟩

/-- The grammar leaves no text out. -/
theorem decided_cons (c : Char) (after : List Char) (hc : ¬ Gap.Part c) : Decided (c :: after) := by
  cases hlead : Lead.ofChar? c with
  | none => exact Or.inr ⟨_, .stray ⟨hc, (Lead.ofChar?_eq_none_iff c).1 hlead⟩⟩
  | some lead =>
      cases lead with
      | single kind =>
          rcases (Lead.ofChar?_single_iff c kind).1 hlead with hp | ⟨ha, rfl⟩
          · exact Or.inl ⟨_, after, rfl, .punctuation hp⟩
          · exact Or.inl ⟨_, after, rfl, .arithmetic ha⟩
      | pair alone =>
          have hpair := (Lead.ofChar?_pair_iff c alone).1 hlead
          by_cases hequals : StartsIn (· ∈ equalsSigns) after
          · obtain ⟨d, hd, hequals⟩ := hequals
            obtain ⟨rest, rfl⟩ := List.head?_eq_some_iff.1 hd
            exact Or.inl ⟨_, rest, rfl, .pair hpair hequals⟩
          · exact Or.inl ⟨_, after, rfl, .alone hpair hequals⟩
      | double =>
          have hdouble := (Lead.ofChar?_double_iff c).1 hlead
          by_cases hsame : StartsIn (· = c) after
          · obtain ⟨d, hd, rfl⟩ := hsame
            obtain ⟨rest, rfl⟩ := List.head?_eq_some_iff.1 hd
            exact Or.inl ⟨_, rest, rfl, .double hdouble⟩
          · exact Or.inr ⟨_, .half hdouble hsame⟩
      | quote => exact decided_of_quote c after ((Lead.ofChar?_quote_iff c).1 hlead)
      | digit => exact decided_of_digit c after ((Lead.ofChar?_digit_iff c).1 hlead)
      | word =>
          obtain ⟨letters, rest, rfl, hletters, hrest⟩ := exists_span isWordPart_iff after
          exact Or.inl ⟨_, rest, rfl, .word ((Lead.ofChar?_word_iff c).1 hlead) hletters hrest⟩

theorem not_part_of_ofChar? (c : Char) (lead : Lead) (h : Lead.ofChar? c = some lead) :
    ¬ Gap.Part c := by
  intro hc
  have hnone : Lead.ofChar? c = none := by
    exact of_listed (List.mem_append.2 hc) (by decide)
  rw [hnone] at h
  cases h

theorem Stands.startsIn_lead {lexeme : Lexeme} {rest : List Char} (h : lexeme.Stands rest) :
    StartsIn (fun c => ∃ lead, Lead.ofChar? c = some lead) (lexeme.text ++ rest) := by
  obtain ⟨c, after, heq, hfirst⟩ := first_of_stands lexeme rest h
  rw [heq, startsIn_cons]
  cases hlead : Lead.ofChar? c with
  | none =>
      simp only [first, hlead] at hfirst
      cases hfirst
  | some lead => exact ⟨lead, rfl⟩

theorem Stands.not_startsIn_part {lexeme : Lexeme} {rest : List Char} (h : lexeme.Stands rest) :
    ¬ StartsIn Gap.Part (lexeme.text ++ rest) := by
  obtain ⟨c, hc, lead, hlead⟩ := h.startsIn_lead
  rintro ⟨d, hd, hpart⟩
  cases hc.symm.trans hd
  exact not_part_of_ofChar? c lead hlead hpart

theorem Stands.unique {lexeme lexeme' : Lexeme} {rest rest' : List Char} (h : lexeme.Stands rest)
    (h' : lexeme'.Stands rest') (heq : lexeme.text ++ rest = lexeme'.text ++ rest') :
    lexeme = lexeme' ∧ rest = rest' := by
  obtain ⟨c, after, hc, hfirst⟩ := first_of_stands lexeme rest h
  obtain ⟨c', after', hc', hfirst'⟩ := first_of_stands lexeme' rest' h'
  obtain ⟨rfl, rfl⟩ := List.cons.inj (hc.symm.trans (heq.trans hc'))
  obtain rfl : lexeme = lexeme' := Except.ok.inj (hfirst.symm.trans hfirst')
  exact ⟨rfl, List.append_cancel_left heq⟩

theorem Stands.not_fault {lexeme : Lexeme} {rest : List Char} (h : lexeme.Stands rest)
    (fault : Fault) : ¬ fault.Stands (lexeme.text ++ rest) := by
  intro hfault
  obtain ⟨c, after, hc, hfirst⟩ := first_of_stands lexeme rest h
  obtain ⟨c', after', hc', hfirst'⟩ := first_of_fault fault _ hfault
  obtain ⟨rfl, rfl⟩ := List.cons.inj (hc.symm.trans hc')
  cases hfirst.symm.trans hfirst'

theorem Stands.text_ne_nil {lexeme : Lexeme} {rest : List Char} (h : lexeme.Stands rest) :
    lexeme.text ≠ [] := by
  obtain ⟨c, after, -, hfirst⟩ := first_of_stands lexeme rest h
  exact (exists_append_of_first hfirst).1

theorem isKeyword_or_identifier (letters : List Char) :
    (wordKind letters).isKeyword = true ∨ wordKind letters = .identifier := by
  unfold wordKind
  cases hkind : Keyword.kindOf? (String.ofList letters) with
  | none => exact Or.inr rfl
  | some kind => exact Or.inl (Keyword.isKeyword_of_kindOf? hkind)

/-- The end of the input is no lexeme, and only literals in quotes are strings. -/
theorem Stands.kind_ne {lexeme : Lexeme} {rest : List Char} (h : lexeme.Stands rest) :
    lexeme.kind ≠ .endOfInput ∧ (lexeme.kind = .string →
      ∃ quote body value, quote ∈ quotes ∧ Contents quote body value ∧
        lexeme = ⟨.string, quote :: (body ++ [quote]), value⟩) := by
  have hpunctuation : ∀ p ∈ Script.punctuation, p.2 ≠ .endOfInput ∧ p.2 ≠ .string := by decide
  have hcomparisons : ∀ p ∈ comparisons, p.2 ≠ .endOfInput ∧ p.2 ≠ .string := by decide
  cases h with
  | punctuation hc =>
      obtain ⟨hend, hstring⟩ := hpunctuation _ hc
      exact ⟨hend, fun hk => absurd hk hstring⟩
  | alone hc hrest =>
      obtain ⟨hend, hstring⟩ := hcomparisons _ hc
      exact ⟨hend, fun hk => absurd hk hstring⟩
  | @string quote body value _ hquote hbody =>
      exact ⟨by simp, fun _ => ⟨quote, body, value, hquote, hbody, rfl⟩⟩
  | @word c letters _ hc hletters hrest =>
      dsimp only
      rcases isKeyword_or_identifier (c :: letters) with hkeyword | hidentifier
      · exact ⟨fun hk => by simp [hk, Kind.isKeyword] at hkeyword,
          fun hk => by simp [hk, Kind.isKeyword] at hkeyword⟩
      · simp [hidentifier]
  | arithmetic => simp
  | pair => simp
  | double => simp
  | int => simp
  | float => simp

end Lexeme

namespace Fault

theorem Stands.not_startsIn_part {fault : Fault} {text : List Char} (h : fault.Stands text) :
    ¬ StartsIn Gap.Part text := by
  have hquote : ∀ quote ∈ quotes, ¬ Gap.Part quote := fun quote hq =>
    Lexeme.not_part_of_ofChar? quote _ ((Lead.ofChar?_quote_iff quote).2 hq)
  cases h with
  | stray hc =>
      rw [startsIn_cons]
      exact hc.1
  | @half c after hc hafter =>
      rw [startsIn_cons]
      exact Lexeme.not_part_of_ofChar? c _ ((Lead.ofChar?_double_iff c).2 hc)
  | @point whole after point hne hwhole hpoint hafter =>
      obtain ⟨c, cs, rfl⟩ := List.exists_cons_of_ne_nil hne
      rw [List.cons_append, startsIn_cons]
      exact Lexeme.not_part_of_ofChar? c _ ((Lead.ofChar?_digit_iff c).2 (hwhole c (by simp)))
  | @atNewline quote _ _ _ _ hq _ _ =>
      rw [startsIn_cons]
      exact hquote quote hq
  | @atEnd quote _ _ _ hq _ _ =>
      rw [startsIn_cons]
      exact hquote quote hq

theorem Stands.exists_point {whole text : List Char} {point : Char}
    (h : Stands (.malformedFloat whole point) text) :
    ∃ after, text = whole ++ point :: after ∧ whole ≠ [] ∧ (∀ c ∈ whole, c ∈ digits) ∧
      point ∈ decimalPoints := by
  cases h with
  | @point _ after _ hne hwhole hpoint hafter => exact ⟨after, rfl, hne, hwhole, hpoint⟩

theorem Stands.exists_append {fault : Fault} {text : List Char} (h : fault.Stands text) :
    ∃ rest, text = fault.passed ++ rest := by
  cases h with
  | @stray c after hc => exact ⟨c :: after, rfl⟩
  | @half c after hc hafter => exact ⟨c :: after, rfl⟩
  | @point whole after point hne hwhole hpoint hafter => exact ⟨point :: after, rfl⟩
  | @atNewline quote body value slash after hq hbody hslash => exact ⟨after, by simp [passed]⟩
  | atEnd hq hbody hslash => exact ⟨[], by simp [passed]⟩

end Fault
end TwinScript
