import TwinScript.Lexeme

/-!
# The symbols, listed

Each class of symbols is written out below, with both scripts side by side. The classes of
`Script` and the table `Lead.ofChar?` work on `narrow` forms instead; the statements here say that
they hold exactly the characters listed.
-/
namespace TwinScript.Script
open Token (Kind)

def twins : List (Char × Char) :=
  [('（', '('), ('）', ')'), ('【', '['), ('】', ']'), ('｛', '\x7b'), ('｝', '\x7d'),
    ('：', ':'), ('．', '.'), ('；', ';'), ('，', ','), ('、', ','), ('？', '?'),
    ('＋', '+'), ('－', '-'), ('＊', '*'), ('／', '/'), ('％', '%'), ('＾', '^'),
    ('！', '!'), ('＜', '<'), ('＞', '>'), ('＝', '='), ('｜', '|'), ('＆', '&'),
    ('＃', '#'), ('＿', '_'), ('\u3000', ' '),
    ('０', '0'), ('１', '1'), ('２', '2'), ('３', '3'), ('４', '4'),
    ('５', '5'), ('６', '6'), ('７', '7'), ('８', '8'), ('９', '9')]

def spaces : List Char := [' ', '\u3000', '\t', '\r', '\n']

def commentMarks : List Char := ['#', '＃']

def decimalPoints : List Char := ['.', '．']

def equalsSigns : List Char := ['=', '＝']

def underscores : List Char := ['_', '＿']

def digits : List Char :=
  ['0', '1', '2', '3', '4', '5', '6', '7', '8', '9',
    '０', '１', '２', '３', '４', '５', '６', '７', '８', '９']

def punctuation : List (Char × Kind) :=
  [('(', .openParen), ('（', .openParen), (')', .closeParen), ('）', .closeParen),
    ('[', .openBracket), ('【', .openBracket), (']', .closeBracket), ('】', .closeBracket),
    ('\x7b', .openBrace), ('｛', .openBrace), ('\x7d', .closeBrace), ('｝', .closeBrace),
    (':', .colon), ('：', .colon), ('.', .period), ('。', .period), ('．', .period),
    (';', .semicolon), ('；', .semicolon), (',', .comma), ('，', .comma), ('、', .comma),
    ('?', .question), ('？', .question)]

def arithmetic : List Char :=
  ['+', '＋', '-', '－', '*', '＊', '/', '／', '%', '％', '^', '＾']

/-- The signs that may take an equals sign, with the kind of each when it stands alone. -/
def comparisons : List (Char × Kind) :=
  [('!', .bang), ('！', .bang), ('<', .binOp), ('＜', .binOp), ('>', .binOp), ('＞', .binOp),
    ('=', .equals), ('＝', .equals)]

def doubled : List Char := ['|', '｜', '&', '＆']

def quotes : List Char := ['\'', '”']

/-- What holds of each symbol of a list, one by one, holds of every symbol in it. -/
@[elab_as_elim] theorem of_listed {α : Type} {P : α → Prop} [DecidablePred P] {as : List α} {a : α}
    (h : a ∈ as) (hall : as.all (fun b => decide (P b)) = true) : P a :=
  of_decide_eq_true (List.all_eq_true.1 hall a h)

theorem narrow_eq_self_or_twin (c : Char) : narrow c = c ∨ (c, narrow c) ∈ twins := by
  fun_cases narrow c
  case case38 => exact Or.inl rfl
  all_goals exact Or.inr (by decide)

theorem narrow_eq_iff (c d : Char) (hd : narrow d = d) :
    narrow c = d ↔ c = d ∨ (c, d) ∈ twins := by
  constructor
  · intro h
    subst h
    rcases narrow_eq_self_or_twin c with hself | htwin
    · exact Or.inl hself.symm
    · exact Or.inr htwin
  · rintro (rfl | hmem)
    · exact hd
    · have hall : ∀ p ∈ twins, narrow p.1 = p.2 := by decide
      exact hall (c, d) hmem

theorem isSpacing_iff (c : Char) : isSpacing c = true ↔ c ∈ spaces := by
  simp [isSpacing, narrow_eq_iff c ' ' rfl, twins, spaces, or_assoc]

theorem isCommentMark_iff (c : Char) : isCommentMark c = true ↔ c ∈ commentMarks := by
  simp [isCommentMark, narrow_eq_iff c '#' rfl, twins, commentMarks]

theorem isDecimalPoint_iff (c : Char) : isDecimalPoint c = true ↔ c ∈ decimalPoints := by
  simp [isDecimalPoint, narrow_eq_iff c '.' rfl, twins, decimalPoints]

theorem isEqualsSign_iff (c : Char) : isEqualsSign c = true ↔ c ∈ equalsSigns := by
  simp [isEqualsSign, narrow_eq_iff c '=' rfl, twins, equalsSigns]

theorem mem_digits_of_isDigit_ascii (c : Char) (h : c.isDigit = true) : c ∈ digits := by
  obtain ⟨hlow, hhigh⟩ := Char.isDigit_iff_toNat.1 h
  have hall : ∀ n < 10, Char.ofNat ('0'.toNat + n) ∈ digits := by decide
  have hn : c.toNat - '0'.toNat < 10 := by
    change c.toNat ≤ 57 at hhigh
    change c.toNat - 48 < 10
    omega
  have hc := hall _ hn
  rwa [Nat.add_sub_cancel' hlow, Char.ofNat_toNat] at hc

theorem isDigit_iff (c : Char) : isDigit c = true ↔ c ∈ digits := by
  constructor
  · intro h
    rcases narrow_eq_self_or_twin c with hself | htwin
    · rw [isDigit, hself] at h
      exact mem_digits_of_isDigit_ascii c h
    · have hall : ∀ p ∈ twins, p.2.isDigit = true → p.1 ∈ digits := by decide
      exact hall _ htwin h
  · intro h
    exact of_listed h (by decide)

theorem isWordPart_iff (c : Char) :
    isWordPart c = true ↔ isWordStart c = true ∨ c ∈ digits ∨ c ∈ underscores := by
  simp [isWordPart, isDigit_iff, narrow_eq_iff c '_' rfl, twins, underscores, or_assoc]

end TwinScript.Script

namespace TwinScript.Lead
open Script

/-- Each symbol that can begin a lexeme, with what it says about the lexeme. -/
def symbols : List (Char × Lead) :=
  punctuation.map (fun (c, kind) => (c, .single kind)) ++
    arithmetic.map (fun c => (c, .single .binOp)) ++
    comparisons.map (fun (c, alone) => (c, .pair alone)) ++
    doubled.map (fun c => (c, .double)) ++ quotes.map (fun c => (c, .quote))

theorem ofChar?_of_mem_symbols (c : Char) (lead : Lead) (h : (c, lead) ∈ symbols) :
    ofChar? c = some lead := by
  have hall : ∀ p ∈ symbols, ofChar? p.1 = some p.2 := by decide
  exact hall (c, lead) h

theorem ofChar?_of_mem_digits (c : Char) (h : c ∈ digits) : ofChar? c = some .digit := by
  exact of_listed h (by decide)

theorem not_isWordStart_of_mem_digits (c : Char) (h : c ∈ digits) : ¬ isWordStart c = true := by
  exact of_listed h (by decide)

/-- No letter is a symbol, so the letters are what the table leaves to words. -/
theorem ofChar?_of_isWordStart (c : Char) (h : isWordStart c = true) :
    ofChar? c = some .word := by
  rcases narrow_eq_self_or_twin c with hself | htwin
  · have hdigit : ¬ isDigit c = true := fun hd =>
      not_isWordStart_of_mem_digits c ((isDigit_iff c).1 hd) h
    unfold ofChar?
    rw [hself]
    split
    -- every other row of the table is one narrow symbol, and none of these is a letter
    case h_27 => rw [if_neg hdigit, if_pos h]
    all_goals exact absurd h (by decide)
  · have hall : ∀ p ∈ twins, ¬ isWordStart p.1 = true := by decide
    exact absurd h (hall _ htwin)

theorem mem_of_ofChar? (c : Char) (lead : Lead) (h : ofChar? c = some lead) :
    (c, lead) ∈ symbols ∨ lead = .digit ∧ c ∈ digits ∨ lead = .word ∧ isWordStart c = true := by
  rcases narrow_eq_self_or_twin c with hself | htwin
  · unfold ofChar? at h
    rw [hself] at h
    split at h
    case h_27 =>
      by_cases hdigit : isDigit c = true
      · rw [if_pos hdigit] at h
        exact Or.inr (Or.inl ⟨(Option.some.inj h).symm, (isDigit_iff c).1 hdigit⟩)
      · by_cases hword : isWordStart c = true
        · rw [if_neg hdigit, if_pos hword] at h
          exact Or.inr (Or.inr ⟨(Option.some.inj h).symm, hword⟩)
        · rw [if_neg hdigit, if_neg hword] at h
          cases h
    all_goals
      cases h
      exact Or.inl (by decide)
  · have hall : ∀ p ∈ twins, ∀ l ∈ ofChar? p.1,
        (p.1, l) ∈ symbols ∨ l = .digit ∧ p.1 ∈ digits ∨ l = .word ∧ isWordStart p.1 = true := by
      decide
    exact hall _ htwin lead h

theorem ofChar?_eq_some_iff (c : Char) (lead : Lead) :
    ofChar? c = some lead ↔
      (c, lead) ∈ symbols ∨ lead = .digit ∧ c ∈ digits ∨ lead = .word ∧ isWordStart c = true := by
  constructor
  · exact mem_of_ofChar? c lead
  · rintro (hsymbol | ⟨rfl, hdigit⟩ | ⟨rfl, hword⟩)
    · exact ofChar?_of_mem_symbols c lead hsymbol
    · exact ofChar?_of_mem_digits c hdigit
    · exact ofChar?_of_isWordStart c hword

theorem ofChar?_single_iff (c : Char) (kind : Token.Kind) :
    ofChar? c = some (.single kind) ↔
      (c, kind) ∈ punctuation ∨ c ∈ arithmetic ∧ kind = .binOp := by
  rw [ofChar?_eq_some_iff]
  simp only [symbols, List.mem_append, List.mem_map, Prod.mk.injEq, Prod.exists, single.injEq,
    reduceCtorEq, and_false, exists_false, or_false, false_and]
  constructor
  · rintro (⟨d, k, hd, rfl, rfl⟩ | ⟨d, hd, rfl, rfl⟩)
    · exact Or.inl hd
    · exact Or.inr ⟨hd, rfl⟩
  · rintro (hc | ⟨hc, rfl⟩)
    · exact Or.inl ⟨c, kind, hc, rfl, rfl⟩
    · exact Or.inr ⟨c, hc, rfl, rfl⟩

theorem ofChar?_pair_iff (c : Char) (alone : Token.Kind) :
    ofChar? c = some (.pair alone) ↔ (c, alone) ∈ comparisons := by
  rw [ofChar?_eq_some_iff]
  simp [symbols]

theorem ofChar?_double_iff (c : Char) : ofChar? c = some .double ↔ c ∈ doubled := by
  rw [ofChar?_eq_some_iff]
  simp [symbols]

theorem ofChar?_quote_iff (c : Char) : ofChar? c = some .quote ↔ c ∈ quotes := by
  rw [ofChar?_eq_some_iff]
  simp [symbols]

theorem ofChar?_digit_iff (c : Char) : ofChar? c = some .digit ↔ c ∈ digits := by
  rw [ofChar?_eq_some_iff]
  simp [symbols]

theorem ofChar?_word_iff (c : Char) : ofChar? c = some .word ↔ isWordStart c = true := by
  rw [ofChar?_eq_some_iff]
  simp [symbols]

theorem ofChar?_eq_none_iff (c : Char) :
    ofChar? c = none ↔
      (∀ lead, (c, lead) ∉ symbols) ∧ c ∉ digits ∧ ¬ isWordStart c = true := by
  constructor
  · intro h
    have hnot : ∀ lead, ¬ ofChar? c = some lead := by simp [h]
    refine ⟨fun lead hlead => hnot lead ?_, fun hdigit => hnot .digit ?_,
      fun hword => hnot .word ?_⟩
    · exact ofChar?_of_mem_symbols c lead hlead
    · exact ofChar?_of_mem_digits c hdigit
    · exact ofChar?_of_isWordStart c hword
  · rintro ⟨hsymbol, hdigit, hword⟩
    cases h : ofChar? c with
    | none => rfl
    | some lead =>
        rcases mem_of_ofChar? c lead h with hs | ⟨-, hd⟩ | ⟨-, hw⟩
        · exact absurd hs (hsymbol lead)
        · exact absurd hd hdigit
        · exact absurd hw hword

end TwinScript.Lead
