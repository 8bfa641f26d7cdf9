import TwinScript.Proofs.Symbols

/-!
# The lexical grammar

A text is made of gaps and lexemes. What each may be is written here as it stands in a text: the
predicates take the part itself and the rest of the text after it, because a comment has to be
ended by what follows, and because a number, a word or a sign must not go on in what follows.
Faults are described in the same way. None of it mentions how a text is read.
-/
namespace TwinScript
open Script
open Token (Kind)

def Text.StartsIn (P : Char → Prop) (text : List Char) : Prop :=
  ∃ c, text.head? = some c ∧ P c

def Gap.Part (c : Char) : Prop := c ∈ spaces ∨ c ∈ commentMarks

/-- A sequence of spaces and comments, with the rest of the text after it. A comment ends only at
a newline or at the end of the text. -/
inductive Gap.Stands : List Char → List Char → Prop
  | nil (rest : List Char) : Stands [] rest
  | space {c : Char} {gap rest : List Char} (hc : c ∈ spaces) (h : Stands gap rest) :
      Stands (c :: gap) rest
  | comment {mark : Char} {body gap rest : List Char} (hmark : mark ∈ commentMarks)
      (hbody : '\n' ∉ body) (hend : ¬ Text.StartsIn (· ≠ '\n') (gap ++ rest))
      (h : Stands gap rest) : Stands (mark :: (body ++ gap)) rest

/-- What may stand between two quotes, with the characters it stands for. -/
inductive Contents (quote : Char) : List Char → List Char → Prop
  | nil : Contents quote [] []
  | plain {c : Char} {text value : List Char} (hquote : c ≠ quote) (hslash : c ≠ '\\')
      (hline : c ≠ '\n') (h : Contents quote text value) : Contents quote (c :: text) (c :: value)
  | escaped {c : Char} {text value : List Char} (hline : c ≠ '\n')
      (h : Contents quote text value) : Contents quote ('\\' :: c :: text) (c :: value)

/-- A character that a word may hold after its first. -/
def WordPart (c : Char) : Prop := isWordStart c = true ∨ c ∈ digits ∨ c ∈ underscores

instance (c : Char) : Decidable (WordPart c) := inferInstanceAs (Decidable (_ ∨ _ ∨ _))

def wordKind (letters : List Char) : Kind :=
  (Keyword.kindOf? (String.ofList letters)).getD .identifier

namespace Lexeme

/-- A lexeme with the rest of the text after it. -/
inductive Stands : Lexeme → List Char → Prop
  | punctuation {c : Char} {kind : Kind} {rest : List Char} (hc : (c, kind) ∈ punctuation) :
      Stands ⟨kind, [c], [c]⟩ rest
  | arithmetic {c : Char} {rest : List Char} (hc : c ∈ arithmetic) : Stands ⟨.binOp, [c], [c]⟩ rest
  | pair {c d : Char} {alone : Kind} {rest : List Char} (hc : (c, alone) ∈ comparisons)
      (hd : d ∈ equalsSigns) : Stands ⟨.binOp, [c, d], [c, d]⟩ rest
  | alone {c : Char} {alone : Kind} {rest : List Char} (hc : (c, alone) ∈ comparisons)
      (hrest : ¬ Text.StartsIn (· ∈ equalsSigns) rest) : Stands ⟨alone, [c], [c]⟩ rest
  | double {c : Char} {rest : List Char} (hc : c ∈ doubled) : Stands ⟨.binOp, [c, c], [c, c]⟩ rest
  | string {quote : Char} {body value rest : List Char} (hquote : quote ∈ quotes)
      (hbody : Contents quote body value) : Stands ⟨.string, quote :: (body ++ [quote]), value⟩ rest
  | int {whole rest : List Char} (hne : whole ≠ []) (hwhole : ∀ c ∈ whole, c ∈ digits)
      (hrest : ¬ Text.StartsIn (fun c => c ∈ digits ∨ c ∈ decimalPoints) rest) :
      Stands ⟨.int, whole, whole⟩ rest
  | float {whole decimals rest : List Char} {point : Char} (hne : whole ≠ [])
      (hwhole : ∀ c ∈ whole, c ∈ digits) (hpoint : point ∈ decimalPoints) (hdec : decimals ≠ [])
      (hdecimals : ∀ c ∈ decimals, c ∈ digits) (hrest : ¬ Text.StartsIn (· ∈ digits) rest) :
      Stands ⟨.float, whole ++ point :: decimals, whole ++ point :: decimals⟩ rest
  | word {c : Char} {letters rest : List Char} (hc : isWordStart c = true)
      (hletters : ∀ d ∈ letters, WordPart d) (hrest : ¬ Text.StartsIn WordPart rest) :
      Stands ⟨wordKind (c :: letters), c :: letters, c :: letters⟩ rest

end Lexeme

/-- A character that begins no gap and no lexeme. -/
def Stray (c : Char) : Prop :=
  ¬ Gap.Part c ∧ (∀ lead, (c, lead) ∉ Lead.symbols) ∧ c ∉ digits ∧ ¬ isWordStart c = true

/-- A backslash at the very place where a literal is cut off escapes nothing. -/
def Dangling (slash : List Char) : Prop := slash = [] ∨ slash = ['\\']

/-- A fault at the head of a text. -/
inductive Fault.Stands : Fault → List Char → Prop
  | stray {c : Char} {after : List Char} (hc : Stray c) : Stands (.unrecognized c) (c :: after)
  | half {c : Char} {after : List Char} (hc : c ∈ doubled)
      (hafter : ¬ Text.StartsIn (· = c) after) : Stands (.unrecognized c) (c :: after)
  | point {whole after : List Char} {point : Char} (hne : whole ≠ [])
      (hwhole : ∀ c ∈ whole, c ∈ digits) (hpoint : point ∈ decimalPoints)
      (hafter : ¬ Text.StartsIn (· ∈ digits) after) :
      Stands (.malformedFloat whole point) (whole ++ point :: after)
  | atNewline {quote : Char} {body value slash after : List Char} (hquote : quote ∈ quotes)
      (hbody : Contents quote body value) (hslash : Dangling slash) :
      Stands (.unterminatedString (quote :: (body ++ slash ++ ['\n'])))
        (quote :: (body ++ slash ++ '\n' :: after))
  | atEnd {quote : Char} {body value slash : List Char} (hquote : quote ∈ quotes)
      (hbody : Contents quote body value) (hslash : Dangling slash) :
      Stands (.unterminatedString (quote :: (body ++ slash))) (quote :: (body ++ slash))

namespace Text

@[simp] theorem not_startsIn_nil (P : Char → Prop) : ¬ StartsIn P [] := by
  simp [StartsIn]

@[simp] theorem startsIn_cons (P : Char → Prop) (c : Char) (cs : List Char) :
    StartsIn P (c :: cs) ↔ P c := by
  simp [StartsIn]

instance (P : Char → Prop) [DecidablePred P] : DecidablePred (StartsIn P)
  | [] => isFalse (not_startsIn_nil P)
  | c :: cs => decidable_of_iff (P c) (startsIn_cons P c cs).symm

variable {p : Char → Bool} {P : Char → Prop}

theorem span_of_stop (hp : ∀ c, p c = true ↔ P c) (as bs : List Char) (has : ∀ c ∈ as, P c)
    (hbs : ¬ StartsIn P bs) : (as ++ bs).takeWhile p = as ∧ (as ++ bs).dropWhile p = bs := by
  have hall : ∀ c ∈ as, p c = true := fun c hc => (hp c).2 (has c hc)
  rw [List.takeWhile_append_of_pos hall, List.dropWhile_append_of_pos hall]
  cases bs with
  | nil => simp
  | cons b bs =>
      rw [startsIn_cons, ← hp] at hbs
      rw [List.takeWhile_cons_of_neg hbs, List.dropWhile_cons_of_neg hbs, List.append_nil]
      exact ⟨rfl, rfl⟩

theorem exists_span (hp : ∀ c, p c = true ↔ P c) (text : List Char) :
    ∃ as bs, text = as ++ bs ∧ (∀ c ∈ as, P c) ∧ ¬ StartsIn P bs := by
  induction text with
  | nil => exact ⟨[], [], rfl, nofun, not_startsIn_nil P⟩
  | cons c cs ih =>
      by_cases hc : p c = true
      · obtain ⟨as, bs, rfl, has, hbs⟩ := ih
        exact ⟨c :: as, bs, rfl, List.forall_mem_cons.2 ⟨(hp c).1 hc, has⟩, hbs⟩
      · refine ⟨[], c :: cs, rfl, nofun, ?_⟩
        rwa [startsIn_cons, ← hp]

end Text
end TwinScript
