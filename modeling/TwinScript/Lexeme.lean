import TwinScript.Keyword
import TwinScript.Script
import TwinScript.Text.Utf8

/-!
# Lexemes

What stands at the head of a text is decided by its first character, with at most one more
character of lookahead. `Lexeme.first` gives the lexeme there or the fault that keeps it from being
one. A lexeme is always as long as it can be.
-/
namespace TwinScript
open Script
open Token (Kind)

/-- A piece of text that makes one token. The value is the text itself, except that a string
literal stands for its contents. -/
structure Lexeme where
  kind : Kind
  text : List Char
  value : List Char
  deriving DecidableEq, Repr

/-- Why no lexeme stands at the head of a text. -/
inductive Fault
  | unrecognized (c : Char)
  | unterminatedString (text : List Char)
  | malformedFloat (digits : List Char) (point : Char)
  deriving DecidableEq, Repr

namespace Fault

/-- The text before the place where the fault is reported. -/
def lead : Fault → List Char
  | unrecognized _ => []
  | unterminatedString _ => []
  | malformedFloat digits _ => digits

def extent : Fault → List Char
  | unrecognized c => [c]
  | unterminatedString text => text
  | malformedFloat _ point => [point]

/-- The text given up, after which reading can go on. -/
def passed : Fault → List Char
  | unrecognized _ => []
  | unterminatedString text => text
  | malformedFloat digits _ => digits

end Fault

/-- What the first character of a lexeme says about it. -/
inductive Lead
  /-- a lexeme of its own -/
  | single (kind : Kind)
  /-- an operator together with an equals sign, and of the given kind without -/
  | pair (alone : Kind)
  /-- an operator when written twice -/
  | double
  | quote
  | digit
  | word
  deriving DecidableEq, Repr

def Lead.ofChar? (c : Char) : Option Lead :=
  match narrow c with
  | '(' => some (.single .openParen)
  | ')' => some (.single .closeParen)
  | '[' => some (.single .openBracket)
  | ']' => some (.single .closeBracket)
  | '\x7b' => some (.single .openBrace)
  | '\x7d' => some (.single .closeBrace)
  | ':' => some (.single .colon)
  | '.' | '。' => some (.single .period)
  | ';' => some (.single .semicolon)
  | ',' => some (.single .comma)
  | '?' => some (.single .question)
  | '+' | '-' | '*' | '/' | '%' | '^' => some (.single .binOp)
  | '!' => some (.pair .bang)
  | '<' | '>' => some (.pair .binOp)
  | '=' => some (.pair .equals)
  | '|' | '&' => some .double
  | '\'' | '”' => some .quote
  | _ =>
    if isDigit c then some .digit
    else if isWordStart c then some .word
    else none

theorem Lead.isDigit_of_ofChar? {c : Char} (h : Lead.ofChar? c = some .digit) :
    isDigit c = true := by
  unfold ofChar? at h
  split at h
  any_goals cases h
  split at h
  · assumption
  · split at h <;> cases h

theorem Lead.isWordStart_of_ofChar? {c : Char} (h : Lead.ofChar? c = some .word) :
    isWordStart c = true := by
  unfold ofChar? at h
  split at h
  any_goals cases h
  split at h
  · cases h
  · split at h
    · assumption
    · cases h

namespace Lexeme

def plain (kind : Kind) (text : List Char) : Lexeme := ⟨kind, text, text⟩

/-- The text of a string literal after its opening quote, up to and including the closing one, with
the characters it stands for. A backslash makes the next character stand for itself. The literal
closes on its own line: the error is the text up to and including the newline, or all of it. -/
def closing (quote : Char) : List Char → Except (List Char) (List Char × List Char)
  | [] => .error []
  | '\n' :: _ => .error ['\n']
  | '\\' :: [] => .error ['\\']
  | '\\' :: '\n' :: _ => .error ['\\', '\n']
  | '\\' :: c :: cs =>
    match closing quote cs with
    | .error text => .error ('\\' :: c :: text)
    | .ok (text, value) => .ok ('\\' :: c :: text, c :: value)
  | c :: cs =>
    if c = quote then .ok ([c], [])
    else
      match closing quote cs with
      | .error text => .error (c :: text)
      | .ok (text, value) => .ok (c :: text, c :: value)

def string (quote : Char) (after : List Char) : Except Fault Lexeme :=
  match closing quote after with
  | .error text => .error (.unterminatedString (quote :: text))
  | .ok (text, value) => .ok ⟨.string, quote :: text, value⟩

/-- The number at the head of a text that starts with a digit. A decimal point right after the
digits belongs to the number, and then needs digits after it. -/
def number (text : List Char) : Except Fault Lexeme :=
  let digits := text.takeWhile isDigit
  match text.dropWhile isDigit with
  | [] => .ok (plain .int digits)
  | point :: after =>
    if isDecimalPoint point then
      match after.takeWhile isDigit with
      | [] => .error (.malformedFloat digits point)
      | decimals => .ok (plain .float (digits ++ point :: decimals))
    else .ok (plain .int digits)

def word (text : List Char) : Lexeme :=
  let letters := text.takeWhile isWordPart
  plain ((Keyword.kindOf? (String.ofList letters)).getD .identifier) letters

def first (c : Char) (after : List Char) : Except Fault Lexeme :=
  match Lead.ofChar? c with
  | none => .error (.unrecognized c)
  | some (.single kind) => .ok (plain kind [c])
  | some (.pair alone) =>
    match after with
    | d :: _ => if isEqualsSign d then .ok (plain .binOp [c, d]) else .ok (plain alone [c])
    | [] => .ok (plain alone [c])
  | some .double =>
    match after with
    | d :: _ => if d = c then .ok (plain .binOp [c, d]) else .error (.unrecognized c)
    | [] => .error (.unrecognized c)
  | some .quote => string c after
  | some .digit => number (c :: after)
  | some .word => .ok (word (c :: after))

theorem exists_append_of_closing {quote : Char} {cs text value : List Char}
    (h : closing quote cs = .ok (text, value)) : ∃ rest, cs = text ++ rest := by
  fun_induction closing quote cs generalizing text value with
  | case1 | case2 | case3 | case4 | case5 | case8 => cases h
  | case6 c cs _ text' value' hc ih =>
    simp only [Except.ok.injEq, Prod.mk.injEq] at h
    obtain ⟨rfl, rfl⟩ := h
    obtain ⟨rest, rfl⟩ := ih hc
    exact ⟨rest, rfl⟩
  | case7 cs =>
    simp only [Except.ok.injEq, Prod.mk.injEq] at h
    obtain ⟨rfl, rfl⟩ := h
    exact ⟨cs, rfl⟩
  | case9 c cs _ _ _ _ _ text' value' hc ih =>
    simp only [Except.ok.injEq, Prod.mk.injEq] at h
    obtain ⟨rfl, rfl⟩ := h
    obtain ⟨rest, rfl⟩ := ih hc
    exact ⟨rest, rfl⟩

theorem exists_append_of_number {c : Char} {after : List Char} {lexeme : Lexeme}
    (hc : isDigit c = true) (h : number (c :: after) = .ok lexeme) :
    lexeme.text ≠ [] ∧ ∃ rest, c :: after = lexeme.text ++ rest := by
  have hsplit := List.takeWhile_append_dropWhile (p := isDigit) (l := c :: after)
  have hhead := List.takeWhile_cons_of_pos (l := after) hc
  unfold number at h
  split at h
  · next hdrop =>
    cases h
    exact ⟨by simp [plain, hhead], [], by simpa [plain, hdrop] using hsplit.symm⟩
  · next point more hdrop =>
    split at h
    · split at h
      · cases h
      · cases h
        refine ⟨by simp [plain], more.dropWhile isDigit, ?_⟩
        rw [plain, List.append_assoc, List.cons_append, List.takeWhile_append_dropWhile, ← hdrop,
          hsplit]
    · cases h
      exact ⟨by simp [plain, hhead], point :: more, by rw [plain, ← hdrop, hsplit]⟩

theorem exists_append_of_first {c : Char} {after : List Char} {lexeme : Lexeme}
    (h : first c after = .ok lexeme) :
    lexeme.text ≠ [] ∧ ∃ rest, c :: after = lexeme.text ++ rest := by
  unfold first at h
  split at h
  · cases h
  · cases h
    exact ⟨by simp [plain], after, rfl⟩
  · split at h
    · next d ds =>
      split at h <;> cases h
      · exact ⟨by simp [plain], ds, rfl⟩
      · exact ⟨by simp [plain], d :: ds, rfl⟩
    · cases h
      exact ⟨by simp [plain], [], rfl⟩
  · split at h
    · next d ds =>
      split at h <;> cases h
      exact ⟨by simp [plain], ds, rfl⟩
    · cases h
  · unfold string at h
    split at h
    · cases h
    · next text value hclosing =>
      cases h
      obtain ⟨rest, rfl⟩ := exists_append_of_closing hclosing
      exact ⟨by simp, rest, rfl⟩
  · next hlead => exact exists_append_of_number (Lead.isDigit_of_ofChar? hlead) h
  · next hlead =>
    cases h
    have hpart := isWordPart_of_isWordStart (Lead.isWordStart_of_ofChar? hlead)
    refine ⟨by simp [word, plain, hpart], (c :: after).dropWhile isWordPart, ?_⟩
    simp only [word, plain, List.takeWhile_append_dropWhile]

end Lexeme
end TwinScript
