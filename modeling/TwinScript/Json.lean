/-!
# Compact JSON

Objects of strings and natural numbers, written without blanks. A string is escaped only where it
has to be: the quote, the backslash and the control characters below U+0020.
-/
namespace TwinScript

inductive Json
  | num (n : Nat)
  | str (text : List Char)
  | obj (members : List (List Char × Json))

namespace Json

def shortEscape? : Char → Option Char
  | '"' => some '"'
  | '\\' => some '\\'
  | '\x08' => some 'b'
  | '\t' => some 't'
  | '\n' => some 'n'
  | '\x0c' => some 'f'
  | '\r' => some 'r'
  | _ => none

/-- How a character stands inside a quoted string: a control character without a short escape is
written with four hexadecimal digits in lower case. -/
def escape (c : Char) : List Char :=
  match shortEscape? c with
  | some letter => ['\\', letter]
  | none =>
    if c.toNat < 0x20 then
      ['\\', 'u', '0', '0', (c.toNat / 16).digitChar, (c.toNat % 16).digitChar]
    else [c]

def quoted (text : List Char) : List Char := '"' :: (text.flatMap escape ++ ['"'])

mutual

/-- The text of a value, with members in their order and no blanks. -/
def compact : Json → List Char
  | num n => n.repr.toList
  | str text => quoted text
  | obj members => '\x7b' :: (compactMembers members ++ ['\x7d'])

def compactMembers : List (List Char × Json) → List Char
  | [] => []
  | (key, value) :: members => quoted key ++ ':' :: (compact value ++ compactMore members)

def compactMore : List (List Char × Json) → List Char
  | [] => []
  | (key, value) :: members => ',' :: (quoted key ++ ':' :: (compact value ++ compactMore members))

end

theorem le_toNat_of_shortEscape? {c letter : Char} (h : shortEscape? c = some letter) :
    0x20 ≤ letter.toNat := by
  unfold shortEscape? at h
  split at h <;> simp only [Option.some.injEq, reduceCtorEq] at h <;> subst h <;> decide

theorem le_toNat_of_mem_escape {c d : Char} (h : d ∈ escape c) : 0x20 ≤ d.toNat := by
  have hex : ∀ n, n < 16 → 0x20 ≤ n.digitChar.toNat := by decide
  unfold escape at h
  split at h
  · next letter hs =>
    simp only [List.mem_cons, List.not_mem_nil, or_false] at h
    rcases h with rfl | rfl
    · decide
    · exact le_toNat_of_shortEscape? hs
  · split at h
    · simp only [List.mem_cons, List.not_mem_nil, or_false] at h
      rcases h with rfl | rfl | rfl | rfl | rfl | rfl
      any_goals decide
      · exact hex _ (by omega)
      · exact hex _ (by omega)
    · simp only [List.mem_cons, List.not_mem_nil, or_false] at h
      subst h
      omega

end Json
end TwinScript
