import TwinScript.Proofs.Printing

/-!
# Reading JSON

A reader of JSON texts that are made of objects, strings and natural numbers. It takes the texts
that any reader of JSON takes for such values, not only the compact ones: blanks may stand before
every value and every mark, each character of a string may be escaped, characters outside the basic
plane as two surrogates, and a control character or a needless zero is refused. Values are read off
the front of a text, together with what is left after them. What `compact` writes is read back as
the value it was written for, in front of any text that does not go on with a digit.
-/
namespace TwinScript.Json
open Text

def isBlank (c : Char) : Bool := c == ' ' || c == '\t' || c == '\n' || c == '\r'

def skipBlanks (text : List Char) : List Char := text.dropWhile isBlank

def after? (mark : Char) (text : List Char) : Option (List Char) :=
  match skipBlanks text with
  | [] => none
  | c :: rest => if c = mark then some rest else none

def hexDigit? (c : Char) : Option Nat :=
  if '0' ≤ c ∧ c ≤ '9' then some (c.toNat - '0'.toNat)
  else if 'a' ≤ c ∧ c ≤ 'f' then some (c.toNat - 'a'.toNat + 10)
  else if 'A' ≤ c ∧ c ≤ 'F' then some (c.toNat - 'A'.toNat + 10)
  else none

/-- A number of sixteen bits in four hexadecimal digits. -/
def unit? : List Char → Option (Nat × List Char)
  | a :: b :: c :: d :: rest => do
    let high := 16 * (← hexDigit? a) + (← hexDigit? b)
    let low := 16 * (← hexDigit? c) + (← hexDigit? d)
    return (256 * high + low, rest)
  | _ => none

/-- The character that one number stands for, or two if the first is the half of a pair. -/
def codePoint? (text : List Char) : Option (Char × List Char) := do
  let (high, rest) ← unit? text
  if high < 0xd800 ∨ 0xe000 ≤ high then return (Char.ofNat high, rest)
  else
    match rest with
    | '\\' :: 'u' :: more =>
      let (low, rest) ← unit? more
      if high < 0xdc00 ∧ 0xdc00 ≤ low ∧ low < 0xe000 then
        return (Char.ofNat (0x10000 + 0x400 * (high - 0xd800) + (low - 0xdc00)), rest)
      else none
    | _ => none

def unescape? : Char → Option Char
  | '"' => some '"'
  | '\\' => some '\\'
  | '/' => some '/'
  | 'b' => some '\x08'
  | 'f' => some '\x0c'
  | 'n' => some '\n'
  | 'r' => some '\r'
  | 't' => some '\t'
  | _ => none

def escaped? : List Char → Option (Char × List Char)
  | [] => none
  | letter :: rest =>
    if letter = 'u' then codePoint? rest else (unescape? letter).map (·, rest)

def character? : List Char → Option (Char × List Char)
  | [] => none
  | c :: rest =>
    if c = '\\' then escaped? rest
    else if c = '"' ∨ c.toNat < 0x20 then none
    else some (c, rest)

theorem length_lt_of_unit? {text rest : List Char} {n : Nat} (h : unit? text = some (n, rest)) :
    rest.length < text.length := by
  unfold unit? at h
  split at h
  · simp only [Option.bind_eq_bind, Option.bind_eq_some_iff, Option.pure_def, Option.some.injEq,
      Prod.mk.injEq] at h
    obtain ⟨_, -, _, -, _, -, _, -, -, rfl⟩ := h
    simp only [List.length_cons]
    omega
  · cases h

theorem length_lt_of_codePoint? {text rest : List Char} {c : Char}
    (h : codePoint? text = some (c, rest)) : rest.length < text.length := by
  rw [codePoint?, Option.bind_eq_bind, Option.bind_eq_some_iff] at h
  obtain ⟨⟨high, behind⟩, hhigh, h⟩ := h
  have hbehind := length_lt_of_unit? hhigh
  simp only at h
  split at h
  · cases h
    exact hbehind
  · split at h
    · next more =>
      rw [Option.bind_eq_some_iff] at h
      obtain ⟨⟨low, more'⟩, hlow, h⟩ := h
      have hmore := length_lt_of_unit? hlow
      simp only at h
      split at h
      · simp only [Option.pure_def, Option.some.injEq, Prod.mk.injEq] at h
        obtain ⟨-, rfl⟩ := h
        simp only [List.length_cons] at hbehind
        omega
      · cases h
    · cases h

theorem length_lt_of_escaped? {text rest : List Char} {c : Char}
    (h : escaped? text = some (c, rest)) : rest.length < text.length := by
  unfold escaped? at h
  split at h
  · cases h
  · split at h
    · exact (length_lt_of_codePoint? h).trans (Nat.lt_succ_self _)
    · obtain ⟨_, -, heq⟩ := Option.map_eq_some_iff.1 h
      cases heq
      exact Nat.lt_succ_self _

theorem length_lt_of_character? {text rest : List Char} {c : Char}
    (h : character? text = some (c, rest)) : rest.length < text.length := by
  unfold character? at h
  split at h
  · cases h
  · split at h
    · exact (length_lt_of_escaped? h).trans (Nat.lt_succ_self _)
    · split at h
      · cases h
      · cases h
        exact Nat.lt_succ_self _

def string? (text : List Char) : Option (List Char × List Char) :=
  match text with
  | '"' :: rest => some ([], rest)
  | text =>
    match h : character? text with
    | none => none
    | some (c, rest) =>
      have := length_lt_of_character? h
      (string? rest).map fun (cs, rest) => (c :: cs, rest)
termination_by text.length

/-- A natural number. Only zero itself begins with a zero. -/
def number? (text : List Char) : Option (Nat × List Char) :=
  let digits := text.takeWhile Char.isDigit
  if digits = [] ∨ (digits.head? = some '0' ∧ digits ≠ ['0']) then none
  else some (Nat.ofDigitChars 10 digits 0, text.dropWhile Char.isDigit)

mutual

/-- The value at the front of a text, if it is read in `n` steps. -/
def value? : Nat → List Char → Option (Json × List Char)
  | 0, _ => none
  | n + 1, text =>
    match skipBlanks text with
    | [] => none
    | c :: rest =>
      if c = '"' then (string? rest).map fun (text, rest) => (.str text, rest)
      else if c = '\x7b' then
        match after? '\x7d' rest with
        | some rest => some (.obj [], rest)
        | none => (members? n rest).map fun (members, rest) => (.obj members, rest)
      else (number? (c :: rest)).map fun (k, rest) => (.num k, rest)

def members? : Nat → List Char → Option (List (List Char × Json) × List Char)
  | 0, _ => none
  | n + 1, text => do
    let (key, rest) ← string? (← after? '"' text)
    let (value, rest) ← value? n (← after? ':' rest)
    match after? ',' rest with
    | some rest => (members? n rest).map fun (members, rest) => ((key, value) :: members, rest)
    | none => (after? '\x7d' rest).map fun rest => ([(key, value)], rest)

end

/-- Reads a whole text. A step takes at least one character, so there are enough of them. -/
def read? (text : List Char) : Option Json := do
  let (j, rest) ← value? text.length text
  if skipBlanks rest = [] then return j else none

theorem skipBlanks_cons {c : Char} (h : isBlank c = false) (rest : List Char) :
    skipBlanks (c :: rest) = c :: rest := by
  rw [skipBlanks, List.dropWhile_cons, h]
  rfl

theorem after?_cons {mark : Char} (h : isBlank mark = false) (rest : List Char) :
    after? mark (mark :: rest) = some rest := by
  simp [after?, skipBlanks_cons h]

theorem after?_cons_of_ne {mark c : Char} (h : isBlank c = false) (hne : c ≠ mark)
    (rest : List Char) : after? mark (c :: rest) = none := by
  simp [after?, skipBlanks_cons h, hne]

section Strings

theorem unescape?_of_shortEscape? {c letter : Char} (h : shortEscape? c = some letter) :
    letter ≠ 'u' ∧ unescape? letter = some c := by
  unfold shortEscape? at h
  split at h <;> simp only [Option.some.injEq, reduceCtorEq] at h <;> subst h <;> decide

theorem hexDigit?_digitChar {n : Nat} (h : n < 16) : hexDigit? n.digitChar = some n := by
  have hall : ∀ n, n < 16 → hexDigit? n.digitChar = some n := by decide
  exact hall n h

theorem character?_escape (c : Char) (rest : List Char) :
    character? (escape c ++ rest) = some (c, rest) := by
  unfold escape
  split
  · next letter hshort =>
    obtain ⟨hne, hletter⟩ := unescape?_of_shortEscape? hshort
    simp [character?, escaped?, hne, hletter]
  · next hshort =>
    split
    · next hcontrol =>
      have hzero : hexDigit? '0' = some 0 := by decide
      have hhigh := hexDigit?_digitChar (n := c.toNat / 16) (by omega)
      have hlow := hexDigit?_digitChar (n := c.toNat % 16) (by omega)
      have hvalue : 256 * (16 * 0 + 0) + (16 * (c.toNat / 16) + c.toNat % 16) = c.toNat := by omega
      have hplane : c.toNat < 0xd800 ∨ 0xe000 ≤ c.toNat := by omega
      simp only [List.cons_append, List.nil_append, character?, if_true, escaped?, codePoint?,
        unit?, hzero, hhigh, hlow, Option.bind_eq_bind, Option.bind_some, Option.pure_def, hvalue,
        if_pos hplane, Char.ofNat_toNat]
    · next hcontrol =>
      have hquote : c ≠ '"' := by
        rintro rfl
        cases hshort
      have hslash : c ≠ '\\' := by
        rintro rfl
        cases hshort
      simp [character?, hquote, hslash, hcontrol]

theorem string?_of_character? {text rest : List Char} {c : Char}
    (h : character? text = some (c, rest)) :
    string? text = (string? rest).map fun (cs, rest) => (c :: cs, rest) := by
  rw [string?.eq_def]
  split
  · exact absurd h (by simp [character?])
  · split
    · next hnone =>
      rw [h] at hnone
      cases hnone
    · next hsome =>
      rw [h] at hsome
      cases hsome
      rfl

theorem string?_escaped (text rest : List Char) :
    string? (text.flatMap escape ++ '"' :: rest) = some (text, rest) := by
  induction text with
  | nil =>
      rw [List.flatMap_nil, List.nil_append, string?]
  | cons c text ih =>
      rw [List.flatMap_cons, List.append_assoc, string?_of_character? (character?_escape c _), ih]
      rfl

end Strings

section Numbers

theorem eq_zero_of_head?_repr {n : Nat} (h : n.repr.toList.head? = some '0') : n = 0 := by
  rw [Nat.toList_repr] at h
  induction n using Nat.strongRecOn with
  | _ n ih =>
    rw [Nat.toDigits_eq_if (by decide)] at h
    split at h
    · next hlt =>
      have hall : ∀ n, n < 10 → [n.digitChar].head? = some '0' → n = 0 := by decide
      exact hall n hlt h
    · next hle =>
      rw [List.head?_append_of_ne_nil _ Nat.toDigits_ne_nil] at h
      have hfront := ih (n / 10) (by omega) h
      omega

theorem repr_ne_nil (n : Nat) : n.repr.toList ≠ [] := by
  rw [Nat.toList_repr]
  exact Nat.toDigits_ne_nil

theorem number?_repr (n : Nat) {rest : List Char} (h : ¬ StartsIn (·.isDigit = true) rest) :
    number? (n.repr.toList ++ rest) = some (n, rest) := by
  obtain ⟨htake, hdrop⟩ := span_of_stop (p := Char.isDigit) (fun c => Iff.rfl) n.repr.toList rest
    (fun c hc => Format.isDigit_of_mem_repr hc) h
  have hzero : ¬ (n.repr.toList.head? = some '0' ∧ n.repr.toList ≠ ['0']) := by
    rintro ⟨hhead, hlong⟩
    rw [eq_zero_of_head?_repr hhead] at hlong
    exact hlong (by decide)
  simp only [number?, htake, hdrop, Format.ofDigitChars_repr, repr_ne_nil, hzero,
    or_self, if_false]

end Numbers

theorem value?_of_digit {c : Char} (h : c.isDigit = true) (n : Nat) (rest : List Char) :
    value? (n + 1) (c :: rest) =
      (number? (c :: rest)).map fun (k, rest) => (.num k, rest) := by
  have hblank : isBlank c = false := by
    rw [Bool.eq_false_iff]
    intro hc
    simp only [isBlank, Bool.or_eq_true, beq_iff_eq] at hc
    rcases hc with ((rfl | rfl) | rfl) | rfl <;> exact absurd h (by decide)
  have hquote : c ≠ '"' := by
    rintro rfl
    exact absurd h (by decide)
  have hbrace : c ≠ '\x7b' := by
    rintro rfl
    exact absurd h (by decide)
  simp only [value?, skipBlanks_cons hblank, if_neg hquote, if_neg hbrace]

theorem compactMore_cons (member : List Char × Json) (members : List (List Char × Json)) :
    compactMore (member :: members) = ',' :: compactMembers (member :: members) := by
  rw [compactMore, compactMembers]

theorem compact_ne_nil (j : Json) : compact j ≠ [] := by
  cases j with
  | num n =>
      rw [compact]
      exact repr_ne_nil n
  | str text => simp [compact, quoted]
  | obj members => simp [compact]

theorem members?_of_value? {n : Nat} {text more : List Char} {value : Json}
    (h : value? n text = some (value, more)) (key : List Char) :
    members? (n + 1) (quoted key ++ ':' :: text) =
      match after? ',' more with
      | some rest => (members? n rest).map fun (members, rest) => ((key, value) :: members, rest)
      | none => (after? '\x7d' more).map fun rest => ([(key, value)], rest) := by
  have hquote : isBlank '"' = false := by decide
  have hcolon : isBlank ':' = false := by decide
  have htext : quoted key ++ ':' :: text = '"' :: (key.flatMap escape ++ '"' :: ':' :: text) := by
    simp [quoted]
  simp only [members?, htext, after?_cons hquote, string?_escaped, after?_cons hcolon, h,
    Option.bind_eq_bind, Option.bind_some]

-- The steps of the reader go down with the nesting of the value and along the members.
mutual

theorem value?_compact (j : Json) {n : Nat} (hn : (compact j).length ≤ n) (rest : List Char)
    (h : ¬ StartsIn (·.isDigit = true) rest) : value? n (compact j ++ rest) = some (j, rest) := by
  have hpos := List.length_pos_iff.2 (compact_ne_nil j)
  obtain ⟨n, rfl⟩ := Nat.exists_eq_add_one.2 (hpos.trans_le hn)
  cases j with
  | num k =>
      obtain ⟨c, cs, hcs⟩ := List.exists_cons_of_ne_nil (repr_ne_nil k)
      have hdigit : c.isDigit = true := Format.isDigit_of_mem_repr (hcs ▸ List.mem_cons_self)
      have hread := number?_repr k h
      rw [hcs, List.cons_append] at hread
      rw [compact, hcs, List.cons_append, value?_of_digit hdigit, hread]
      rfl
  | str text =>
      have hquote : isBlank '"' = false := by decide
      simp [compact, quoted, value?, skipBlanks_cons hquote, string?_escaped]
  | obj members =>
      have hbrace : isBlank '\x7b' = false := by decide
      cases members with
      | nil =>
          have hend : isBlank '\x7d' = false := by decide
          simp [compact, compactMembers, value?, skipBlanks_cons hbrace, after?_cons hend]
      | cons member members =>
          have hlength : (compactMembers (member :: members)).length ≤ n := by
            simp only [compact, List.length_cons, List.length_append, List.length_nil] at hn
            omega
          have hread := members?_compactMembers member members hlength rest
          have hmore : after? '\x7d' (compactMembers (member :: members) ++ '\x7d' :: rest) =
              none := after?_cons_of_ne (by decide) (by decide) _
          have htext : compact (.obj (member :: members)) ++ rest =
              '\x7b' :: (compactMembers (member :: members) ++ '\x7d' :: rest) := by simp [compact]
          rw [htext]
          simp [value?, skipBlanks_cons hbrace, hmore, hread]
termination_by n

theorem members?_compactMembers (member : List Char × Json) (members : List (List Char × Json))
    {n : Nat} (hn : (compactMembers (member :: members)).length ≤ n) (rest : List Char) :
    members? n (compactMembers (member :: members) ++ '\x7d' :: rest) =
      some (member :: members, rest) := by
  obtain ⟨key, value⟩ := member
  simp only [compactMembers, List.length_append, List.length_cons] at hn
  obtain ⟨n, rfl⟩ := Nat.exists_eq_add_one.2 (show 0 < n by omega)
  cases members with
  | nil =>
      have hread := value?_compact value (n := n) (by omega) ('\x7d' :: rest) (by simp)
      have htext : compactMembers [(key, value)] ++ '\x7d' :: rest =
          quoted key ++ ':' :: (compact value ++ '\x7d' :: rest) := by
        simp [compactMembers, compactMore]
      have hmore : after? ',' ('\x7d' :: rest) = none := after?_cons_of_ne (by decide) (by decide) _
      rw [htext, members?_of_value? hread, hmore, after?_cons (by decide)]
      rfl
  | cons next members =>
      have hmore := compactMore_cons next members
      rw [hmore, List.length_cons] at hn
      have hread := value?_compact value (n := n) (by omega)
        (',' :: (compactMembers (next :: members) ++ '\x7d' :: rest)) (by simp)
      have hnext := members?_compactMembers next members (n := n) (by omega) rest
      have htext : compactMembers ((key, value) :: next :: members) ++ '\x7d' :: rest =
          quoted key ++ ':' ::
            (compact value ++ ',' :: (compactMembers (next :: members) ++ '\x7d' :: rest)) := by
        rw [compactMembers, hmore]
        simp
      rw [htext, members?_of_value? hread, after?_cons (by decide)]
      simp only [hnext, Option.map_some]
termination_by n

end

/-- Compact texts are read back. -/
theorem read?_compact (j : Json) : read? (compact j) = some j := by
  have hread := value?_compact j (Nat.le_refl _) [] (not_startsIn_nil _)
  rw [List.append_nil] at hread
  rw [read?, hread]
  rfl

theorem le_toNat_of_isDigit {c : Char} (h : c.isDigit = true) : 0x20 ≤ c.toNat := by
  simp only [Char.isDigit, Bool.and_eq_true, decide_eq_true_eq, ge_iff_le,
    UInt32.le_iff_toNat_le] at h
  exact (show 0x20 ≤ 48 by decide).trans h.1

theorem le_toNat_of_mem_quoted {text : List Char} {c : Char} (h : c ∈ quoted text) :
    0x20 ≤ c.toNat := by
  simp only [quoted, List.mem_cons, List.mem_append, List.mem_flatMap, List.not_mem_nil,
    or_false] at h
  rcases h with rfl | ⟨d, -, hd⟩ | rfl
  · decide
  · exact le_toNat_of_mem_escape hd
  · decide

mutual

theorem le_toNat_of_mem_compact (j : Json) {c : Char} (h : c ∈ compact j) : 0x20 ≤ c.toNat := by
  cases j with
  | num n =>
      rw [compact] at h
      exact le_toNat_of_isDigit (Format.isDigit_of_mem_repr h)
  | str text =>
      rw [compact] at h
      exact le_toNat_of_mem_quoted h
  | obj members =>
      simp only [compact, List.mem_cons, List.mem_append, List.not_mem_nil, or_false] at h
      rcases h with rfl | h | rfl
      · decide
      · exact le_toNat_of_mem_compactMembers members h
      · decide

theorem le_toNat_of_mem_compactMembers (members : List (List Char × Json)) {c : Char}
    (h : c ∈ compactMembers members) : 0x20 ≤ c.toNat := by
  cases members with
  | nil => cases h
  | cons member members =>
      obtain ⟨key, value⟩ := member
      simp only [compactMembers, List.mem_append, List.mem_cons] at h
      rcases h with h | rfl | h | h
      · exact le_toNat_of_mem_quoted h
      · decide
      · exact le_toNat_of_mem_compact value h
      · cases members with
        | nil => cases h
        | cons next members =>
            rw [compactMore_cons, List.mem_cons] at h
            rcases h with rfl | h
            · decide
            · exact le_toNat_of_mem_compactMembers (next :: members) h

end

end TwinScript.Json
