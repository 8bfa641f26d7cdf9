import TwinScript.Proofs.Places
import TwinScript.Proofs.Spacing

/-!
# String literals as a code

`Literal.encode` writes a text between quotes: the quote and the backslash are always escaped, and
any other character may be. The contents of a literal in the grammar are exactly the encodings of
texts without a newline, so reading a literal decodes it, wherever it stands and whatever follows.
-/
namespace TwinScript
open Script Text

namespace Literal

/-- The encoding of a text whose characters are marked where they are to be escaped without need. -/
def encode (quote : Char) : List (Char × Bool) → List Char
  | [] => []
  | (c, marked) :: more =>
    if c = quote ∨ c = '\\' ∨ marked = true then '\\' :: c :: encode quote more
    else c :: encode quote more

def Encodes (quote : Char) (value text : List Char) : Prop :=
  ∃ marked : List (Char × Bool), marked.map Prod.fst = value ∧ encode quote marked = text

variable {quote : Char} {value text : List Char}

theorem Encodes.plain {c : Char} (h : Encodes quote value text) (hquote : c ≠ quote)
    (hslash : c ≠ '\\') : Encodes quote (c :: value) (c :: text) := by
  obtain ⟨marked, rfl, rfl⟩ := h
  have hfree : ¬ (c = quote ∨ c = '\\' ∨ false = true) := by
    rintro (heq | heq | heq)
    · exact hquote heq
    · exact hslash heq
    · cases heq
  exact ⟨(c, false) :: marked, rfl, by rw [encode, if_neg hfree]⟩

theorem Encodes.escaped (h : Encodes quote value text) (c : Char) :
    Encodes quote (c :: value) ('\\' :: c :: text) := by
  obtain ⟨marked, rfl, rfl⟩ := h
  exact ⟨(c, true) :: marked, rfl, by rw [encode, if_pos (Or.inr (Or.inr rfl))]⟩

theorem contents_encode (quote : Char) (marked : List (Char × Bool))
    (hline : '\n' ∉ marked.map Prod.fst) :
    Contents quote (encode quote marked) (marked.map Prod.fst) := by
  induction marked with
  | nil => exact .nil
  | cons first more ih =>
      obtain ⟨c, mark⟩ := first
      rw [List.map_cons, List.mem_cons, not_or] at hline
      have hc : c ≠ '\n' := fun heq => hline.1 heq.symm
      have hmore := ih hline.2
      by_cases hescape : c = quote ∨ c = '\\' ∨ mark = true
      · rw [encode, if_pos hescape]
        exact .escaped hc hmore
      · rw [encode, if_neg hescape]
        rw [not_or, not_or] at hescape
        exact .plain hescape.1 hescape.2.1 hc hmore

/-- The contents of a literal are the encodings of the texts without a newline. -/
theorem contents_iff_encodes :
    Contents quote text value ↔ '\n' ∉ value ∧ Encodes quote value text := by
  constructor
  · intro h
    induction h with
    | nil => exact ⟨List.not_mem_nil, [], rfl, rfl⟩
    | plain hquote hslash hline h ih =>
        obtain ⟨hmem, hencodes⟩ := ih
        refine ⟨?_, hencodes.plain hquote hslash⟩
        rw [List.mem_cons, not_or]
        exact ⟨hline.symm, hmem⟩
    | escaped hline h ih =>
        obtain ⟨hmem, hencodes⟩ := ih
        refine ⟨?_, hencodes.escaped _⟩
        rw [List.mem_cons, not_or]
        exact ⟨hline.symm, hmem⟩
  · rintro ⟨hline, marked, rfl, rfl⟩
    exact contents_encode quote marked hline

end Literal

namespace Reader

theorem Within.read_literal {source rest text : List Char} {r : Reader} {quote : Char}
    {value : List Char} (h : Within source r) (hquote : quote ∈ quotes)
    (hcontents : Contents quote text value)
    (hrest : r.cursor.rest = quote :: (text ++ quote :: rest)) :
    ∃ t, r.read = (.ok t, ⟨r.cursor.skip (text.length + 2), r.finished⟩) ∧ t.kind = .string ∧
      t.value = String.ofList value ∧ t.span.start = r.cursor.mark.offset ∧
      t.text? source = some (quote :: (text ++ [quote])) ∧
      (r.cursor.skip (text.length + 2)).rest = rest := by
  obtain ⟨before, ahead, finished, rfl, -⟩ := h
  obtain rfl : ahead = quote :: (text ++ quote :: rest) := hrest
  let lexeme : Lexeme := ⟨.string, quote :: (text ++ [quote]), value⟩
  have htext : quote :: (text ++ quote :: rest) = lexeme.text ++ rest := by simp [lexeme]
  have hlength : text.length + 2 = lexeme.text.length := by simp [lexeme]
  have hstands : lexeme.Stands rest := .string hquote hcontents
  have hread := (@Step.token before finished [] rest lexeme (.nil _) hstands).read_eq
  rw [List.append_nil, List.nil_append] at hread
  have hskip := Cursor.skip_between before lexeme.text rest
  rw [htext, hlength]
  refine ⟨_, ?_, rfl, rfl, rfl, lexeme.text?_token before rest, ?_⟩
  · rw [hread, between, between]
    change (_, Reader.mk _ _) = (_, Reader.mk ((Cursor.between before _).skip _) _)
    rw [hskip]
  · change ((Cursor.between before _).skip _).rest = rest
    rw [hskip]
    rfl

/-- A string covers an encoding of its value between equal quotes. -/
def Coded (source : List Char) : Except LexError Token → Prop
  | .ok t => t.kind = .string → '\n' ∉ t.value.toList ∧ ∃ quote ∈ quotes, ∃ text,
      Literal.Encodes quote t.value.toList text ∧ t.text? source = some (quote :: (text ++ [quote]))
  | .error _ => True

theorem Step.coded {before rest : List Char} {finished : Bool} {result : Except LexError Token}
    {r : Reader} (h : Step before finished rest result r) : Coded (before ++ rest) result := by
  cases h with
  | @token gap rest lexeme hgap h =>
      intro hkind
      obtain ⟨quote, body, value, hquote, hbody, rfl⟩ := h.kind_ne.2 hkind
      obtain ⟨hline, hencodes⟩ := Literal.contents_iff_encodes.1 hbody
      have htext := Lexeme.text?_token ⟨.string, quote :: (body ++ [quote]), value⟩
        (before ++ gap) rest
      rw [List.append_assoc before gap] at htext
      have hvalue : (String.ofList value).toList = value := String.toList_ofList
      refine ⟨?_, quote, hquote, body, ?_, htext⟩
      · rwa [← hvalue] at hline
      · rwa [← hvalue] at hencodes
  | fault hgap h => trivial
  | endOfInput hgap hfinished => exact nofun
  | pastEnd hgap hfinished => trivial

theorem session_coded (source : List Char) (calls : List Call) :
    ∀ result ∈ (ofText source).results calls, Coded source result := by
  apply session_forall_mem
  rintro before rest finished result r rfl hstep
  exact hstep.coded

end Reader

/-- Literals are an exact code. Whatever calls have been made, a reader in front of an encoding
between quotes returns the encoded text, covers exactly the literal and stands behind it; and every
string that a session returns covers an encoding of its value. -/
theorem string_literal_codec (s : String) (calls : List Reader.Call) :
    (∀ (quote : Char) (value : String) (text rest : List Char), quote ∈ quotes →
      '\n' ∉ value.toList → Literal.Encodes quote value.toList text →
      let r := (Reader.ofText s.toList).after calls
      r.cursor.rest = quote :: (text ++ quote :: rest) →
        ∃ t r', r.read = (.ok t, r') ∧ t.kind = .string ∧ t.value = value ∧
          t.span.start = r.cursor.mark.offset ∧
          t.text? s.toList = some (quote :: (text ++ [quote])) ∧
          r'.cursor = r.cursor.skip (text.length + 2) ∧ r'.cursor.rest = rest) ∧
      ∀ t, .ok t ∈ (Reader.ofText s.toList).results calls → t.kind = .string →
        '\n' ∉ t.value.toList ∧ ∃ quote ∈ quotes, ∃ text,
          Literal.Encodes quote t.value.toList text ∧
          t.text? s.toList = some (quote :: (text ++ [quote])) := by
  constructor
  · intro quote value text rest hquote hline hencodes r hrest
    have hr : Reader.Within s.toList r := Reader.within_after s.toList calls
    have hcontents := Literal.contents_iff_encodes.2 ⟨hline, hencodes⟩
    obtain ⟨t, hread, hkind, hvalue, hstart, htext, hbehind⟩ :=
      hr.read_literal hquote hcontents hrest
    rw [String.ofList_toList] at hvalue
    exact ⟨t, _, hread, hkind, hvalue, hstart, htext, rfl, hbehind⟩
  · intro t ht hkind
    exact Reader.session_coded s.toList calls _ ht hkind

/-- Behind a word and an error, a literal with escapes before its quote, a backslash and a letter,
with a comment mark in it and an open literal after it. -/
theorem string_literal_codec_sample :
    let source := "x １.'a\\'\\\\\\b＃'”"
    let start := Reader.ofText source.toList
    let encoding := "a\\'\\\\\\b＃".toList
    (∃ t r', (start.after [.read, .read, .read]).read = (.ok t, r') ∧ t.kind = .string ∧
        t.value = "a'\\b＃" ∧ t.text? source.toList = some ('\'' :: (encoding ++ ['\''])) ∧
        r'.cursor.rest = ['”']) ∧
      ∃ t, .ok t ∈ start.results [.readAll, .read, .read] ∧ t.kind = .string ∧
        '\n' ∉ t.value.toList ∧ ∃ quote ∈ quotes, ∃ text,
          Literal.Encodes quote t.value.toList text ∧
          t.text? source.toList = some (quote :: (text ++ [quote])) := by
  intro source start encoding
  constructor
  · have hencodes : Literal.Encodes '\'' "a'\\b＃".toList encoding :=
      ⟨[('a', false), ('\'', false), ('\\', false), ('b', true), ('＃', false)], by decide +kernel,
        by decide +kernel⟩
    obtain ⟨t, r', hread, hkind, hvalue, -, htext, -, hrest⟩ :=
      (string_literal_codec source [.read, .read, .read]).1 '\'' "a'\\b＃" encoding ['”'] (by decide)
        (by decide +kernel) hencodes (by decide +kernel)
    exact ⟨t, r', hread, hkind, hvalue, htext, hrest⟩
  · have hmem :
        .ok ⟨.string, "a'\\b＃", 1, 5, ⟨6, 18⟩⟩ ∈ start.results [.readAll, .read, .read] := by
      decide +kernel
    exact ⟨_, hmem, rfl, (string_literal_codec source [.readAll, .read, .read]).2 _ hmem rfl⟩

end TwinScript
