import Mathlib.Data.List.Basic
import Mathlib.Data.List.TakeWhile
import TwinScript.Proofs.Lookahead
import TwinScript.Shell

/-!
# Lines of a text

The shell cuts its input into lines as bytes, before it knows whether they are text. In the UTF-8
form of a text a byte below 128 is a character by itself. So the newlines among the bytes are those
of the text, and so are the carriage returns: cutting the bytes cuts the text. The second part says
what is read from a single line: nothing if it is blank, and the same without the carriage return at
its end, because that is part of a gap.
-/
namespace TwinScript
open Script

namespace Text

def toBytes (text : List Char) : List UInt8 := text.flatMap String.utf8EncodeChar

@[simp] theorem toBytes_nil : toBytes [] = [] := rfl

@[simp] theorem toBytes_cons (c : Char) (text : List Char) :
    toBytes (c :: text) = String.utf8EncodeChar c ++ toBytes text :=
  List.flatMap_cons

@[simp] theorem toBytes_append (text more : List Char) :
    toBytes (text ++ more) = toBytes text ++ toBytes more :=
  List.flatMap_append

theorem ofBytes?_toBytes (text : List Char) :
    ofBytes? (toBytes text) = some (String.ofList text) := by
  have hvalid : (toBytes text).toByteArray.IsValidUTF8 := ByteArray.isValidUTF8_utf8Encode
  rw [ofBytes?, String.fromUTF8?, dif_pos hvalid, Option.some.injEq, ← String.toByteArray_inj,
    String.toByteArray_ofList]
  rfl

theorem toNat_of_mem_utf8EncodeChar {c : Char} {byte : UInt8} (h : byte ∈ String.utf8EncodeChar c)
    (hbyte : byte.toNat < 128) : byte.toNat = c.toNat := by
  have hlow : ∀ n, byte = UInt8.ofNat n → n % 256 < 128 := by
    rintro n rfl
    rwa [UInt8.toNat_ofNat'] at hbyte
  by_cases hascii : c.val.toNat ≤ 127
  · rw [String.utf8EncodeChar, if_pos hascii] at h
    rw [List.mem_singleton.1 h, UInt8.toNat_ofNat']
    exact Nat.mod_eq_of_lt (by omega)
  · -- all bytes of a longer form have their highest bit set
    simp only [String.utf8EncodeChar, if_neg hascii] at h
    exfalso
    split at h
    · simp only [List.mem_cons, List.not_mem_nil, or_false] at h
      rcases h with h | h <;> have := hlow _ h <;> omega
    · split at h
      · simp only [List.mem_cons, List.not_mem_nil, or_false] at h
        rcases h with h | h | h <;> have := hlow _ h <;> omega
      · simp only [List.mem_cons, List.not_mem_nil, or_false] at h
        rcases h with h | h | h | h <;> have := hlow _ h <;> omega

theorem eq_of_mem_utf8EncodeChar {c d : Char} {byte : UInt8} (h : byte ∈ String.utf8EncodeChar c)
    (hd : byte.toNat = d.toNat) (hascii : d.toNat < 128) : c = d := by
  have hc := toNat_of_mem_utf8EncodeChar h (hd ▸ hascii)
  exact Char.ext (UInt32.toNat_inj.1 (hc.symm.trans hd))

theorem newline_mem_of_mem_toBytes {text : List Char} (h : 10 ∈ toBytes text) : '\n' ∈ text := by
  obtain ⟨c, hc, hbyte⟩ := List.mem_flatMap.1 h
  rwa [← eq_of_mem_utf8EncodeChar (d := '\n') hbyte rfl (by decide)]

def dropReturn (line : List Char) : List Char :=
  if line.getLast? = some '\r' then line.dropLast else line

@[simp] theorem dropReturn_concat_return (line : List Char) :
    dropReturn (line ++ ['\r']) = line := by
  simp [dropReturn]

theorem dropReturn_of_ne {line : List Char} (h : line.getLast? ≠ some '\r') :
    dropReturn line = line :=
  if_neg h

theorem getLast?_toBytes {text : List Char} (h : (toBytes text).getLast? = some 13) :
    text.getLast? = some '\r' := by
  rcases List.eq_nil_or_concat' text with rfl | ⟨front, c, rfl⟩
  · cases h
  · rw [toBytes_append, toBytes_cons, toBytes_nil, List.append_nil,
      List.getLast?_append_of_ne_nil _ String.utf8EncodeChar_ne_nil] at h
    rw [List.getLast?_concat,
      eq_of_mem_utf8EncodeChar (d := '\r') (List.mem_of_getLast? h) rfl (by decide)]

theorem trim_concat {c : Char} (h : isBlank c = true) (text : List Char) :
    trim (text ++ [c]) = trim text := by
  have hlast : [c].dropWhile isBlank = [] := by simp [h]
  rw [trim, trim, List.dropWhile_append, hlast]
  by_cases hall : (text.dropWhile isBlank).isEmpty = true
  · rw [if_pos hall, List.isEmpty_iff.1 hall]
  · rw [if_neg hall, List.reverse_concat, List.dropWhile_cons_of_pos h]

theorem trim_dropReturn (line : List Char) : trim (dropReturn line) = trim line := by
  by_cases hlast : line.getLast? = some '\r'
  · obtain ⟨front, rfl⟩ := List.getLast?_eq_some_iff.1 hlast
    rw [dropReturn_concat_return, trim_concat (by decide)]
  · rw [dropReturn_of_ne hlast]

theorem isBlank_of_trim_eq_nil {text : List Char} (h : trim text = []) :
    ∀ c ∈ text, isBlank c = true := by
  rw [trim, List.reverse_eq_nil_iff, List.dropWhile_eq_nil_iff] at h
  intro c hc
  rw [← List.takeWhile_append_dropWhile (p := isBlank) (l := text), List.mem_append] at hc
  rcases hc with hfront | hback
  · exact List.mem_takeWhile_imp hfront
  · exact h c (List.mem_reverse.2 hback)

/-- What holds of a last line, and of a line in front of any lines of which it holds, holds of every
text. -/
theorem line_induction {P : List Char → Prop} (last : ∀ line, '\n' ∉ line → P line)
    (cons : ∀ line more, '\n' ∉ line → P more → P (line ++ '\n' :: more)) (text : List Char) :
    P text := by
  by_cases hmem : '\n' ∈ text
  · obtain ⟨line, more, htext, hline⟩ := List.eq_append_cons_of_mem hmem
    have hlength : more.length < text.length := by
      rw [htext, List.length_append, List.length_cons]
      omega
    rw [htext]
    exact cons line more hline (line_induction last cons more)
  · exact last text hmem
termination_by text.length

end Text

namespace Shell
open Text

theorem linesAfter_append {bytes : List UInt8} (h : 10 ∉ bytes) (line more : List UInt8) :
    linesAfter line (bytes ++ more) = linesAfter (bytes.reverse ++ line) more := by
  induction bytes generalizing line with
  | nil => rfl
  | cons byte bytes ih =>
      rw [List.mem_cons, not_or] at h
      rw [List.cons_append, linesAfter, if_neg (Ne.symm h.1), ih h.2, List.reverse_cons,
        List.append_assoc, List.singleton_append]

theorem lines_toBytes_append {line : List Char} (h : '\n' ∉ line) (more : List Char) :
    lines (toBytes (line ++ '\n' :: more)) =
      toBytes (dropReturn line) :: lines (toBytes more) := by
  have hnewline : String.utf8EncodeChar '\n' = [10] := by decide
  have hreturn : toBytes ['\r'] = [13] := by decide
  have hfirst : (if (toBytes line).getLast? = some 13 then (toBytes line).reverse.tail
      else (toBytes line).reverse).reverse = toBytes (dropReturn line) := by
    by_cases hlast : (toBytes line).getLast? = some 13
    · obtain ⟨front, rfl⟩ := List.getLast?_eq_some_iff.1 (getLast?_toBytes hlast)
      rw [if_pos hlast, dropReturn_concat_return, toBytes_append, hreturn, List.reverse_concat,
        List.tail_cons, List.reverse_reverse]
    · have hne : line.getLast? ≠ some '\r' := by
        intro hlast'
        obtain ⟨front, rfl⟩ := List.getLast?_eq_some_iff.1 hlast'
        rw [toBytes_append, hreturn, List.getLast?_concat] at hlast
        exact hlast rfl
      rw [if_neg hlast, dropReturn_of_ne hne, List.reverse_reverse]
  rw [toBytes_append, toBytes_cons, hnewline, lines,
    linesAfter_append (mt newline_mem_of_mem_toBytes h), List.append_nil, List.singleton_append,
    linesAfter, if_pos rfl, List.head?_reverse, hfirst, lines]

theorem lines_toBytes_last {line : List Char} (h : '\n' ∉ line) (hne : line ≠ []) :
    lines (toBytes line) = [toBytes line] := by
  have hbytes : ¬ (toBytes line).reverse.isEmpty = true := by
    obtain ⟨c, cs, rfl⟩ := List.exists_cons_of_ne_nil hne
    simp [String.utf8EncodeChar_ne_nil]
  rw [← List.append_nil (toBytes line), lines, linesAfter_append (mt newline_mem_of_mem_toBytes h),
    List.append_nil, linesAfter, if_neg hbytes, List.reverse_reverse, List.append_nil]

end Shell

open Text

theorem Text.not_isBlank_of_isWordStart {c : Char} (h : isWordStart c = true) :
    ¬ isBlank c = true := by
  intro hblank
  have hletter : c.isAlpha = true →
      65 ≤ c.toNat ∧ c.toNat ≤ 90 ∨ 97 ≤ c.toNat ∧ c.toNat ≤ 122 := by
    intro halpha
    rcases Bool.or_eq_true_iff.1 halpha with hupper | hlower
    · exact Or.inl (of_decide_eq_true hupper)
    · obtain ⟨hlow, hhigh⟩ := Bool.and_eq_true_iff.1 hlower
      exact Or.inr ⟨of_decide_eq_true hlow, of_decide_eq_true hhigh⟩
  simp only [isBlank, Ranges.has, blankRanges, List.any_cons, List.any_nil, Bool.or_eq_true,
    Bool.and_eq_true, decide_eq_true_eq, Bool.false_eq_true, or_false] at hblank
  simp only [isWordStart, isJapanese, Bool.or_eq_true, Bool.and_eq_true, decide_eq_true_eq] at h
  have hrange := h.imp_left hletter
  omega

theorem Text.not_isBlank_of_ofChar? {c : Char} {lead : Lead} (h : Lead.ofChar? c = some lead) :
    ¬ isBlank c = true := by
  rcases Lead.mem_of_ofChar? c lead h with hsymbol | ⟨-, hdigit⟩ | ⟨-, hword⟩
  · have hall : ∀ p ∈ Lead.symbols, ¬ isBlank p.1 = true := by decide
    exact hall _ hsymbol
  · exact of_listed hdigit (by decide)
  · exact not_isBlank_of_isWordStart hword

/-- No lexeme ends with a character that could belong to a gap. -/
theorem Lexeme.Stands.not_part_of_getLast? {lexeme : Lexeme} {rest : List Char} {c : Char}
    (h : lexeme.Stands rest) (hlast : lexeme.text.getLast? = some c) : ¬ Gap.Part c := by
  intro hpart
  have hclasses : c ∉ closers ∧ c ∉ digits ∧ ¬ WordPart c :=
    of_listed (List.mem_append.2 hpart) (by decide)
  rcases h.getLast?_cases hlast with hsymbol | ⟨hdigit, -⟩ | ⟨hword, -⟩
  · exact hclasses.1 hsymbol
  · exact hclasses.2.1 hdigit
  · exact hclasses.2.2 hword

theorem Gap.Stands.of_concat {gap : List Char} {c : Char} (h : Stands (gap ++ [c]) []) :
    Stands gap [] := by
  obtain ⟨gap', tail, rfl, hgap', htail⟩ := exists_gap gap
  by_cases hnil : tail = []
  · subst hnil
    rwa [List.append_nil]
  · -- otherwise the text after the gap would still be there with one character more
    have hlonger : ¬ StartsIn Part (tail ++ [c]) := by rwa [startsIn_append hnil]
    have hstands : Stands gap' (tail ++ [c]) := by
      apply hgap'.of_startsIn
      rw [startsIn_append hnil]
      exact id
    obtain ⟨-, hcontra⟩ := stands_unique (gap' ++ tail ++ [c]) gap' [] (tail ++ [c]) (by simp) h
      (not_startsIn_nil _) hstands hlonger
    simp at hcontra

theorem Piece.not_part_of_getLast? {pieces : List Piece} {rest : List Char} {c : Char}
    (h : Stand pieces rest) (hlast : (textOf pieces).getLast? = some c) : ¬ Gap.Part c := by
  obtain ⟨lexeme, hlexeme, hend⟩ := h.exists_last hlast
  exact hlexeme.not_part_of_getLast? hend

theorem Piece.line_eq_one {before : List Char} {pieces : List Piece}
    (h : '\n' ∉ before ++ textOf pieces) {t : Token} (ht : t ∈ tokens before pieces) :
    t.line = 1 := by
  induction pieces generalizing before with
  | nil => cases ht
  | cons p ps ih =>
      have htext : before ++ textOf (p :: ps) = before ++ p.text ++ textOf ps := by
        rw [textOf, List.append_assoc]
      rw [htext] at h
      rcases List.mem_cons.1 ht with rfl | hmore
      · have hcount : (before ++ p.gap).count '\n' = 0 := by
          rw [List.count_eq_zero]
          intro hmem
          apply h
          rw [text, ← List.append_assoc, List.append_assoc]
          exact List.mem_append_left _ hmem
        change (before ++ p.gap).count '\n' + 1 = 1
        rw [hcount]
      · exact ih h hmore

namespace Layout

variable {line : List Char}

theorem tokens_of_blank (layout : Layout line) (h : ∀ c ∈ line, isBlank c = true) :
    layout.tokens = [] := by
  cases hpieces : layout.pieces with
  | nil => rw [tokens, hpieces, Piece.tokens]
  | cons p ps =>
      have hstand := layout.pieces_stand
      have htext := layout.text_eq
      rw [hpieces] at hstand htext
      rw [Piece.textOf, Piece.text, List.append_assoc, List.append_assoc] at htext
      obtain ⟨c, hc, lead, hlead⟩ := hstand.2.1.startsIn_lead
      have hmem : c ∈ line := by
        rw [← htext]
        exact List.mem_append_right _ (List.mem_of_head? hc)
      exact absurd (h c hmem) (not_isBlank_of_ofChar? hlead)

/-- All tokens of a single line are on the first line. -/
theorem line_eq_one (layout : Layout line) (h : '\n' ∉ line) {t : Token} (ht : t ∈ layout.tokens) :
    t.line = 1 := by
  refine Piece.line_eq_one (fun hmem => h ?_) ht
  rw [← layout.text_eq]
  exact List.mem_append_left _ hmem

theorem exists_gap_of_return {front : List Char} (layout : Layout (front ++ ['\r']))
    (h : layout.rest = []) : ∃ gap, layout.gap = gap ++ ['\r'] := by
  have htext := layout.text_eq
  rw [h, List.append_nil] at htext
  have hlast : (Piece.textOf layout.pieces ++ layout.gap).getLast? = some '\r' := by
    rw [htext, List.getLast?_concat]
  by_cases hgap : layout.gap = []
  · rw [hgap, List.append_nil] at hlast
    exact absurd (Or.inl (by decide)) (Piece.not_part_of_getLast? layout.pieces_stand hlast)
  · rw [List.getLast?_append_of_ne_nil _ hgap] at hlast
    exact List.getLast?_eq_some_iff.1 hlast

theorem exists_dropReturn (layout : Layout line) (h : layout.rest = []) :
    ∃ layout' : Layout (dropReturn line), layout'.rest = [] ∧ layout'.tokens = layout.tokens := by
  by_cases hlast : line.getLast? = some '\r'
  · obtain ⟨front, rfl⟩ := List.getLast?_eq_some_iff.1 hlast
    obtain ⟨gap, hgap⟩ := layout.exists_gap_of_return h
    have hstand := layout.pieces_stand
    have hstands := layout.gap_stands
    have htext := layout.text_eq
    rw [h, hgap, List.append_nil] at hstand htext
    rw [h, hgap] at hstands
    rw [← List.append_assoc] at htext
    rw [dropReturn_concat_return]
    refine ⟨⟨layout.pieces, gap, [], ?_, hstands.of_concat, ?_⟩, rfl, rfl⟩
    · rw [List.append_nil]
      exact hstand.of_follows (follows_append gap _)
    · rw [List.append_nil]
      exact List.append_cancel_right htext
  · rw [dropReturn_of_ne hlast]
    exact ⟨layout, h, rfl⟩

end Layout

end TwinScript
