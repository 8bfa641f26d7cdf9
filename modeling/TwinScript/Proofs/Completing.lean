import Mathlib.Data.List.Basic
import Mathlib.Data.List.TakeWhile
import Mathlib.Order.Bounds.Defs
import TwinScript.Completion

/-!
# What is offered for completion

The text before the cursor is cut where the word at its end begins, which is the first place from
which only word characters follow. What is offered there are the reserved words that go on from that
word, each once and in increasing order, or the commands if the text may still become one. Nothing
that was typed is lost: putting a candidate in its place only adds to the text.
-/
namespace TwinScript
open Text

namespace Keyword

theorem mem_spellings_iff (text : String) : text ∈ spellings ↔ (kindOf? text).isSome = true := by
  rw [spellings, (List.mergeSort_perm _ _).mem_iff, kindOf?, Option.isSome_map, List.find?_isSome]
  simp [spells]

theorem nodup_spellings : spellings.Nodup := by
  rw [spellings, (List.mergeSort_perm _ _).nodup_iff]
  decide

theorem pairwise_spellings : spellings.Pairwise (· < ·) := by
  have hsorted : spellings.Pairwise fun a b => decide (a ≤ b) = true := by
    apply List.pairwise_mergeSort
    · intro a b c hab hbc
      exact decide_eq_true (String.le_trans (of_decide_eq_true hab) (of_decide_eq_true hbc))
    · intro a b
      simpa using String.le_total a b
  refine List.Pairwise.imp₂ ?_ hsorted (List.nodup_iff_pairwise_ne.1 nodup_spellings)
  intro a b hle hne
  exact Std.lt_of_le_of_ne (of_decide_eq_true hle) hne

/-- The spellings in their order: the Latin ones come before the Japanese ones. -/
theorem spellings_eq : spellings =
    ["const", "false", "func", "if", "import", "let", "module", "nil", "true", "while",
      "もし", "インポート", "モジュール", "嘘", "定数", "宣言", "本当", "無", "繰り返す", "関数"] := by
  refine List.Perm.eq_of_pairwise ?_ pairwise_spellings (by decide +kernel) ?_
  · intro a b _ _ hab hba
    exact absurd hba (String.lt_asymm hab)
  · rw [spellings]
    exact (List.mergeSort_perm _ _).trans (by decide +kernel)

end Keyword

namespace Completion

def texts (completion : Completion) : List String := completion.candidates.map (·.replacement)

def BeginsCommand (typed : List Char) : Prop := typed.head? = some '.' ∧ ' ' ∉ typed

instance (typed : List Char) : Decidable (BeginsCommand typed) :=
  inferInstanceAs (Decidable (_ ∧ _))

/-- Only word characters follow the byte offset. -/
def WordFrom (alphanumeric : Char → Bool) (typed : List Char) (start : Nat) : Prop :=
  ∃ before word, typed = before ++ word ∧ byteSize before = start ∧
    ∀ c ∈ word, alphanumeric c = true ∨ c = '_' ∨ c = '＿'

/-- The completion is the right one for what was typed. -/
structure Answers (alphanumeric : Char → Bool) (completion : Completion) (typed : List Char) :
    Prop where
  display_eq : ∀ candidate ∈ completion.candidates, candidate.display = candidate.replacement
  command : BeginsCommand typed → completion.start = 0 ∧
    completion.texts.Sublist [".help", ".load ", ".exit"] ∧
    ∀ text, text ∈ completion.texts ↔
      text ∈ [".help", ".load ", ".exit"] ∧ typed <+: text.toList
  word : ¬ BeginsCommand typed → IsLeast {n | WordFrom alphanumeric typed n} completion.start ∧
    completion.texts.Pairwise (· < ·) ∧
    ∀ before word, typed = before ++ word → byteSize before = completion.start →
      ∀ text, text ∈ completion.texts ↔
        (Keyword.kindOf? text).isSome = true ∧ word ≠ [] ∧ word <+: text.toList ∧ word ≠ text.toList

variable {alphanumeric : Char → Bool} {typed : List Char}

@[simp] theorem start_ofTexts (start : Nat) (texts : List String) :
    (ofTexts start texts).start = start := rfl

@[simp] theorem texts_ofTexts (start : Nat) (texts : List String) :
    (ofTexts start texts).texts = texts := by
  rw [Completion.texts, ofTexts, List.map_map]
  exact List.map_id texts

theorem display_eq_ofTexts {start : Nat} {texts : List String} {candidate : Candidate}
    (h : candidate ∈ (ofTexts start texts).candidates) :
    candidate.display = candidate.replacement := by
  obtain ⟨text, -, rfl⟩ := List.mem_map.1 h
  rfl

theorem isWordChar_iff (c : Char) :
    isWordChar alphanumeric c = true ↔ alphanumeric c = true ∨ c = '_' ∨ c = '＿' := by
  simp only [isWordChar, Bool.or_eq_true, beq_iff_eq, or_assoc]

theorem isWordChar_of_mem_splitWord {c : Char} (h : c ∈ (splitWord alphanumeric typed).2) :
    isWordChar alphanumeric c = true :=
  List.mem_takeWhile_imp (List.mem_reverse.1 h)

theorem not_isWordChar_of_getLast? {c : Char}
    (h : (splitWord alphanumeric typed).1.getLast? = some c) :
    ¬ isWordChar alphanumeric c = true := by
  rw [splitWord, List.getLast?_reverse] at h
  have hhead := List.head?_dropWhile_not (isWordChar alphanumeric) typed.reverse
  rw [h] at hhead
  exact Bool.eq_false_iff.1 hhead

/-- A longer run of word characters would take in the character before this one. -/
theorem isLeast_splitWord (alphanumeric : Char → Bool) (typed : List Char) :
    IsLeast {n | WordFrom alphanumeric typed n} (byteSize (splitWord alphanumeric typed).1) := by
  constructor
  · exact ⟨_, _, (splitWord_append alphanumeric typed).symm, rfl,
      fun c hc => (isWordChar_iff c).1 (isWordChar_of_mem_splitWord hc)⟩
  · rintro n ⟨before, word, htyped, rfl, hword⟩
    have heq : before ++ word =
        (splitWord alphanumeric typed).1 ++ (splitWord alphanumeric typed).2 := by
      rw [splitWord_append, ← htyped]
    rcases List.append_eq_append_iff.1 heq with ⟨more, hmore, rfl⟩ | ⟨more, rfl, -⟩
    · rcases List.eq_nil_or_concat' more with rfl | ⟨front, c, rfl⟩
      · rw [hmore, List.append_nil]
      · have hlast : (splitWord alphanumeric typed).1.getLast? = some c := by
          rw [hmore, ← List.append_assoc, List.getLast?_concat]
        have hc := (isWordChar_iff c).2 (hword c (by simp))
        exact absurd hc (not_isWordChar_of_getLast? hlast)
    · rw [byteSize_append]
      exact Nat.le_add_right _ _

theorem ofTyped_of_command (h : BeginsCommand typed) :
    ofTyped alphanumeric typed =
      ofTexts 0 (commands.filter fun command => typed.isPrefixOf command.toList) := by
  rw [ofTyped, if_pos]
  simpa [BeginsCommand] using h

theorem ofTyped_of_word (h : ¬ BeginsCommand typed) :
    ofTyped alphanumeric typed =
      ofTexts (byteSize (splitWord alphanumeric typed).1)
        (extensions (splitWord alphanumeric typed).2) := by
  rw [ofTyped, if_neg]
  simpa [BeginsCommand] using h

theorem mem_extensions_iff (word : List Char) (text : String) :
    text ∈ extensions word ↔
      (Keyword.kindOf? text).isSome = true ∧ word ≠ [] ∧ word <+: text.toList ∧
        word ≠ text.toList := by
  cases word with
  | nil => simp [extensions]
  | cons c cs =>
      rw [← Keyword.mem_spellings_iff, ne_comm (a := c :: cs) (b := text.toList)]
      simp [extensions]

theorem pairwise_extensions (word : List Char) : (extensions word).Pairwise (· < ·) := by
  rw [extensions]
  split
  · exact .nil
  · exact Keyword.pairwise_spellings.filter _

theorem answers_ofTyped (alphanumeric : Char → Bool) (typed : List Char) :
    (ofTyped alphanumeric typed).Answers alphanumeric typed := by
  by_cases h : BeginsCommand typed
  · rw [ofTyped_of_command h]
    refine ⟨fun _ => display_eq_ofTexts, fun _ => ⟨rfl, ?_, ?_⟩, absurd h⟩
    · rw [texts_ofTexts]
      exact List.filter_sublist
    · intro text
      rw [texts_ofTexts, List.mem_filter, List.isPrefixOf_iff_prefix, commands]
  · rw [ofTyped_of_word h]
    refine ⟨fun _ => display_eq_ofTexts, fun hbegins => absurd hbegins h, fun _ => ⟨?_, ?_, ?_⟩⟩
    · exact isLeast_splitWord alphanumeric typed
    · rw [texts_ofTexts]
      exact pairwise_extensions _
    · intro before word htyped hsize text
      have hcut : cut? (byteSize before) typed = some (splitWord alphanumeric typed) := by
        rw [hsize]
        exact cut?_eq_some_iff.2 ⟨(splitWord_append alphanumeric typed).symm, rfl⟩
      have hcut' : cut? (byteSize before) typed = some (before, word) :=
        cut?_eq_some_iff.2 ⟨htyped, rfl⟩
      have hsplit : splitWord alphanumeric typed = (before, word) :=
        Option.some.inj (hcut.symm.trans hcut')
      rw [texts_ofTexts, ← mem_extensions_iff, hsplit]

theorem exists_kept_ofTyped (alphanumeric : Char → Bool) (typed : List Char) :
    ∃ kept needle, typed = kept ++ needle ∧ byteSize kept = (ofTyped alphanumeric typed).start ∧
      ∀ candidate ∈ (ofTyped alphanumeric typed).candidates,
        needle <+: candidate.replacement.toList := by
  have hanswers := answers_ofTyped alphanumeric typed
  have hmem : ∀ candidate ∈ (ofTyped alphanumeric typed).candidates,
      candidate.replacement ∈ (ofTyped alphanumeric typed).texts :=
    fun candidate h => List.mem_map_of_mem h
  by_cases h : BeginsCommand typed
  · obtain ⟨hstart, -, htexts⟩ := hanswers.command h
    refine ⟨[], typed, rfl, hstart.symm, fun candidate hc => ?_⟩
    exact ((htexts _).1 (hmem candidate hc)).2
  · obtain ⟨⟨⟨kept, needle, htyped, hsize, -⟩, -⟩, -, htexts⟩ := hanswers.word h
    refine ⟨kept, needle, htyped, hsize, fun candidate hc => ?_⟩
    exact ((htexts kept needle htyped hsize _).1 (hmem candidate hc)).2.2.1

theorem at?_of_append {line : String} {pos : Nat} {rest : List Char}
    (hline : line.toList = typed ++ rest)
    (hsize : byteSize typed = min pos (byteSize line.toList)) :
    at? line pos alphanumeric = some (ofTyped alphanumeric typed) := by
  rw [at?, ← hsize, hline, cut?_byteSize_append, Option.map_some]

theorem at?_eq_none_iff (line : String) (pos : Nat) (alphanumeric : Char → Bool) :
    at? line pos alphanumeric = none ↔ ¬ ∃ typed rest, line.toList = typed ++ rest ∧
      byteSize typed = min pos (byteSize line.toList) := by
  simp only [at?, Option.map_eq_none_iff, ← cut?_eq_some_iff]
  rw [← not_iff_not, not_not, ← ne_eq, Option.ne_none_iff_exists', Prod.exists]

end Completion

/-- Completion answers at every offset that is not inside a character, an offset past the end
counting as the end. A command is offered for its beginnings. Otherwise the word at the end of what
was typed is taken as far back as it goes, and the reserved words are offered that it is a nonempty
proper beginning of, in increasing order and each once. What a candidate replaces lies before the
cursor, and the candidate begins with it. -/
theorem completion_exact (line : String) (pos : Nat) (alphanumeric : Char → Bool) :
    (Completion.at? line pos alphanumeric = none ↔ ¬ ∃ typed rest, line.toList = typed ++ rest ∧
      byteSize typed = min pos (byteSize line.toList)) ∧
    ∀ typed rest, line.toList = typed ++ rest → byteSize typed = min pos (byteSize line.toList) →
      ∃ completion, Completion.at? line pos alphanumeric = some completion ∧
        completion.Answers alphanumeric typed ∧ completion.start ≤ min pos (byteSize line.toList) ∧
        ∃ kept more, line.toList = kept ++ more ∧ byteSize kept = completion.start ∧
          ∀ candidate ∈ completion.candidates,
            typed <+: kept ++ candidate.replacement.toList := by
  refine ⟨Completion.at?_eq_none_iff line pos alphanumeric, fun typed rest hline hsize => ?_⟩
  obtain ⟨kept, needle, htyped, hkept, hneedle⟩ :=
    Completion.exists_kept_ofTyped alphanumeric typed
  refine ⟨_, Completion.at?_of_append hline hsize, Completion.answers_ofTyped alphanumeric typed,
    ?_, kept, needle ++ rest, ?_, hkept, fun candidate hc => ?_⟩
  · rw [← hsize, ← hkept, htyped, byteSize_append]
    exact Nat.le_add_right _ _
  · rw [hline, htyped, List.append_assoc]
  · rw [htyped, List.prefix_append_right_inj]
    exact hneedle candidate hc

/-- Behind a point, where two words go on from a letter; inside a character; and past the end of the
beginning of a command. -/
theorem completion_exact_sample :
    Completion.at? "é.i＝x" 1 = none ∧
      Completion.at? "é.i＝x" 4 = some ⟨3, [⟨"if", "if"⟩, ⟨"import", "import"⟩]⟩ ∧
      Completion.Answers isAlphanumeric ⟨3, [⟨"if", "if"⟩, ⟨"import", "import"⟩]⟩
        ['é', '.', 'i'] ∧
      Completion.at? ".l" 9 = some ⟨0, [⟨".load ", ".load "⟩]⟩ ∧
      Completion.Answers isAlphanumeric ⟨0, [⟨".load ", ".load "⟩]⟩ ['.', 'l'] := by
  have hline : "é.i＝x".toList = ['é', '.', 'i'] ++ ['＝', 'x'] := by decide +kernel
  have hword : Completion.at? "é.i＝x" 4 = some ⟨3, [⟨"if", "if"⟩, ⟨"import", "import"⟩]⟩ := by
    rw [Completion.at?_of_append hline (by decide +kernel),
      Completion.ofTyped_of_word (by decide +kernel), Completion.extensions, Keyword.spellings_eq]
    decide +kernel
  have hcommand : Completion.at? ".l" 9 = some ⟨0, [⟨".load ", ".load "⟩]⟩ := by decide +kernel
  obtain ⟨completion, hat, hanswers, -⟩ := (completion_exact "é.i＝x" 4 isAlphanumeric).2 _ _
    hline (by decide +kernel)
  obtain ⟨completion', hat', hanswers', -⟩ := (completion_exact ".l" 9 isAlphanumeric).2
    ['.', 'l'] [] (by decide +kernel) (by decide +kernel)
  cases hword.symm.trans hat
  cases hcommand.symm.trans hat'
  refine ⟨?_, hword, hanswers, hcommand, hanswers'⟩
  rw [(completion_exact "é.i＝x" 1 isAlphanumeric).1]
  rintro ⟨typed, rest, hline, hsize⟩
  have hcut : cut? (min 1 (byteSize "é.i＝x".toList)) "é.i＝x".toList = none := by decide +kernel
  rw [← hsize, hline, cut?_byteSize_append] at hcut
  cases hcut

end TwinScript
