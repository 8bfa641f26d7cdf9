import TwinScript.Highlight
import TwinScript.Proofs.Cutting
import TwinScript.Proofs.Printing

/-!
# Highlighting adds colour only

A highlighted line is the line with escape sequences put into it, and `Highlight.segments?` says
where: around the text of each token, by the kind of the token. What is put in can be taken out
again, either because it is known what it was, or, on a line without escape characters, by deleting
all that looks like it. The line is read as pieces and a rest, so that the spans of the tokens
always fit into it.
-/
namespace TwinScript
open Text
open Token (Kind)

namespace Text

/-- The length of the sequence at the head of a text: an escape character, a bracket, digits and the
letter m. It is zero if there is none. -/
def renditionLength : List Char → Nat
  | '\x1b' :: '[' :: cs =>
    let digits := cs.takeWhile Char.isDigit
    if digits ≠ [] ∧ (cs.drop digits.length).head? = some 'm' then digits.length + 3 else 0
  | _ => 0

/-- Deletes the given number of characters, and then every such sequence. -/
def deleteFrom : Nat → List Char → List Char
  | _, [] => []
  | n + 1, _ :: cs => deleteFrom n cs
  | 0, c :: cs =>
    match renditionLength (c :: cs) with
    | 0 => c :: deleteFrom 0 cs
    | n + 1 => deleteFrom n cs

def deleteRenditions (text : List Char) : List Char := deleteFrom 0 text

theorem deleteFrom_length_append (as bs : List Char) :
    deleteFrom as.length (as ++ bs) = deleteRenditions bs := by
  induction as with
  | nil => rfl
  | cons a as ih => rw [List.length_cons, List.cons_append, deleteFrom, ih]

theorem deleteRenditions_cons_of_ne {c : Char} (h : c ≠ '\x1b') (cs : List Char) :
    deleteRenditions (c :: cs) = c :: deleteRenditions cs := by
  have hlength : renditionLength (c :: cs) = 0 := by
    unfold renditionLength
    split
    · next heq => exact absurd (List.cons.inj heq).1 h
    · rfl
  rw [deleteRenditions, deleteFrom, hlength, deleteRenditions]

theorem deleteRenditions_append {as : List Char} (h : '\x1b' ∉ as) (bs : List Char) :
    deleteRenditions (as ++ bs) = as ++ deleteRenditions bs := by
  induction as with
  | nil => rfl
  | cons a as ih =>
      rw [List.mem_cons, not_or] at h
      rw [List.cons_append, deleteRenditions_cons_of_ne (Ne.symm h.1), ih h.2, List.cons_append]

end Text

namespace Highlight

/-- A part of a highlighted line: a part of the line itself, or a sequence put in. -/
inductive Segment
  | kept (text : List Char)
  | inserted (code : Nat)
  deriving DecidableEq, Repr

namespace Segment

def text : Segment → List Char
  | kept text => text
  | inserted code => '\x1b' :: '[' :: (code.repr.toList ++ ['m'])

def keptText : Segment → List Char
  | kept text => text
  | inserted _ => []

end Segment

def shown (segments : List Segment) : List Char := segments.flatMap Segment.text

def withoutInserted (segments : List Segment) : List Char := segments.flatMap Segment.keptText

/-- The codes put before and after the text of a token. -/
def renditions (kind : Kind) : List Nat × List Nat :=
  if kind = .boolean ∨ kind = .nil then ([36], [39])
  else if kind.isKeyword then ([1, 34], [39, 0])
  else if kind = .int ∨ kind = .float then ([35], [39])
  else if kind = .string then ([32], [39])
  else if kind = .binOp ∨ kind = .equals ∨ kind = .bang then ([33], [39])
  else ([], [])

def wrapped (kind : Kind) (text : List Char) : List Segment :=
  (renditions kind).1.map .inserted ++ .kept text :: (renditions kind).2.map .inserted

/-- The line from a byte offset on: before each token the text between it and the one before, then
its own text wrapped, and at last what follows the tokens. -/
def segments? (line : List Char) (last : Nat) : List Token → Option (List Segment)
  | [] => (slice? last (byteSize line) line).map fun rest => [.kept rest]
  | t :: ts => do
    let gap ← slice? last t.span.start line
    let body ← slice? t.span.start t.span.stop line
    let more ← segments? line t.span.stop ts
    return .kept gap :: (wrapped t.kind body ++ more)

theorem withoutInserted_append (as bs : List Segment) :
    withoutInserted (as ++ bs) = withoutInserted as ++ withoutInserted bs :=
  List.flatMap_append

theorem withoutInserted_map_inserted (codes : List Nat) :
    withoutInserted (codes.map .inserted) = [] := by
  induction codes with
  | nil => rfl
  | cons code codes ih => exact ih

theorem withoutInserted_wrapped (kind : Kind) (text : List Char) :
    withoutInserted (wrapped kind text) = text := by
  rw [wrapped, withoutInserted_append, withoutInserted_map_inserted, List.nil_append,
    ← List.singleton_append, withoutInserted_append, withoutInserted_map_inserted, List.append_nil]
  exact List.append_nil text

theorem renditionLength_inserted (code : Nat) (rest : List Char) :
    renditionLength ((Segment.inserted code).text ++ rest) = code.repr.toList.length + 3 := by
  obtain ⟨htake, -⟩ := span_of_stop (p := Char.isDigit) (fun _ => Iff.rfl) code.repr.toList
    ('m' :: rest) (fun c hc => Format.isDigit_of_mem_repr hc) (by simp)
  have hne : code.repr.toList ≠ [] := by
    rw [Nat.toList_repr]
    exact Nat.toDigits_ne_nil
  have htext : (Segment.inserted code).text ++ rest =
      '\x1b' :: '[' :: (code.repr.toList ++ 'm' :: rest) := by simp [Segment.text]
  rw [htext, renditionLength, htake, List.drop_left, if_pos ⟨hne, rfl⟩]

theorem deleteRenditions_inserted (code : Nat) (rest : List Char) :
    deleteRenditions ((Segment.inserted code).text ++ rest) = deleteRenditions rest := by
  have hlength := renditionLength_inserted code rest
  let tail := '[' :: (code.repr.toList ++ ['m'])
  have htail : tail.length = code.repr.toList.length + 2 := by simp [tail]
  change renditionLength ('\x1b' :: (tail ++ rest)) = _ at hlength
  change deleteFrom 0 ('\x1b' :: (tail ++ rest)) = _
  rw [deleteFrom, hlength, ← deleteFrom_length_append tail rest, htail]

/-- Where the line itself has no escape character, exactly what was put in is deleted. -/
theorem deleteRenditions_shown (segments : List Segment)
    (h : '\x1b' ∉ withoutInserted segments) :
    deleteRenditions (shown segments) = withoutInserted segments := by
  induction segments with
  | nil => rfl
  | cons segment segments ih =>
      have hsplit : withoutInserted (segment :: segments) =
          segment.keptText ++ withoutInserted segments := rfl
      rw [hsplit, List.mem_append, not_or] at h
      rw [hsplit, ← ih h.2]
      cases segment with
      | kept text => exact deleteRenditions_append h.1 (shown segments)
      | inserted code => exact deleteRenditions_inserted code (shown segments)

theorem toList_rendition (code : Nat) : (rendition code).toList = (Segment.inserted code).text := by
  simp [rendition, Segment.text]

theorem toList_paint (kind : Kind) (text : String) :
    (paint kind text).toList = shown (wrapped kind text.toList) := by
  cases kind <;>
    simp [paint, Colour.paint, Colour.paintBold, Colour.code, toList_rendition, shown, wrapped,
      renditions, Kind.isKeyword, Segment.text]

theorem paintTokens?_of_segments? {line : List Char} {ts : List Token} {last : Nat}
    {segments : List Segment} (h : segments? line last ts = some segments) (painted : String) :
    ∃ more stop rest, paintTokens? line painted last ts = some (painted ++ more, stop) ∧
      slice? stop (byteSize line) line = some rest ∧
      more ++ String.ofList rest = String.ofList (shown segments) ∧
      last ≤ stop ∧ ∀ t ∈ ts, t.span.stop ≤ stop := by
  induction ts generalizing last segments painted with
  | nil =>
      obtain ⟨rest, hrest, rfl⟩ := Option.map_eq_some_iff.1 h
      refine ⟨"", last, rest, ?_, hrest, ?_, Nat.le_refl _, nofun⟩
      · rw [paintTokens?, String.append_empty]
      · simp [shown, Segment.text]
  | cons t ts ih =>
      simp only [segments?, Option.bind_eq_bind, Option.bind_eq_some_iff, Option.pure_def,
        Option.some.injEq] at h
      obtain ⟨gap, hgap, body, hbody, more, hmore, rfl⟩ := h
      obtain ⟨text, stop, rest, hpaint, hrest, htext, hle, hall⟩ := ih hmore
        (painted ++ String.ofList gap ++ paint t.kind (String.ofList body))
      have hstart := le_of_slice? hgap
      have hstop := le_of_slice? hbody
      refine ⟨String.ofList gap ++ paint t.kind (String.ofList body) ++ text, stop, rest, ?_, hrest,
        ?_, by omega, List.forall_mem_cons.2 ⟨hle, hall⟩⟩
      · simp only [paintTokens?, hgap, hbody, hpaint, Option.bind_eq_bind, Option.bind_some]
        simp only [String.append_assoc]
      · rw [String.append_assoc, htext]
        apply String.toList_inj.1
        simp [toList_paint, shown, Segment.text]

theorem segments?_nil (line : List Char) : segments? line 0 [] = some [.kept line] := by
  have hslice := slice?_append [] line []
  rw [byteSize_nil, Nat.zero_add, List.nil_append, List.append_nil] at hslice
  rw [segments?, hslice, Option.map_some]

theorem line?_of_segments? {line : String} {segments : List Segment}
    (h : segments? line.toList 0 (tokens line.toList) = some segments)
    (hspans : ∀ t ∈ tokens line.toList, 0 < t.span.stop) :
    line? line = some (String.ofList (shown segments)) := by
  obtain ⟨text, stop, rest, hpaint, hrest, htext, -, hall⟩ := paintTokens?_of_segments? h ""
  rw [String.empty_append] at hpaint
  simp only [line?, hpaint, hrest, Option.bind_eq_bind, Option.bind_some, Option.pure_def]
  by_cases hstop : stop = 0
  · -- no token ends at offset zero, so there was none, and the line was kept as a whole
    have hnil : tokens line.toList = [] := by
      rw [List.eq_nil_iff_forall_not_mem]
      intro t ht
      have hpos := hspans t ht
      have hle := hall t ht
      omega
    rw [hnil, segments?_nil, Option.some.injEq] at h
    rw [if_pos hstop, ← h]
    simp [shown, Segment.text]
  · rw [if_neg hstop, htext]

end Highlight

namespace Piece

def segments (rest : List Char) : List Piece → List Highlight.Segment
  | [] => [.kept rest]
  | p :: ps => .kept p.gap :: (Highlight.wrapped p.lexeme.kind p.lexeme.text ++ segments rest ps)

theorem segments?_tokens (before rest : List Char) (pieces : List Piece) :
    Highlight.segments? (before ++ (textOf pieces ++ rest)) (byteSize before)
      (tokens before pieces) = some (segments rest pieces) := by
  induction pieces generalizing before with
  | nil =>
      have hrest := slice?_append before rest []
      rw [List.append_nil, ← byteSize_append] at hrest
      simp only [tokens, textOf, List.nil_append, Highlight.segments?, hrest, Option.map_some,
        segments]
  | cons p ps ih =>
      have hgap := slice?_append before p.gap (p.lexeme.text ++ (textOf ps ++ rest))
      have hbody := slice?_append (before ++ p.gap) p.lexeme.text (textOf ps ++ rest)
      have hmore := ih (before ++ (p.gap ++ p.lexeme.text))
      simp only [List.append_assoc, ← byteSize_append] at hgap hbody hmore
      simp only [tokens, token_eq, textOf, text, Highlight.segments?, Lexeme.token,
        Mark.offset_after, List.append_assoc, hgap, hbody, hmore, segments, Option.bind_eq_bind,
        Option.bind_some, Option.pure_def]

theorem withoutInserted_segments (rest : List Char) (pieces : List Piece) :
    Highlight.withoutInserted (segments rest pieces) = textOf pieces ++ rest := by
  induction pieces with
  | nil => exact List.append_nil rest
  | cons p ps ih =>
      rw [segments, ← List.singleton_append, Highlight.withoutInserted_append,
        Highlight.withoutInserted_append, Highlight.withoutInserted_wrapped, ih, textOf, text,
        List.append_assoc, List.append_assoc]
      exact congrArg (· ++ _) (List.append_nil p.gap)

theorem stop_pos_of_mem_tokens {before rest : List Char} {pieces : List Piece}
    (h : Stand pieces rest) {t : Token} (ht : t ∈ tokens before pieces) : 0 < t.span.stop := by
  induction pieces generalizing before with
  | nil => cases ht
  | cons p ps ih =>
      obtain ⟨hp, hps⟩ := (stand_cons_iff p ps rest).1 h
      rcases List.mem_cons.1 ht with rfl | hmore
      · have hne : byteSize p.lexeme.text ≠ 0 := fun hzero =>
          hp.2.text_ne_nil (byteSize_eq_zero_iff.1 hzero)
        simp only [stop_token, text, byteSize_append]
        omega
      · exact ih hps hmore

end Piece

namespace Layout

variable {source : List Char}

def segments (layout : Layout source) : List Highlight.Segment :=
  Piece.segments (layout.gap ++ layout.rest) layout.pieces

theorem segments?_tokens (layout : Layout source) :
    Highlight.segments? source 0 layout.tokens = some layout.segments := by
  have hsegments := Piece.segments?_tokens [] (layout.gap ++ layout.rest) layout.pieces
  rw [List.nil_append, layout.text_eq] at hsegments
  exact hsegments

theorem withoutInserted_segments (layout : Layout source) :
    Highlight.withoutInserted layout.segments = source := by
  rw [segments, Piece.withoutInserted_segments, layout.text_eq]

theorem highlight_tokens (layout : Layout source) (h : Halts layout.rest) :
    Highlight.tokens source = layout.tokens := by
  have hall : ∀ t ∈ layout.tokens, (t.kind != .endOfInput) = true := by
    intro t ht
    rw [← layout.filter_tokens] at ht
    exact bne_iff_ne.2 (of_decide_eq_true (List.mem_filter.1 ht).2)
  rw [Highlight.tokens]
  rcases h with hrest | ⟨fault, hfault⟩
  · rw [layout.run_of_complete hrest, List.takeWhile_append_of_pos hall]
    exact List.append_nil _
  · obtain ⟨after, hrun⟩ := layout.run_of_fault fault hfault
    rw [hrun, List.takeWhile_eq_self_iff.2 hall]

end Layout

/-- A highlighted line is made of the texts between the tokens that are read, the texts of these
tokens, each wrapped by its kind, and what follows them. Without the sequences put in it is the
line, and if the line has no escape character, deleting all sequences of this form gives it back. A
line without tokens is not changed. -/
theorem line?_eq_segments (line : String) :
    let tokens := Reader.tokensRead line.toList
    ∃ segments, Highlight.segments? line.toList 0 tokens = some segments ∧
      Highlight.line? line = some (String.ofList (Highlight.shown segments)) ∧
      Highlight.withoutInserted segments = line.toList ∧
      ('\x1b' ∉ line.toList → deleteRenditions (Highlight.shown segments) = line.toList) ∧
      (tokens = [] → Highlight.line? line = some line) := by
  intro tokens
  obtain ⟨layout, hhalts⟩ := Layout.exists_halts line.toList
  have htokens : tokens = layout.tokens := layout.filter_run_tokens hhalts
  have hread : Highlight.tokens line.toList = layout.tokens := layout.highlight_tokens hhalts
  have hsegments := layout.segments?_tokens
  have hkept := layout.withoutInserted_segments
  have hline : Highlight.line? line = some (String.ofList (Highlight.shown layout.segments)) := by
    apply Highlight.line?_of_segments?
    · rw [hread, hsegments]
    · intro t ht
      rw [hread] at ht
      exact Piece.stop_pos_of_mem_tokens layout.pieces_stand ht
  rw [htokens]
  refine ⟨layout.segments, hsegments, hline, hkept, ?_, ?_⟩
  · intro hescape
    rw [← hkept] at hescape
    rw [Highlight.deleteRenditions_shown _ hescape, hkept]
  · intro hnone
    rw [hnone, Highlight.segments?_nil, Option.some.injEq] at hsegments
    rw [hline, ← hsegments]
    simp [Highlight.shown, Highlight.Segment.text]

/-- A keyword, a string whose value is not its text, and an error after them; and a line that is a
comment. -/
theorem line?_eq_segments_sample :
    (∃ segments, Highlight.segments? "宣言 '\\a'|".toList 0
        [⟨.letWord, "宣言", 1, 1, ⟨0, 6⟩⟩, ⟨.string, "a", 1, 4, ⟨7, 11⟩⟩] = some segments ∧
      Highlight.line? "宣言 '\\a'|" =
        some "\x1b[1m\x1b[34m宣言\x1b[39m\x1b[0m \x1b[32m'\\a'\x1b[39m|" ∧
      deleteRenditions (Highlight.shown segments) = "宣言 '\\a'|".toList) ∧
    Highlight.line? " ＃1" = some " ＃1" := by
  have htokens : Reader.tokensRead "宣言 '\\a'|".toList =
      [⟨.letWord, "宣言", 1, 1, ⟨0, 6⟩⟩, ⟨.string, "a", 1, 4, ⟨7, 11⟩⟩] := by
    decide +kernel
  have hline : Highlight.line? "宣言 '\\a'|" =
      some "\x1b[1m\x1b[34m宣言\x1b[39m\x1b[0m \x1b[32m'\\a'\x1b[39m|" := by
    decide +kernel
  obtain ⟨segments, hsegments, -, -, hdelete, -⟩ := line?_eq_segments "宣言 '\\a'|"
  rw [htokens] at hsegments
  refine ⟨⟨segments, hsegments, hline, hdelete (by decide +kernel)⟩, ?_⟩
  obtain ⟨-, -, -, -, -, hblank⟩ := line?_eq_segments " ＃1"
  exact hblank (by decide +kernel)

end TwinScript
