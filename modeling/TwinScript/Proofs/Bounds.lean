import TwinScript.Proofs.Highlighting
import TwinScript.Proofs.Scanning
import TwinScript.Proofs.Tiling

/-!
# Nothing is cut out of bounds

Scanning cuts values out of its source between two marks, and highlighting cuts a line at the spans
of its tokens. Wherever the reader of a session stands, the marks of a read are in order and within
the source. The spans of a line are those of its pieces, so that every cut of the line lies between
two characters.
-/
namespace TwinScript
open Text

theorem Text.slice?_eq_some_iff {start stop : Nat} {text part : List Char} :
    slice? start stop text = some part ↔
      ∃ before after, text = before ++ (part ++ after) ∧ byteSize before = start ∧
        byteSize (before ++ part) = stop := by
  constructor
  · intro h
    have hle := le_of_slice? h
    rw [slice?, if_pos hle, Option.bind_eq_some_iff] at h
    obtain ⟨⟨before, tail⟩, hcut, h⟩ := h
    obtain ⟨⟨part', after⟩, hcut', rfl⟩ := Option.map_eq_some_iff.1 h
    obtain ⟨rfl, hstart⟩ := cut?_eq_some_iff.1 hcut
    obtain ⟨rfl, hsize⟩ := cut?_eq_some_iff.1 hcut'
    refine ⟨before, after, rfl, hstart, ?_⟩
    rw [byteSize_append, hstart, hsize]
    omega
  · rintro ⟨before, after, rfl, rfl, rfl⟩
    rw [← List.append_assoc, byteSize_append]
    exact slice?_append before part after

/-- The range lies in the text, from one end of a character to another. -/
structure Span.Within (text : List Char) (span : Span) : Prop where
  start_le_stop : span.start ≤ span.stop
  stop_le_size : span.stop ≤ byteSize text
  start_boundary : (cut? span.start text).isSome
  stop_boundary : (cut? span.stop text).isSome

theorem Span.within_of_slice? {text part : List Char} {span : Span}
    (h : slice? span.start span.stop text = some part) : span.Within text := by
  have hle := le_of_slice? h
  obtain ⟨before, after, rfl, hstart, hstop⟩ := slice?_eq_some_iff.1 h
  refine ⟨hle, ?_, ?_, ?_⟩
  · rw [← hstop]
    simp only [byteSize_append]
    omega
  · rw [← hstart]
    exact isSome_cut? before (part ++ after)
  · rw [← hstop, ← List.append_assoc]
    exact isSome_cut? (before ++ part) after

namespace Highlight

/-- The ranges that highlighting cuts out of a line of the given size, from a byte offset on: the
text before each token, its own text, and what follows the last token if there is one. -/
def cutsFrom (size last : Nat) : List Token → List Span
  | [] => if last = 0 then [] else [⟨last, size⟩]
  | t :: ts => ⟨last, t.span.start⟩ :: t.span :: cutsFrom size t.span.stop ts

def cuts (line : List Char) : List Span := cutsFrom (byteSize line) 0 (tokens line)

def addRest? (line : String) : String × Nat → Option String
  | (painted, last) =>
    if last = 0 then some line
    else do
      let rest ← slice? last (byteSize line.toList) line.toList
      return painted ++ String.ofList rest

theorem line?_eq_bind (line : String) :
    line? line = (paintTokens? line.toList "" 0 (tokens line.toList)).bind (addRest? line) :=
  rfl

theorem isSome_paintTokens?_iff (line : String) (painted : String) (last : Nat) (ts : List Token) :
    ((paintTokens? line.toList painted last ts).bind (addRest? line)).isSome ↔
      ∀ span ∈ cutsFrom (byteSize line.toList) last ts,
        (slice? span.start span.stop line.toList).isSome := by
  induction ts generalizing painted last with
  | nil =>
      by_cases hlast : last = 0
      · simp [paintTokens?, addRest?, cutsFrom, hlast]
      · cases hrest : slice? last (byteSize line.toList) line.toList <;>
          simp [paintTokens?, addRest?, cutsFrom, hlast, hrest]
  | cons t ts ih =>
      rw [cutsFrom, List.forall_mem_cons, List.forall_mem_cons, paintTokens?]
      cases hgap : slice? last t.span.start line.toList with
      | none => simp
      | some gap =>
          cases hbody : slice? t.span.start t.span.stop line.toList with
          | none => simp
          | some body => simpa using ih _ t.span.stop

/-- A line is highlighted exactly if each of its cuts exists. -/
theorem isSome_line?_iff (line : String) :
    (line? line).isSome ↔
      ∀ span ∈ cuts line.toList, (slice? span.start span.stop line.toList).isSome := by
  rw [line?_eq_bind, isSome_paintTokens?_iff]
  rfl

theorem isSome_slice?_of_segments? {line : List Char} {ts : List Token} {last : Nat}
    {segments : List Segment} (h : segments? line last ts = some segments) :
    ∀ span ∈ cutsFrom (byteSize line) last ts, (slice? span.start span.stop line).isSome := by
  induction ts generalizing last segments with
  | nil =>
      intro span hspan
      obtain ⟨rest, hrest, -⟩ := Option.map_eq_some_iff.1 h
      by_cases hlast : last = 0
      · rw [cutsFrom, if_pos hlast] at hspan
        cases hspan
      · rw [cutsFrom, if_neg hlast, List.mem_singleton] at hspan
        subst hspan
        rw [hrest]
        rfl
  | cons t ts ih =>
      simp only [segments?, Option.bind_eq_bind, Option.bind_eq_some_iff, Option.pure_def,
        Option.some.injEq] at h
      obtain ⟨gap, hgap, body, hbody, more, hmore, -⟩ := h
      rw [cutsFrom, List.forall_mem_cons, List.forall_mem_cons, hgap, hbody]
      exact ⟨rfl, rfl, ih hmore⟩

theorem isSome_slice?_of_mem_cuts {line : List Char} {span : Span} (h : span ∈ cuts line) :
    (slice? span.start span.stop line).isSome := by
  obtain ⟨layout, hhalts⟩ := Layout.exists_halts line
  have hsegments := layout.segments?_tokens
  rw [← layout.highlight_tokens hhalts] at hsegments
  exact isSome_slice?_of_segments? hsegments span h

end Highlight

namespace Reader

theorem Step.marks_le {before rest : List Char} {finished : Bool}
    {result : Except LexError Token} {r : Reader} (h : Step before finished rest result r) :
    let start := (between before rest finished).cursor.skipGap.mark
    start.index ≤ r.cursor.mark.index ∧ r.cursor.mark.index ≤ (before ++ rest).length ∧
      start.offset ≤ r.cursor.mark.offset := by
  have hmarks : ∀ front text more : List Char,
      (Mark.after front).index ≤ (Mark.after (front ++ text)).index ∧
        (Mark.after (front ++ text)).index ≤ (front ++ (text ++ more)).length ∧
        (Mark.after front).offset ≤ (Mark.after (front ++ text)).offset := by
    intro front text more
    simp only [Mark.after, List.length_append, byteSize_append]
    omega
  cases h with
  | @token gap rest lexeme hgap h =>
      have hskip := Cursor.skipGap_between before gap _ hgap h.not_startsIn_part
      simp only [between, hskip, Cursor.mark_between, ← List.append_assoc before gap]
      exact hmarks (before ++ gap) lexeme.text rest
  | @fault gap rest fault hgap h =>
      have hskip := Cursor.skipGap_between before gap _ hgap h.not_startsIn_part
      simp only [between, hskip, Cursor.mark_between, ← List.append_assoc before gap]
      exact hmarks (before ++ gap) fault.passed rest
  | endOfInput hgap hfinished =>
      have hskip := Cursor.skipGap_between before rest [] hgap (not_startsIn_nil _)
      rw [List.append_nil] at hskip
      simp only [between, hskip, Cursor.mark_between]
      exact ⟨Nat.le_refl _, Nat.le_refl _, Nat.le_refl _⟩
  | pastEnd hgap hfinished =>
      have hskip := Cursor.skipGap_between before rest [] hgap (not_startsIn_nil _)
      rw [List.append_nil] at hskip
      simp only [between, hskip, Cursor.mark_between]
      exact ⟨Nat.le_refl _, Nat.le_refl _, Nat.le_refl _⟩

theorem Within.marks_le {source : List Char} {r : Reader} (h : Within source r) :
    let start := r.cursor.skipGap.mark
    let finish := r.read.2.cursor.mark
    start.index ≤ finish.index ∧ finish.index ≤ source.length ∧ start.offset ≤ finish.offset := by
  obtain ⟨before, rest, finished, rfl, -⟩ := h
  exact (read_eq_iff_step.1 rfl).marks_le

end Reader

/-- No cut is out of bounds. After any calls, and at each of the reads that may then follow,
scanning with a cursor gives what reading gives: the marks between which it cuts are in order and in
the text, and so are the offsets it subtracts. Every line can be highlighted, and the ranges cut out
of it lie between characters of the line. -/
theorem cuts_in_bounds (s : String) :
    (∀ calls results r, ((Reader.ofText s.toList).after calls).Reads results r →
      let start := r.cursor.skipGap.mark
      let finish := r.read.2.cursor.mark
      r.scan? = some r.read ∧ start.index ≤ finish.index ∧ finish.index ≤ s.length ∧
        start.offset ≤ finish.offset) ∧
      (Highlight.line? s).isSome ∧
      ∀ span ∈ Highlight.cuts s.toList, span.Within s.toList := by
  refine ⟨?_, ?_, ?_⟩
  · intro calls results r hreads
    have hr : Reader.Within s.toList r := hreads.within (Reader.within_after s.toList calls)
    obtain ⟨hindex, hlength, hoffset⟩ := hr.marks_le
    rw [String.length_toList] at hlength
    exact ⟨hr.scan?_eq_read, hindex, hlength, hoffset⟩
  · rw [Highlight.isSome_line?_iff]
    intro span hspan
    exact Highlight.isSome_slice?_of_mem_cuts hspan
  · intro span hspan
    obtain ⟨part, hpart⟩ := Option.isSome_iff_exists.1 (Highlight.isSome_slice?_of_mem_cuts hspan)
    exact Span.within_of_slice? hpart

/-- After a word and a number that ends in a point, a literal that a backslash keeps open up to the
end of its line; and the last cut of a line with a wide space before its word. -/
theorem cuts_in_bounds_sample :
    let r := (Reader.ofText "あ １.'b\\\n本".toList).after [.readAll, .read]
    r.read.1 = .error ⟨.unterminatedString, "unterminated string literal", 1, 5, 8, 4⟩ ∧
      r.scan? = some r.read ∧ r.cursor.skipGap.mark.offset ≤ r.read.2.cursor.mark.offset ∧
      r.read.2.cursor.mark.index ≤ 9 ∧
      Highlight.cuts "\u3000本当 #".toList = [⟨0, 3⟩, ⟨3, 9⟩, ⟨9, 11⟩] ∧
      Span.Within "\u3000本当 #".toList ⟨9, 11⟩ := by
  intro r
  obtain ⟨hscan, -, hlength, hoffset⟩ :=
    (cuts_in_bounds "あ １.'b\\\n本").1 [.readAll, .read] [] r (.nil r)
  have hsize : "あ １.'b\\\n本".length = 9 := by decide +kernel
  rw [hsize] at hlength
  have hcuts : Highlight.cuts "\u3000本当 #".toList = [⟨0, 3⟩, ⟨3, 9⟩, ⟨9, 11⟩] := by
    decide +kernel
  refine ⟨by decide +kernel, hscan, hoffset, hlength, hcuts, ?_⟩
  apply (cuts_in_bounds "\u3000本当 #").2.2
  rw [hcuts]
  decide

end TwinScript
