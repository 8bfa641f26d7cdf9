import TwinScript.Proofs.Runs
import TwinScript.Proofs.Sessions

/-!
# The places of replies

Whatever calls have been made, a reader stands somewhere in its source: what it has passed and what
is left make up the source, and nothing is left once the end has been delivered. So an invariant of
single steps from such places holds of every session. The first one is that line and column agree
with the byte offset, in tokens and in errors alike.
-/
namespace TwinScript
open Text

namespace Reader

/-- The reader stands in the source, and at its end once that has been delivered. -/
inductive Within (source : List Char) : Reader → Prop
  | mk (before rest : List Char) (finished : Bool) (htext : before ++ rest = source)
      (hend : finished = true → rest = []) : Within source (between before rest finished)

variable {source : List Char} {r r' : Reader} {results : List (Except LexError Token)}

theorem within_ofText (source : List Char) : Within source (ofText source) := by
  rw [ofText_eq_between]
  exact .mk [] source false rfl nofun

theorem within_between_append (before gap text rest : List Char) (finished : Bool)
    (hend : finished = true → gap ++ (text ++ rest) = []) :
    Within (before ++ (gap ++ (text ++ rest))) (between (before ++ gap ++ text) rest finished) := by
  apply Within.mk
  · simp only [List.append_assoc]
  · intro hfinished
    have hnil := hend hfinished
    rw [List.append_eq_nil_iff, List.append_eq_nil_iff] at hnil
    exact hnil.2.2

theorem Step.within {before rest : List Char} {finished : Bool} {result : Except LexError Token}
    (h : Step before finished rest result r) (hend : finished = true → rest = []) :
    Within (before ++ rest) r := by
  cases h with
  | @token gap rest lexeme hgap h =>
      exact within_between_append before gap lexeme.text rest finished hend
  | @fault gap rest fault hgap h =>
      exact within_between_append before gap fault.passed rest finished hend
  | endOfInput hgap hfinished => exact .mk _ [] true (List.append_nil _) (fun _ => rfl)
  | pastEnd hgap hfinished => exact .mk _ [] true (List.append_nil _) (fun _ => rfl)

theorem Within.read {result : Except LexError Token} (h : Within source r)
    (hread : r.read = (result, r')) : Within source r' := by
  obtain ⟨before, rest, finished, rfl, hend⟩ := h
  exact Step.within (read_eq_iff_step.1 hread) hend

theorem Reads.within (h : Reads r results r') (hr : Within source r) : Within source r' := by
  induction h with
  | nil => exact hr
  | cons hread more ih => exact ih (hr.read hread)

theorem Within.call (h : Within source r) (call : Call) : Within source (r.call call).2 := by
  obtain ⟨results, hreads, -⟩ := reads_call r call
  exact hreads.within h

theorem within_after (source : List Char) (calls : List Call) :
    Within source ((ofText source).after calls) := by
  obtain ⟨results, hreads, -⟩ := reads_session (ofText source) calls
  exact hreads.within (within_ofText source)

theorem Reads.forall_mem {P : Except LexError Token → Prop}
    (hstep : ∀ before rest finished result r, before ++ rest = source →
      Step before finished rest result r → P result)
    (h : Reads r results r') (hr : Within source r) : ∀ result ∈ results, P result := by
  induction h with
  | nil => exact nofun
  | @cons r after _ result results hread more ih =>
      have hnext := hr.read hread
      obtain ⟨before, rest, finished, htext, hend⟩ := hr
      refine List.forall_mem_cons.2 ⟨?_, ih hnext⟩
      exact hstep before rest finished result after htext (read_eq_iff_step.1 hread)

theorem session_forall_mem {P : Except LexError Token → Prop}
    (hstep : ∀ before rest finished result r, before ++ rest = source →
      Step before finished rest result r → P result)
    (calls : List Call) : ∀ result ∈ (ofText source).results calls, P result := by
  -- a call for all tokens that fails returns the error only, not the results before it
  obtain ⟨results, hreads, hsub, -⟩ := reads_session (ofText source) calls
  intro result hresult
  exact hreads.forall_mem hstep (within_ofText source) result (hsub.subset hresult)

end Reader

/-- The offset lies between two characters, and line and column are what the text before it says:
its newlines, and the characters after the last of them. -/
def Text.Agrees (source : List Char) (offset line column : Nat) : Prop :=
  ∃ before rest, cut? offset source = some (before, rest) ∧
    line = 1 + before.count '\n' ∧ column = 1 + (lastLine before).length

theorem Mark.agrees_after (before rest : List Char) :
    Agrees (before ++ rest) (after before).offset (after before).line (after before).column := by
  refine ⟨before, rest, cut?_byteSize_append before rest, ?_, ?_⟩
  · exact Nat.add_comm _ _
  · exact Nat.add_comm _ _

theorem Fault.Stands.exists_extent {fault : Fault} {text : List Char} (h : fault.Stands text) :
    ∃ rest, text = fault.lead ++ (fault.extent ++ rest) := by
  cases h with
  | @stray c after hc => exact ⟨after, rfl⟩
  | @half c after hc hafter => exact ⟨after, rfl⟩
  | @point whole after point hne hwhole hpoint hafter => exact ⟨after, rfl⟩
  | @atNewline quote body value slash after hquote hbody hslash =>
      exact ⟨after, by simp [lead, extent]⟩
  | atEnd hquote hbody hslash => exact ⟨[], by simp [lead, extent]⟩

/-- The place of an error agrees with the source, and the text at fault is a part of the source. -/
structure LexError.Fits (source : List Char) (e : LexError) : Prop where
  agrees : Agrees source e.offset e.line e.column
  stop_le_size : e.offset + e.length ≤ byteSize source
  stop_boundary : (cut? (e.offset + e.length) source).isSome

theorem LexError.fits_ofFault {fault : Fault} {text : List Char} (h : fault.Stands text)
    (front : List Char) : (ofFault fault (.after front)).Fits (front ++ text) := by
  obtain ⟨rest, rfl⟩ := h.exists_extent
  have hplace := Mark.past_after front fault.lead
  have hoffset : (ofFault fault (.after front)).offset = byteSize (front ++ fault.lead) := by
    rw [ofFault, hplace]
    rfl
  have hlength : (ofFault fault (.after front)).length = byteSize fault.extent := rfl
  refine ⟨?_, ?_, ?_⟩
  · rw [← List.append_assoc, ofFault, hplace]
    exact Mark.agrees_after _ _
  · rw [hoffset, hlength]
    simp only [byteSize_append]
    omega
  · rw [hoffset, hlength, ← byteSize_append]
    have hcut := cut?_byteSize_append (front ++ fault.lead ++ fault.extent) rest
    simp only [List.append_assoc] at hcut ⊢
    rw [hcut]
    rfl

theorem LexError.fits_pastEnd (source : List Char) : (pastEnd (.after source)).Fits source := by
  have hcut := cut?_byteSize_append source []
  have hagrees := Mark.agrees_after source []
  rw [List.append_nil] at hcut hagrees
  refine ⟨hagrees, Nat.le_refl _, ?_⟩
  change (cut? (byteSize source) source).isSome
  rw [hcut]
  rfl

namespace Reader

def Placed (source : List Char) : Except LexError Token → Prop
  | .ok t => Agrees source t.span.start t.line t.column
  | .error e => e.Fits source

theorem Step.placed {before rest : List Char} {finished : Bool} {result : Except LexError Token}
    {r : Reader} (h : Step before finished rest result r) : Placed (before ++ rest) result := by
  cases h with
  | @token gap rest lexeme hgap h =>
      rw [← List.append_assoc]
      exact Mark.agrees_after (before ++ gap) _
  | @fault gap rest fault hgap h =>
      rw [← List.append_assoc]
      exact LexError.fits_ofFault h (before ++ gap)
  | endOfInput hgap hfinished =>
      have hagrees := Mark.agrees_after (before ++ rest) []
      rwa [List.append_nil] at hagrees
  | pastEnd hgap hfinished => exact LexError.fits_pastEnd (before ++ rest)

theorem session_placed (source : List Char) (calls : List Call) :
    ∀ result ∈ (ofText source).results calls, Placed source result := by
  apply session_forall_mem
  rintro before rest finished result r rfl hstep
  exact hstep.placed

end Reader

/-- In every session the line and column of each token and each error are those of its offset, and
each error marks a part of the source. -/
theorem session_places (s : String) (calls : List Reader.Call) :
    (∀ t, .ok t ∈ (Reader.ofText s.toList).results calls →
        Agrees s.toList t.span.start t.line t.column) ∧
      ∀ e, .error e ∈ (Reader.ofText s.toList).results calls →
        Agrees s.toList e.offset e.line e.column ∧ e.offset + e.length ≤ s.utf8ByteSize ∧
          (cut? e.offset s.toList).isSome ∧ (cut? (e.offset + e.length) s.toList).isSome := by
  have hplaced := Reader.session_placed s.toList calls
  constructor
  · intro t ht
    exact hplaced _ ht
  · intro e he
    have hfits : e.Fits s.toList := hplaced _ he
    obtain ⟨before, rest, hcut, -⟩ := hfits.agrees
    rw [← byteSize_toList]
    exact ⟨hfits.agrees, hfits.stop_le_size, by rw [hcut]; rfl, hfits.stop_boundary⟩

/-- A literal cut off by a newline, an error in the number after it, and the point read alone. -/
theorem session_places_sample :
    let results := (Reader.ofText "あ 'b\n１.".toList).results [.readAll, .read, .readAll]
    let cutOff : LexError := ⟨.unterminatedString, "unterminated string literal", 1, 3, 4, 3⟩
    let point : Token := ⟨.period, ".", 2, 2, ⟨10, 11⟩⟩
    .error cutOff ∈ results ∧ Agrees "あ 'b\n１.".toList 4 1 3 ∧
      (cut? (4 + 3) "あ 'b\n１.".toList).isSome ∧
      .ok point ∈ results ∧ Agrees "あ 'b\n１.".toList 10 2 2 := by
  intro results cutOff point
  have hcutOff : .error cutOff ∈ results := by decide +kernel
  have hpoint : .ok point ∈ results := by decide +kernel
  have hplaces := session_places "あ 'b\n１." [.readAll, .read, .readAll]
  obtain ⟨hagrees, -, -, hstop⟩ := hplaces.2 _ hcutOff
  exact ⟨hcutOff, hagrees, hstop, hpoint, hplaces.1 _ hpoint⟩

end TwinScript
