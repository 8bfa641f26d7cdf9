import TwinScript.Proofs.Places

/-!
# Sessions converge

A reader never goes back. It delivers the end of the input once, and from then on answers every call
with one and the same error. Every read that is neither an end nor an unrecognized character passes
at least one character, so a session comes to one of the two, and reading on always stops. The
count of delivered ends is the flag that the reader keeps, and this equation carries the induction.
-/
namespace TwinScript
open Text

namespace Reader

def position (r : Reader) : Nat := r.cursor.mark.index

@[simp] theorem position_between (before rest : List Char) (finished : Bool) :
    (between before rest finished).position = before.length := rfl

@[simp] theorem finished_between (before rest : List Char) (finished : Bool) :
    (between before rest finished).finished = finished := rfl

def isEnd : Except LexError Token → Bool
  | .ok t => t.kind == .endOfInput
  | .error _ => false

def isError (kind : LexError.Kind) : Except LexError Token → Bool
  | .ok _ => false
  | .error e => e.kind == kind

/-- Reading on from a reader up to an error or the end of the input, with the number of reads. -/
inductive ReadsOn : Reader → Nat → Except LexError (List Token) → Reader → Prop
  | error {r r' : Reader} {e : LexError} (h : r.read = (.error e, r')) : ReadsOn r 1 (.error e) r'
  | finish {r r' : Reader} {t : Token} (h : r.read = (.ok t, r')) (ht : t.kind = .endOfInput) :
      ReadsOn r 1 (.ok [t]) r'
  | token {r r' r'' : Reader} {t : Token} {n : Nat} {result : Except LexError (List Token)}
      (h : r.read = (.ok t, r')) (ht : t.kind ≠ .endOfInput) (more : ReadsOn r' n result r'') :
      ReadsOn r (n + 1) (result.map (t :: ·)) r''

theorem readAll_of_error {r r' : Reader} {e : LexError} (h : r.read = (.error e, r')) :
    r.readAll = (.error e, r') := by
  simp only [readAll_eq_run, run_of_error h]

theorem readAll_of_endOfInput {r r' : Reader} {t : Token} (h : r.read = (.ok t, r'))
    (ht : t.kind = .endOfInput) : r.readAll = (.ok [t], r') := by
  simp only [readAll_eq_run, run_of_endOfInput h ht]

theorem readAll_of_token {r r' : Reader} {t : Token} (h : r.read = (.ok t, r'))
    (ht : t.kind ≠ .endOfInput) :
    r.readAll = (r'.readAll.1.map (t :: ·), r'.readAll.2) := by
  simp only [readAll_eq_run, run_of_token h ht]
  cases r'.run.error <;> rfl

theorem exists_readsOn (r : Reader) :
    ∃ n ≤ r.cursor.rest.length + 1, ReadsOn r n r.readAll.1 r.readAll.2 := by
  rcases hread : r.read with ⟨e | t, r'⟩
  · rw [readAll_of_error hread]
    exact ⟨1, by omega, .error hread⟩
  · by_cases ht : t.kind = .endOfInput
    · rw [readAll_of_endOfInput hread ht]
      exact ⟨1, by omega, .finish hread ht⟩
    · have hshorter := read_ok_shorter hread ht
      obtain ⟨n, hn, hmore⟩ := exists_readsOn r'
      rw [readAll_of_token hread ht]
      exact ⟨n + 1, by omega, .token hread ht hmore⟩
termination_by r.cursor.rest.length

section Steps

variable {before rest : List Char} {finished : Bool} {result : Except LexError Token} {r : Reader}

theorem Step.length_le_position (h : Step before finished rest result r) :
    before.length ≤ r.position := by
  cases h <;> simp only [position_between, List.length_append] <;> omega

/-- Every outcome but an end and an unrecognized character passes some text. -/
theorem Step.length_lt_position (h : Step before finished rest result r)
    (hend : isEnd result = false) (hpast : isError .endOfInput result = false)
    (hstray : isError .unrecognized result = false) : before.length < r.position := by
  cases h with
  | @token gap rest lexeme hgap h =>
      have hpos := List.length_pos_iff.2 h.text_ne_nil
      simp only [position_between, List.length_append]
      omega
  | @fault gap rest fault hgap h =>
      have hne : fault.passed ≠ [] := by
        generalize htext : fault.passed ++ rest = text at h
        cases h with
        | stray hc => cases hstray
        | half hc hafter => cases hstray
        | point hne hwhole hpoint hafter => exact hne
        | atNewline hquote hbody hslash => exact List.cons_ne_nil _ _
        | atEnd hquote hbody hslash => exact List.cons_ne_nil _ _
      have hpos := List.length_pos_iff.2 hne
      simp only [position_between, List.length_append]
      omega
  | endOfInput hgap hfinished => cases hend
  | pastEnd hgap hfinished => cases hpast

/-- Before the end has been delivered, no read goes past it, and a read sets the flag exactly when
it delivers the end. -/
theorem Step.finished_eq (h : Step before false rest result r) :
    r.finished = isEnd result ∧ isError .endOfInput result = false := by
  cases h with
  | @token gap rest lexeme hgap h => exact ⟨(beq_eq_false_iff_ne.2 h.kind_ne.1).symm, rfl⟩
  | @fault gap rest fault hgap h =>
      refine ⟨rfl, ?_⟩
      cases fault <;> rfl
  | endOfInput hgap hfinished => exact ⟨rfl, rfl⟩
  | pastEnd hgap hfinished => cases hfinished

end Steps

section Calls

variable {source : List Char} {r r' : Reader} {result : Except LexError Token}

theorem Within.position_le_read (h : Within source r) (hread : r.read = (result, r')) :
    r.position ≤ r'.position := by
  obtain ⟨before, rest, finished, htext, hrest⟩ := h
  exact (read_eq_iff_step.1 hread).length_le_position

theorem Reads.position_le {results : List (Except LexError Token)} (h : Reads r results r')
    (hr : Within source r) : r.position ≤ r'.position := by
  induction h with
  | nil => exact Nat.le_refl _
  | cons hread more ih => exact Nat.le_trans (hr.position_le_read hread) (ih (hr.read hread))

theorem Within.position_le_call (h : Within source r) (call : Call) :
    r.position ≤ (r.call call).2.position := by
  obtain ⟨results, hreads, -⟩ := reads_call r call
  exact hreads.position_le h

theorem Within.position_add_rest (h : Within source r) :
    r.position + r.cursor.rest.length = source.length := by
  obtain ⟨before, rest, finished, rfl, hrest⟩ := h
  exact List.length_append.symm

theorem Within.position_lt_read (h : Within source r) (hread : r.read = (result, r'))
    (hend : isEnd result = false) (hpast : isError .endOfInput result = false)
    (hstray : isError .unrecognized result = false) : r.position < r'.position := by
  obtain ⟨before, rest, finished, htext, hrest⟩ := h
  exact (read_eq_iff_step.1 hread).length_lt_position hend hpast hstray

theorem Within.finished_read (h : Within source r) (hr : r.finished = false)
    (hread : r.read = (result, r')) :
    r'.finished = isEnd result ∧ isError .endOfInput result = false := by
  obtain ⟨before, rest, finished, htext, hrest⟩ := h
  rw [finished_between] at hr
  subst hr
  exact (read_eq_iff_step.1 hread).finished_eq

theorem Within.read_of_finished (h : Within source r) (hr : r.finished = true) :
    r.read = (.error (.pastEnd (.after source)), r) := by
  obtain ⟨before, rest, finished, rfl, hrest⟩ := h
  rw [finished_between] at hr
  subst hr
  obtain rfl := hrest rfl
  have hread := (@Step.pastEnd before true [] (.nil []) rfl).read_eq
  rwa [List.append_nil] at hread ⊢

theorem call_of_stuck {e : LexError} (h : r.read = (.error e, r)) (call : Call) :
    (r.call call).1.results = [.error e] ∧ (r.call call).2 = r := by
  cases call with
  | read => simp only [Reader.call, h, Reply.results, and_self]
  | readAll => simp only [Reader.call, readAll_of_error h, Reply.results, and_self]

theorem Within.call_of_finished (h : Within source r) (hr : r.finished = true) (call : Call) :
    (r.call call).1.results = [.error (.pastEnd (.after source))] ∧ (r.call call).2 = r :=
  call_of_stuck (h.read_of_finished hr) call

theorem ReadsOn.count_isEnd {n : Nat} {all : Except LexError (List Token)}
    (h : ReadsOn r n all r') (hr : Within source r) (hfinished : r.finished = false) :
    (Reply.tokens all).results.countP isEnd = r'.finished.toNat ∧
      ∀ result ∈ (Reply.tokens all).results, isError .endOfInput result = false := by
  induction h with
  | @error r r' e hread =>
      obtain ⟨hflag, hpast⟩ := hr.finished_read hfinished hread
      rw [hflag]
      exact ⟨rfl, fun result hresult => List.mem_singleton.1 hresult ▸ hpast⟩
  | @finish r r' t hread ht =>
      obtain ⟨hflag, hpast⟩ := hr.finished_read hfinished hread
      have hend : isEnd (.ok t) = true := beq_iff_eq.2 ht
      rw [hflag, hend]
      refine ⟨?_, fun result hresult => List.mem_singleton.1 hresult ▸ hpast⟩
      exact List.countP_cons_of_pos hend
  | @token r r' r'' t n all hread ht more ih =>
      obtain ⟨hflag, hpast⟩ := hr.finished_read hfinished hread
      have hend : isEnd (.ok t) = false := beq_eq_false_iff_ne.2 ht
      obtain ⟨hcount, herrors⟩ := ih (hr.read hread) (hflag.trans hend)
      cases all with
      | error e =>
          -- an error drops the tokens before it, and none of them was the end
          exact ⟨hcount, herrors⟩
      | ok ts =>
          refine ⟨?_, List.forall_mem_cons.2 ⟨hpast, herrors⟩⟩
          rw [← hcount]
          exact List.countP_cons_of_neg (by simp [hend])

theorem Within.call_of_not_finished (h : Within source r) (hr : r.finished = false) (call : Call) :
    (r.call call).1.results.countP isEnd = (r.call call).2.finished.toNat ∧
      ∀ result ∈ (r.call call).1.results, isError .endOfInput result = false := by
  cases call with
  | read =>
      obtain ⟨hflag, hpast⟩ := h.finished_read hr (Prod.eta r.read).symm
      simp only [Reader.call, Reply.results, hflag, List.countP_singleton, List.mem_singleton,
        forall_eq]
      refine ⟨?_, hpast⟩
      cases isEnd r.read.1 <;> rfl
  | readAll =>
      obtain ⟨n, -, hreads⟩ := exists_readsOn r
      exact hreads.count_isEnd h hr

theorem Within.count_isEnd_call (h : Within source r) (call : Call) :
    (r.call call).1.results.countP isEnd + r.finished.toNat = (r.call call).2.finished.toNat := by
  cases hfinished : r.finished with
  | true =>
      obtain ⟨hresults, hcall⟩ := h.call_of_finished hfinished call
      rw [hresults, hcall, hfinished]
      rfl
  | false => exact (h.call_of_not_finished hfinished call).1

theorem Within.exists_pastEnd_iff (h : Within source r) (call : Call) :
    (∃ e, .error e ∈ (r.call call).1.results ∧ e.kind = .endOfInput) ↔ r.finished = true := by
  constructor
  · rintro ⟨e, hmem, hkind⟩
    by_contra hnot
    have hpast := (h.call_of_not_finished (Bool.eq_false_iff.2 hnot) call).2 _ hmem
    simp [isError, hkind] at hpast
  · intro hfinished
    rw [(h.call_of_finished hfinished call).1]
    exact ⟨_, List.mem_singleton_self _, rfl⟩

end Calls

section Sessions

variable {source : List Char}

theorem results_cons (r : Reader) (call : Call) (calls : List Call) :
    r.results (call :: calls) = (r.call call).1.results ++ (r.call call).2.results calls := by
  simp only [results, replies, List.flatMap_cons]

theorem Within.count_isEnd_results {r : Reader} (h : Within source r) (calls : List Call) :
    (r.results calls).countP isEnd + r.finished.toNat = (r.after calls).finished.toNat := by
  induction calls generalizing r with
  | nil => exact Nat.zero_add _
  | cons call calls ih =>
      have hcall := h.count_isEnd_call call
      have hlater := ih (h.call call)
      rw [results_cons, List.countP_append, after]
      omega

theorem count_isEnd_session (source : List Char) (calls : List Call) :
    ((ofText source).results calls).countP isEnd = ((ofText source).after calls).finished.toNat :=
  (within_ofText source).count_isEnd_results calls

/-- Each single read of a session passes a character, as long as nothing unrecognized has come and
the end has not been delivered. -/
theorem Within.position_add_count_le {r : Reader} (h : Within source r) (calls : List Call)
    (hfinished : (r.after calls).finished = false)
    (hstray : ∀ result ∈ r.results calls, isError .unrecognized result = false) :
    r.position + calls.count .read ≤ (r.after calls).position := by
  induction calls generalizing r with
  | nil => exact Nat.le_refl _
  | cons call calls ih =>
      have hcount := h.count_isEnd_results (call :: calls)
      have hcall := h.count_isEnd_call call
      rw [hfinished, results_cons, List.countP_append] at hcount
      rw [results_cons] at hstray
      simp only [Bool.toNat_false] at hcount
      -- the flag is never taken back, so it is not set here if it is not set at the end
      have hnot : r.finished = false := Bool.toNat_eq_zero.1 (by omega)
      have hlater := ih (h.call call) hfinished fun result hresult =>
        hstray result (List.mem_append_right _ hresult)
      rw [after]
      cases call with
      | read =>
          obtain ⟨hflag, hpast⟩ := h.finished_read hnot (Prod.eta r.read).symm
          have hnext : (r.call .read).2.finished = false := Bool.toNat_eq_zero.1 (by omega)
          have hlt := h.position_lt_read (Prod.eta r.read).symm (hflag.symm.trans hnext) hpast
            (hstray _ (List.mem_append_left _ (List.mem_singleton_self _)))
          change r.position < (r.call .read).2.position at hlt
          rw [List.count_cons_self]
          omega
      | readAll =>
          have hle := h.position_le_call .readAll
          rw [List.count_cons_of_ne (by decide)]
          omega

theorem exists_stop_of_length_lt (source : List Char) (calls : List Call)
    (hreads : source.length < calls.count .read) :
    ∃ result ∈ (ofText source).results calls,
      isEnd result = true ∨ isError .unrecognized result = true := by
  by_contra! hnone
  have hcount : ((ofText source).results calls).countP isEnd = 0 :=
    List.countP_eq_zero.2 fun result hresult => (hnone result hresult).1
  rw [count_isEnd_session, Bool.toNat_eq_zero] at hcount
  have hstray : ∀ result ∈ (ofText source).results calls, isError .unrecognized result = false :=
    fun result hresult => Bool.eq_false_iff.2 (hnone result hresult).2
  have hle := (within_ofText source).position_add_count_le calls hcount hstray
  have hrest := (within_after source calls).position_add_rest
  omega

end Sessions
end Reader

/-- At any time of a session the end of the input has been delivered at most once, and exactly if it
has been, the next call goes past it: this fails at the end of the source and changes nothing. A
call never goes back, a read that neither ends nor meets an unrecognized character goes on, so that
one of the two comes before there are more reads than characters, and reading on stops. -/
theorem session_converges (s : String) (calls : List Reader.Call) :
    let start := Reader.ofText s.toList
    let r := start.after calls
    let ends := (start.results calls).countP Reader.isEnd
    ends ≤ 1 ∧
      (∀ call, r.position ≤ (r.call call).2.position ∧
        ((∃ e, .error e ∈ (r.call call).1.results ∧ e.kind = .endOfInput) ↔ ends = 1) ∧
        (ends = 1 → (r.call call).2 = r ∧ (r.call call).1.results =
          [.error
            { kind := .endOfInput
              message := "read past end of input"
              line := 1 + s.toList.count '\n'
              column := 1 + (lastLine s.toList).length
              offset := s.utf8ByteSize
              length := 0 }])) ∧
      (∀ result r', r.read = (result, r') → Reader.isEnd result = false →
        Reader.isError .endOfInput result = false → Reader.isError .unrecognized result = false →
          r.position < r'.position) ∧
      (s.length < calls.count .read → ∃ result ∈ start.results calls,
        Reader.isEnd result = true ∨ Reader.isError .unrecognized result = true) ∧
      ∃ n, r.position + n ≤ s.length + 1 ∧ r.ReadsOn n r.readAll.1 r.readAll.2 := by
  intro start r ends
  have hr : Reader.Within s.toList r := Reader.within_after s.toList calls
  have hends : ends = r.finished.toNat := Reader.count_isEnd_session s.toList calls
  have hone : ends = 1 ↔ r.finished = true := by
    rw [hends, Bool.toNat_eq_one]
  refine ⟨by rw [hends]; exact Bool.toNat_le _, ?_, ?_, ?_, ?_⟩
  · intro call
    refine ⟨hr.position_le_call call, (hr.exists_pastEnd_iff call).trans hone.symm, ?_⟩
    intro hdelivered
    obtain ⟨hresults, hcall⟩ := hr.call_of_finished (hone.1 hdelivered) call
    refine ⟨hcall, hresults.trans ?_⟩
    rw [← byteSize_toList, Nat.add_comm 1, Nat.add_comm 1]
    rfl
  · intro result r' hread hend hpast hstray
    exact hr.position_lt_read hread hend hpast hstray
  · intro hreads
    rw [← String.length_toList] at hreads
    exact Reader.exists_stop_of_length_lt s.toList calls hreads
  · obtain ⟨n, hn, hreads⟩ := Reader.exists_readsOn r
    have hrest := hr.position_add_rest
    rw [String.length_toList] at hrest
    exact ⟨n, by omega, hreads⟩

/-- A point without digits after it, a literal left open and then the end, in five reads of four
characters; a call for all tokens after them goes past the end. -/
theorem session_converges_sample :
    let start := Reader.ofText "１.” ".toList
    let calls := List.replicate 5 Reader.Call.read
    (∃ result ∈ start.results calls,
        Reader.isEnd result = true ∨ Reader.isError .unrecognized result = true) ∧
      (start.after calls).readAll.2 = start.after calls ∧
      start.position < start.read.2.position := by
  intro start calls
  obtain ⟨-, hcall, -, hstop, -⟩ := session_converges "１.” " calls
  obtain ⟨-, -, hgo, -, -⟩ := session_converges "１.” " []
  have hends : (start.results calls).countP Reader.isEnd = 1 := by decide +kernel
  refine ⟨hstop (by decide +kernel), ((hcall .readAll).2.2 hends).1, ?_⟩
  have hfirst : Reader.isEnd start.read.1 = false ∧
      Reader.isError .endOfInput start.read.1 = false ∧
      Reader.isError .unrecognized start.read.1 = false := by
    decide +kernel
  exact hgo start.read.1 start.read.2 rfl hfirst.1 hfirst.2.1 hfirst.2.2

end TwinScript
