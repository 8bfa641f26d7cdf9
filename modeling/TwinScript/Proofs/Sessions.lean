import TwinScript.Log

/-!
# Sessions with a reader

A session is any sequence of calls on one reader, also after errors. `Reads` is the session of
single reads that lies behind it: a call for all tokens is a sequence of reads of which the last one
alone, or the tokens alone, are returned. So what holds of all single reads holds of every session.
Nothing is lost from the log: a session logs what all of its single reads log.
-/
namespace TwinScript.Reader
open Log (Event)

/-- Single reads in turn, with their results. -/
inductive Reads : Reader → List (Except LexError Token) → Reader → Prop
  | nil (r : Reader) : Reads r [] r
  | cons {r r' r'' : Reader} {result : Except LexError Token}
      {results : List (Except LexError Token)} (h : r.read = (result, r'))
      (more : Reads r' results r'') : Reads r (result :: results) r''

def Reply.results : Reply → List (Except LexError Token)
  | .token result => [result]
  | .tokens (.ok ts) => ts.map .ok
  | .tokens (.error e) => [.error e]

def results (r : Reader) (calls : List Call) : List (Except LexError Token) :=
  (r.replies calls).flatMap Reply.results

theorem Reads.append {r r' r'' : Reader} {as bs : List (Except LexError Token)}
    (h : Reads r as r') (h' : Reads r' bs r'') : Reads r (as ++ bs) r'' := by
  induction h with
  | nil => exact h'
  | cons hread more ih => exact .cons hread (ih h')

theorem Reads.replies_append {r r' : Reader} {results : List (Except LexError Token)}
    (h : Reads r results r') (calls : List Call) :
    r.replies (List.replicate results.length .read ++ calls) =
      results.map .token ++ r'.replies calls := by
  induction h with
  | nil => rfl
  | cons hread more ih =>
      rw [List.length_cons, List.replicate_succ, List.cons_append, replies, List.map_cons,
        List.cons_append, ← ih]
      simp only [call, hread]

theorem Reads.events_append {r r' : Reader} {results : List (Except LexError Token)}
    (h : Reads r results r') (calls : List Call) :
    r.events (List.replicate results.length .read ++ calls) =
      results.flatMap Event.ofRead ++ r'.events calls := by
  induction h with
  | nil => rfl
  | cons hread more ih =>
      rw [List.length_cons, List.replicate_succ, List.cons_append, events, List.flatMap_cons,
        List.append_assoc, ← ih]
      simp only [logged, call, hread]

def Run.results (run : Run) : List (Except LexError Token) :=
  run.tokens.map .ok ++ run.error.toList.map .error

theorem reads_run (r : Reader) : Reads r r.run.results r.run.reader := by
  rcases hread : r.read with ⟨e | t, after⟩
  · rw [run_of_error hread]
    exact .cons hread (.nil after)
  · by_cases ht : t.kind = .endOfInput
    · rw [run_of_endOfInput hread ht]
      exact .cons hread (.nil after)
    · have hshorter := read_ok_shorter hread ht
      rw [run_of_token hread ht]
      exact .cons hread (reads_run after)
termination_by r.cursor.rest.length

theorem trail_eq (r : Reader) : r.trail = r.run.results.flatMap Event.ofRead := by
  rw [trail]
  split
  · next e after hread =>
    rw [run_of_error hread]
    rfl
  · next t after hread =>
    split
    · next ht =>
      rw [run_of_endOfInput hread ht]
      exact (List.flatMap_singleton _ _).symm
    · next ht =>
      have hshorter := read_ok_shorter hread ht
      rw [run_of_token hread ht, trail_eq after]
      rfl
termination_by r.cursor.rest.length

theorem reads_call (r : Reader) (call : Call) :
    ∃ results, Reads r results (r.call call).2 ∧ (r.call call).1.results.Sublist results ∧
      r.logged call = results.flatMap Event.ofRead := by
  cases call with
  | read =>
      exact ⟨[r.read.1], .cons rfl (.nil _), List.Sublist.refl _,
        (List.flatMap_singleton _ _).symm⟩
  | readAll =>
      have hrun := reads_run r
      have htrail := trail_eq r
      cases herror : r.run.error with
      | none =>
          have hcall : r.call .readAll = (.tokens (.ok r.run.tokens), r.run.reader) := by
            simp only [call, readAll_eq_run, herror]
          rw [Run.results, herror] at hrun htrail
          rw [hcall]
          exact ⟨_, hrun, List.sublist_append_left _ _, htrail⟩
      | some e =>
          have hcall : r.call .readAll = (.tokens (.error e), r.run.reader) := by
            simp only [call, readAll_eq_run, herror]
          rw [Run.results, herror] at hrun htrail
          rw [hcall]
          exact ⟨_, hrun, List.sublist_append_right _ _, htrail⟩

/-- Behind every session there are single reads that return what it returns, and perhaps more, and
that log what it logs. -/
theorem reads_session (r : Reader) (calls : List Call) :
    ∃ results, Reads r results (r.after calls) ∧ (r.results calls).Sublist results ∧
      r.events calls = results.flatMap Event.ofRead := by
  induction calls generalizing r with
  | nil => exact ⟨[], .nil r, List.Sublist.refl [], rfl⟩
  | cons call calls ih =>
      obtain ⟨first, hfirst, hsub, hlogged⟩ := reads_call r call
      obtain ⟨later, hlater, hsub', hevents⟩ := ih (r.call call).2
      refine ⟨first ++ later, hfirst.append hlater, hsub.append hsub', ?_⟩
      rw [events, hlogged, hevents, List.flatMap_append]

end TwinScript.Reader
