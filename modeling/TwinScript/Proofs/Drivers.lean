import TwinScript.Proofs.Printing
import TwinScript.Proofs.Sessions

/-!
# One stream of tokens

Collecting all tokens, reading on after some single reads, and listing tokens as they are read are
loops of their own: one drops its tokens at an error, one starts in the middle, one has already
written them. `Reader.Yields` says what single reads give, and each loop gives the same. Each leaves
the same events in the log too, and a listing that is complete adds that it is.
-/
namespace TwinScript
open Log (Event)

namespace Reader

/-- Single reads in turn return these tokens, up to the end of the input or up to the error that
comes first. -/
inductive Yields : Reader → List Token → Option LexError → Prop
  | error {r r' : Reader} {e : LexError} (h : r.read = (.error e, r')) : Yields r [] (some e)
  | finish {r r' : Reader} {t : Token} (h : r.read = (.ok t, r')) (ht : t.kind = .endOfInput) :
      Yields r [t] none
  | token {r r' : Reader} {t : Token} {tokens : List Token} {error : Option LexError}
      (h : r.read = (.ok t, r')) (ht : t.kind ≠ .endOfInput) (more : Yields r' tokens error) :
      Yields r (t :: tokens) error

/-- All of the tokens if no error has cut them off, else the error alone. -/
def outcome (tokens : List Token) : Option LexError → Except LexError (List Token)
  | none => .ok tokens
  | some e => .error e

theorem yields_run (r : Reader) : Yields r r.run.tokens r.run.error := by
  rcases hread : r.read with ⟨e | t, after⟩
  · rw [run_of_error hread]
    exact .error hread
  · by_cases ht : t.kind = .endOfInput
    · rw [run_of_endOfInput hread ht]
      exact .finish hread ht
    · have hshorter := read_ok_shorter hread ht
      rw [run_of_token hread ht]
      exact .token hread ht (yields_run after)
termination_by r.cursor.rest.length

variable {r : Reader} {tokens : List Token} {error : Option LexError}

theorem Yields.run_eq (h : Yields r tokens error) :
    r.run.tokens = tokens ∧ r.run.error = error := by
  induction h with
  | error hread =>
      rw [run_of_error hread]
      exact ⟨rfl, rfl⟩
  | finish hread ht =>
      rw [run_of_endOfInput hread ht]
      exact ⟨rfl, rfl⟩
  | token hread ht more ih =>
      rw [run_of_token hread ht]
      exact ⟨congrArg (_ :: ·) ih.1, ih.2⟩

theorem Yields.readAll_eq (h : Yields r tokens error) : r.readAll.1 = outcome tokens error := by
  obtain ⟨htokens, herror⟩ := h.run_eq
  rw [readAll_eq_run, herror, htokens]
  cases error <;> rfl

theorem Yields.error_eq_none_iff (h : Yields r tokens error) :
    error = none ↔ ∃ t, tokens.getLast? = some t ∧ t.kind = .endOfInput := by
  induction h with
  | error hread => simp
  | finish hread ht => simp [ht]
  | @token r r' t tokens error hread ht more ih =>
      rw [ih]
      cases tokens with
      | nil =>
          -- reading on from here met an error at once, and the token before it is not the end
          simp [ht]
      | cons u tokens => rw [List.getLast?_cons_cons]

/-- Behind some single reads, as many as there are tokens before the last result, the rest is
left. -/
theorem Yields.reads_take (h : Yields r tokens error) {k : Nat}
    (hk : k < tokens.length ∨ k = tokens.length ∧ error ≠ none) :
    ∃ r', Reads r ((tokens.take k).map .ok) r' ∧ Yields r' (tokens.drop k) error := by
  induction h generalizing k with
  | @error r r' e hread =>
      obtain rfl : k = 0 := by
        rw [List.length_nil] at hk
        omega
      exact ⟨r, .nil r, .error hread⟩
  | @finish r r' t hread ht =>
      obtain rfl : k = 0 := by
        rcases hk with hlt | ⟨-, hcut⟩
        · rw [List.length_singleton] at hlt
          omega
        · exact absurd rfl hcut
      exact ⟨r, .nil r, .finish hread ht⟩
  | @token r r' t tokens error hread ht more ih =>
      cases k with
      | zero => exact ⟨r, .nil r, .token hread ht more⟩
      | succ k =>
          have hk' : k < tokens.length ∨ k = tokens.length ∧ error ≠ none := by
            rw [List.length_cons] at hk
            exact hk.imp Nat.lt_of_succ_lt_succ fun hlast => ⟨Nat.succ.inj hlast.1, hlast.2⟩
          obtain ⟨r'', hreads, hyields⟩ := ih hk'
          exact ⟨r'', .cons hread hreads, hyields⟩

theorem length_take_of_left {k : Nat}
    (hk : k < tokens.length ∨ k = tokens.length ∧ error ≠ none) : (tokens.take k).length = k := by
  rw [List.length_take]
  omega

theorem Yields.replies_eq (h : Yields r tokens error) {k : Nat}
    (hk : k < tokens.length ∨ k = tokens.length ∧ error ≠ none) :
    r.replies (List.replicate k .read ++ [.readAll]) =
      (tokens.take k).map (fun t => .token (.ok t)) ++
        [.tokens (outcome (tokens.drop k) error)] := by
  obtain ⟨r', hreads, hyields⟩ := h.reads_take hk
  have hreplies := hreads.replies_append [.readAll]
  rw [List.length_map, length_take_of_left hk, List.map_map] at hreplies
  rw [hreplies, ← hyields.readAll_eq]
  rfl

def logOf (tokens : List Token) (error : Option LexError) : List Event :=
  (tokens.filter (·.kind ≠ .endOfInput)).map .token ++ error.toList.map .error

theorem flatMap_ofRead (tokens : List Token) :
    (tokens.map Except.ok).flatMap Event.ofRead =
      (tokens.filter (·.kind ≠ .endOfInput)).map .token := by
  induction tokens with
  | nil => rfl
  | cons t tokens ih =>
      rw [List.map_cons, List.flatMap_cons, ih]
      by_cases ht : t.kind = .endOfInput
      · simp [Event.ofRead, ht]
      · simp [Event.ofRead, ht]

theorem Yields.trail_eq (h : Yields r tokens error) : r.trail = logOf tokens error := by
  obtain ⟨htokens, herror⟩ := h.run_eq
  rw [Reader.trail_eq, Run.results, htokens, herror, List.flatMap_append, flatMap_ofRead, logOf]
  cases error <;> rfl

theorem Yields.events_eq (h : Yields r tokens error) {k : Nat}
    (hk : k < tokens.length ∨ k = tokens.length ∧ error ≠ none) :
    r.events (List.replicate k .read ++ [.readAll]) = logOf tokens error := by
  obtain ⟨r', hreads, hyields⟩ := h.reads_take hk
  have hevents := hreads.events_append [.readAll]
  rw [List.length_map, length_take_of_left hk, flatMap_ofRead] at hevents
  have hall : r'.events [.readAll] = logOf (tokens.drop k) error :=
    (List.append_nil _).trans hyields.trail_eq
  rw [hevents, hall, logOf, logOf, ← List.append_assoc, ← List.map_append, ← List.filter_append,
    List.take_append_drop]

end Reader

def Transcript.events (t : Transcript) : List Event :=
  t.filterMap fun
    | .event e => some e
    | _ => none

theorem Transcript.events_append (t u : Transcript) : events (t ++ u) = events t ++ events u :=
  List.filterMap_append

theorem Transcript.events_map_event (events : List Event) :
    Transcript.events (events.map .event) = events := by
  induction events with
  | nil => rfl
  | cons e events ih => exact congrArg (e :: ·) ih

namespace Listing

/-- What a listing adds to the log of its reads. -/
def closing (tokens : List Token) (error : Option LexError) : List Event :=
  if error.isNone then [.finished tokens.length] else []

theorem events_flatMap_ofToken (format : Format) (tokens : List Token) :
    Transcript.events (tokens.flatMap (ofToken format)) =
      (tokens.map Except.ok).flatMap Event.ofRead := by
  induction tokens with
  | nil => rfl
  | cons t tokens ih =>
      rw [List.flatMap_cons, Transcript.events_append, ih, ofToken, Transcript.events_append,
        Transcript.events_map_event, List.map_cons, List.flatMap_cons]
      exact congrArg (· ++ _) (List.append_nil _)

theorem events_ofSource {s : String} {tokens : List Token} {error : Option LexError}
    (h : (Reader.ofText s.toList).Yields tokens error) (format : Format) :
    (ofSource format s).entries.events = Reader.logOf tokens error ++ closing tokens error := by
  obtain ⟨htokens, herror⟩ := h.run_eq
  rw [ofSource, reading_eq_run, htokens, herror, Nat.zero_add, Transcript.events_append,
    events_flatMap_ofToken, Reader.flatMap_ofRead, Reader.logOf, List.append_assoc]
  cases error <;> rfl

end Listing

/-- Single reads of a text give one stream of tokens, and every other way to read it sees the same
stream: all tokens at once, all tokens after some single reads, and a listing in either format,
which writes the tokens also when it then fails. -/
theorem drivers_agree (s : String) :
    (∃ tokens error, (Reader.ofText s.toList).Yields tokens error) ∧
      ∀ tokens error, (Reader.ofText s.toList).Yields tokens error →
        lex s = Reader.outcome tokens error ∧
        tokenize s = (Reader.outcome tokens error).mapError .lex ∧
        (∀ k, k < tokens.length ∨ k = tokens.length ∧ error ≠ none →
          (Reader.ofText s.toList).replies (List.replicate k .read ++ [.readAll]) =
            (tokens.take k).map (fun t => .token (.ok t)) ++
              [.tokens (Reader.outcome (tokens.drop k) error)]) ∧
        ∀ format : Format,
          (Listing.ofSource format s).entries.stdout =
            Transcript.unlines (tokens.map format.line) ∧
          (Listing.ofSource format s).error = error ∧
          (error = none ↔ ∃ t, tokens.getLast? = some t ∧ t.kind = .endOfInput) := by
  refine ⟨⟨_, _, Reader.yields_run _⟩, ?_⟩
  intro tokens error h
  obtain ⟨htokens, herror⟩ := h.run_eq
  have hlex : lex s = Reader.outcome tokens error := h.readAll_eq
  refine ⟨hlex, by rw [tokenize, hlex], fun k hk => h.replies_eq hk, fun format => ?_⟩
  refine ⟨?_, ?_, h.error_eq_none_iff⟩
  · rw [← htokens, ← Listing.printed_ofSource]
    rfl
  · rw [Listing.error_ofSource, ← herror]

/-- A word and a sign before a number that ends in a point: listed in both formats, and read on
after both tokens. -/
theorem drivers_agree_sample :
    let start := Reader.ofText "宣言＝ １.".toList
    let tokens : List Token := [⟨.letWord, "宣言", 1, 1, ⟨0, 6⟩⟩, ⟨.equals, "＝", 1, 3, ⟨6, 9⟩⟩]
    let e : LexError :=
      ⟨.malformedFloat, "expected a digit after the decimal point", 1, 6, 13, 1⟩
    start.Yields tokens (some e) ∧ tokenize "宣言＝ １." = .error (.lex e) ∧
      start.replies [.read, .read, .readAll] =
        [.token (.ok tokens[0]), .token (.ok tokens[1]), .tokens (.error e)] ∧
      (Listing.ofSource .json "宣言＝ １.").entries.stdout =
        Transcript.unlines (tokens.map Token.jsonLine) ∧
      (Listing.ofSource .plain "宣言＝ １.").error = some e := by
  intro start tokens e
  have hrun : start.run.tokens = tokens ∧ start.run.error = some e := by decide +kernel
  have hyields : start.Yields tokens (some e) := by
    rw [← hrun.1, ← hrun.2]
    exact start.yields_run
  obtain ⟨-, htokenize, hreplies, hlisting⟩ := (drivers_agree "宣言＝ １.").2 _ _ hyields
  refine ⟨hyields, htokenize, hreplies 2 (by decide), (hlisting .json).1, (hlisting .plain).2.1⟩

/-- All ways to read a text log the same: its tokens but for the end of the input, and the error if
there is one. A listing that is complete then logs how many lines it has. -/
theorem drivers_log_alike {s : String} {tokens : List Token} {error : Option LexError}
    (h : (Reader.ofText s.toList).Yields tokens error) :
    (Reader.ofText s.toList).events [.readAll] = Reader.logOf tokens error ∧
      (∀ k, k < tokens.length ∨ k = tokens.length ∧ error ≠ none →
        (Reader.ofText s.toList).events (List.replicate k .read ++ [.readAll]) =
          Reader.logOf tokens error) ∧
      ∀ format : Format, (Listing.ofSource format s).entries.events =
        Reader.logOf tokens error ++ Listing.closing tokens error := by
  refine ⟨?_, fun k hk => h.events_eq hk, Listing.events_ofSource h⟩
  exact (List.append_nil _).trans h.trail_eq

end TwinScript
