import TwinScript.Gap
import TwinScript.LexError
import TwinScript.Token

/-!
# Readers

A reader reads a text one token at a time and keeps its place, also after an error. The end of the
input is a token too: it is delivered once, and asking for more is an error. `Reader.run` reads on
up to the first error or the end; it stops because every other token takes at least one character
(`read_ok_shorter`). `Reader.readAll` collects the tokens in a loop of its own and drops them at an
error (`readAll_eq_run`).
-/
namespace TwinScript

structure Reader where
  cursor : Cursor
  /-- Whether the end of the input has been delivered. -/
  finished : Bool
  deriving DecidableEq, Repr

def Cursor.skipGap (c : Cursor) : Cursor := c.skip (Gap.leading false c.rest).length

theorem Cursor.length_rest_skipGap_le (c : Cursor) : c.skipGap.rest.length ≤ c.rest.length := by
  simp [skipGap, rest_skip]

def Lexeme.token (lexeme : Lexeme) (start finish : Mark) : Token :=
  { kind := lexeme.kind
    value := String.ofList lexeme.value
    line := start.line
    column := start.column
    span := ⟨start.offset, finish.offset⟩ }

def Token.endOfInput (place : Mark) : Token :=
  { kind := .endOfInput
    value := "EOF"
    line := place.line
    column := place.column
    span := ⟨place.offset, place.offset⟩ }

namespace Reader

def ofText (text : List Char) : Reader := ⟨.ofText text, false⟩

/-- The next token or error, and the reader after it. -/
def read (r : Reader) : Except LexError Token × Reader :=
  let start := r.cursor.skipGap
  match start.rest with
  | [] =>
    if r.finished then (.error (.pastEnd start.mark), ⟨start, true⟩)
    else (.ok (.endOfInput start.mark), ⟨start, true⟩)
  | c :: after =>
    match Lexeme.first c after with
    | .ok lexeme =>
      let finish := start.skip lexeme.text.length
      (.ok (lexeme.token start.mark finish.mark), ⟨finish, r.finished⟩)
    | .error fault =>
      (.error (.ofFault fault start.mark), ⟨start.skip fault.passed.length, r.finished⟩)

theorem read_ok_shorter {r r' : Reader} {t : Token} (h : r.read = (.ok t, r'))
    (ht : t.kind ≠ .endOfInput) : r'.cursor.rest.length < r.cursor.rest.length := by
  have hgap := r.cursor.length_rest_skipGap_le
  unfold read at h
  dsimp only at h
  split at h
  · split at h
    · cases h
    · cases h
      exact absurd rfl ht
  · next c after hrest =>
    split at h
    · next lexeme hlexeme =>
      cases h
      obtain ⟨hne, -⟩ := Lexeme.exists_append_of_first hlexeme
      have hpos := List.length_pos_iff.2 hne
      simp only [Cursor.rest_skip, hrest, List.length_drop, List.length_cons] at hgap ⊢
      omega
    · cases h

/-- The tokens up to the first error or the end of the input, whichever comes first. -/
structure Run where
  tokens : List Token
  error : Option LexError
  reader : Reader
  deriving DecidableEq, Repr

/-- Reads up to the first error or the end of the input, which is then the last token. -/
def run (r : Reader) : Run :=
  match h : r.read with
  | (.error e, after) => ⟨[], some e, after⟩
  | (.ok t, after) =>
    if ht : t.kind = .endOfInput then ⟨[t], none, after⟩
    else
      have := read_ok_shorter h ht
      let more := after.run
      { more with tokens := t :: more.tokens }
termination_by r.cursor.rest.length

theorem run_of_error {r after : Reader} {e : LexError} (h : r.read = (.error e, after)) :
    r.run = ⟨[], some e, after⟩ := by
  rw [run]
  split <;> simp_all

theorem run_of_endOfInput {r after : Reader} {t : Token} (h : r.read = (.ok t, after))
    (ht : t.kind = .endOfInput) : r.run = ⟨[t], none, after⟩ := by
  rw [run]
  split <;> simp_all

theorem run_of_token {r after : Reader} {t : Token} (h : r.read = (.ok t, after))
    (ht : t.kind ≠ .endOfInput) : r.run = { after.run with tokens := t :: after.run.tokens } := by
  rw [run]
  split <;> simp_all

/-- Reads on behind the given tokens, the latest first, up to the end of the input. An error drops
them. -/
def collect (tokens : List Token) (r : Reader) : Except LexError (List Token) × Reader :=
  match h : r.read with
  | (.error e, after) => (.error e, after)
  | (.ok t, after) =>
    if ht : t.kind = .endOfInput then (.ok (t :: tokens).reverse, after)
    else
      have := read_ok_shorter h ht
      after.collect (t :: tokens)
termination_by r.cursor.rest.length

def readAll (r : Reader) : Except LexError (List Token) × Reader := r.collect []

theorem collect_eq_run (tokens : List Token) (r : Reader) :
    r.collect tokens =
      match r.run.error with
      | none => (.ok (tokens.reverse ++ r.run.tokens), r.run.reader)
      | some e => (.error e, r.run.reader) := by
  rw [collect]
  split
  · next e after hread => rw [run_of_error hread]
  · next t after hread =>
    split
    · next ht => rw [run_of_endOfInput hread ht, List.reverse_cons]
    · next ht =>
      have hshorter := read_ok_shorter hread ht
      rw [collect_eq_run, run_of_token hread ht, List.reverse_cons, List.append_assoc,
        List.singleton_append]
termination_by r.cursor.rest.length

theorem readAll_eq_run (r : Reader) :
    r.readAll =
      match r.run.error with
      | none => (.ok r.run.tokens, r.run.reader)
      | some e => (.error e, r.run.reader) :=
  collect_eq_run [] r

/-- What a reader can be asked to do. -/
inductive Call
  | read
  | readAll
  deriving DecidableEq, Repr

inductive Reply
  | token (result : Except LexError Token)
  | tokens (result : Except LexError (List Token))

def call (r : Reader) : Call → Reply × Reader
  | .read =>
    let (result, after) := r.read
    (.token result, after)
  | .readAll =>
    let (result, after) := r.readAll
    (.tokens result, after)

def replies (r : Reader) : List Call → List Reply
  | [] => []
  | c :: cs =>
    let (reply, after) := r.call c
    reply :: after.replies cs

def after (r : Reader) : List Call → Reader
  | [] => r
  | c :: cs => (r.call c).2.after cs

end Reader

/-- The tokens of a source text, the end of the input included, or its first error. -/
def lex (source : String) : Except LexError (List Token) :=
  (Reader.ofText source.toList).readAll.1

end TwinScript
