import TwinScript.Failure
import TwinScript.Transcript

/-!
# Token listings

The tokens of a source are listed one to a line, up to the end of the input or the first error.
Lines already written stay written when an error follows.
-/
namespace TwinScript

inductive Format
  | plain
  | json
  deriving DecidableEq, Repr

def Format.line : Format → Token → String
  | plain, t => Colour.brightYellow.paint t.display
  | json, t => t.jsonLine

/-- What listing a source writes, and the error that cut it short. -/
structure Listing where
  entries : Transcript
  error : Option LexError
  deriving DecidableEq, Repr

namespace Listing

/-- A token read, with what the read logs, and written. -/
def ofToken (format : Format) (t : Token) : Transcript :=
  (Log.Event.ofRead (.ok t)).map .event ++ [.out (format.line t)]

/-- Reads on and writes each token as soon as it is read, when `count` tokens have been written. The
end is an event of its own. -/
def reading (format : Format) (count : Nat) (r : Reader) : Listing :=
  match h : r.read with
  | (.error e, _) => ⟨(Log.Event.ofRead (.error e)).map .event, some e⟩
  | (.ok t, after) =>
    if ht : t.kind = .endOfInput then
      ⟨ofToken format t ++ [.event (.finished (count + 1))], none⟩
    else
      have := Reader.read_ok_shorter h ht
      let more := reading format (count + 1) after
      ⟨ofToken format t ++ more.entries, more.error⟩
termination_by r.cursor.rest.length

/-- A listing is a run whose tokens are written in order. -/
theorem reading_eq_run (format : Format) (count : Nat) (r : Reader) :
    reading format count r =
      ⟨r.run.tokens.flatMap (ofToken format) ++
          [.event (r.run.error.elim (.finished (count + r.run.tokens.length)) .error)],
        r.run.error⟩ := by
  rw [reading]
  split
  · next e after hread =>
    rw [Reader.run_of_error hread]
    rfl
  · next t after hread =>
    split
    · next ht =>
      rw [Reader.run_of_endOfInput hread ht, List.flatMap_singleton]
      rfl
    · next ht =>
      have hshorter := Reader.read_ok_shorter hread ht
      have hcount : count + 1 + after.run.tokens.length =
          count + (t :: after.run.tokens).length := by
        rw [List.length_cons]
        omega
      rw [reading_eq_run, Reader.run_of_token hread ht, hcount, List.flatMap_cons,
        List.append_assoc]
termination_by r.cursor.rest.length

def ofSource (format : Format) (source : String) : Listing :=
  reading format 0 (Reader.ofText source.toList)

def withNotice (l : Listing) (origin : String) : Transcript :=
  l.entries ++ (l.error.map fun e => .err (e.notice origin)).toList

end Listing
end TwinScript
