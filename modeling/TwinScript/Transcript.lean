import TwinScript.Log

/-!
# Transcripts

A run of the program is the sequence of what it writes: lines to the standard output, lines to the
standard error, log events, and what a library notes in the log. Of these last two the standard
error gets what the filter admits.
-/
namespace TwinScript

inductive Entry
  | out (line : String)
  | err (line : String)
  | event (e : Log.Event)
  | note (r : Log.Record)
  deriving DecidableEq, Repr

abbrev Transcript := List Entry

namespace Entry

def stdout? : Entry → Option String
  | out line => some line
  | err _ => none
  | event _ => none
  | note _ => none

/-- The line that an entry adds to the standard error under a filter, where the log bears the given
time. -/
def stderr? (filter : Log.Filter) (time : String) : Entry → Option String
  | out _ => none
  | err line => some line
  | event e => if filter.admits e.record then some (e.line time) else none
  | note r => if filter.admits r then some (r.line time) else none

end Entry

namespace Transcript

def unlines : List String → String
  | [] => ""
  | line :: lines => line ++ "\n" ++ unlines lines

def stdout (t : Transcript) : String := unlines (t.filterMap Entry.stdout?)

def stderr (filter : Log.Filter) (time : String) (t : Transcript) : String :=
  unlines (t.filterMap (Entry.stderr? filter time))

theorem unlines_append (as bs : List String) : unlines (as ++ bs) = unlines as ++ unlines bs := by
  induction as with
  | nil => simp [unlines]
  | cons a as ih => simp [unlines, ih, String.append_assoc]

theorem stdout_append (s t : Transcript) : stdout (s ++ t) = s.stdout ++ t.stdout := by
  simp [stdout, unlines_append]

theorem stderr_append (filter : Log.Filter) (time : String) (s t : Transcript) :
    stderr filter time (s ++ t) = s.stderr filter time ++ t.stderr filter time := by
  simp [stderr, unlines_append]

end Transcript
end TwinScript
