import TwinScript.Paint
import TwinScript.Reader

/-!
# The log

Reading leaves a trail of events: each token, each error, and the end of a complete scan. A read
emits its event whoever asks for it, so `Reader.events` gives what any calls on a reader log. An
event is shown as a record, and so is what a library notes. Which records are shown is settled once
for a run, by a filter, and what a directive asks of the filter is for its reader to say.
-/
namespace TwinScript.Log

inductive Level
  | error
  | warn
  | info
  | debug
  | trace
  deriving DecidableEq, Repr

namespace Level

def detail : Level → Nat
  | error => 1
  | warn => 2
  | info => 3
  | debug => 4
  | trace => 5

/-- All names take the same room. -/
def name : Level → String
  | error => "ERROR"
  | warn => " WARN"
  | info => " INFO"
  | debug => "DEBUG"
  | trace => "TRACE"

def code : Level → Nat
  | error => 31
  | warn => 33
  | info => 32
  | debug => 34
  | trace => 35

def label (level : Level) : String := rendition level.code ++ level.name ++ rendition 0

end Level

/-- What a line of the log says, but for the time. -/
structure Record where
  level : Level
  target : String
  message : String
  fields : List (String × String)
  deriving DecidableEq, Repr

def dimmed (text : String) : String := rendition 2 ++ text ++ rendition 0

def field (name value : String) : String :=
  rendition 3 ++ name ++ rendition 0 ++ dimmed "=" ++ value

def Record.line (time : String) (r : Record) : String :=
  dimmed time ++ " " ++ r.level.label ++ " " ++ dimmed r.target ++ dimmed ":" ++ " "
    ++ " ".intercalate (r.message :: r.fields.map fun (name, value) => field name value)

inductive Event
  | token (t : Token)
  | error (e : LexError)
  | finished (tokens : Nat)
  deriving DecidableEq, Repr

namespace Event

/-- What a read logs. The end of the input is delivered without a trace. -/
def ofRead : Except LexError Token → List Event
  | .ok t => if t.kind = .endOfInput then [] else [token t]
  | .error e => [error e]

def level : Event → Level
  | token _ => .trace
  | error _ => .debug
  | finished _ => .debug

def target : Event → String
  | token _ => "gomi::lexer::scanner"
  | error _ => "gomi::lexer::scanner"
  | finished _ => "gomi::output"

def message : Event → String
  | token _ => "token"
  | error e => e.message
  | finished _ => "scan finished"

def fields : Event → List (String × String)
  | token t =>
    [("kind", t.kind.name), ("value", t.value), ("line", t.line.repr), ("column", t.column.repr)]
  | error e => [("kind", e.kind.name), ("line", e.line.repr), ("column", e.column.repr)]
  | finished tokens => [("tokens", tokens.repr)]

def record (e : Event) : Record := ⟨e.level, e.target, e.message, e.fields⟩

def line (time : String) (e : Event) : String := e.record.line time

end Event

structure Filter where
  admits : Record → Bool

def Filter.silent : Filter := ⟨fun _ => false⟩

/-- What a directive comes to: the filter it asks for, and a line for each part of it that is not
understood. -/
structure Setting where
  filter : Filter
  complaints : List String

namespace Setting

def off : Setting := ⟨.silent, []⟩

/-- A verbose run shows its debugging events whatever the directive; without a directive there is no
log. -/
def choose (read : String → Setting) (verbose : Bool) (directive : Option String) : Setting :=
  if verbose then read "gomi=debug" else (directive.map read).getD off

end Setting
end Log

namespace Reader
open Log (Event)

/-- What reading on logs, up to the first error or the end of the input. -/
def trail (r : Reader) : List Event :=
  match h : r.read with
  | (.error e, _) => Event.ofRead (.error e)
  | (.ok t, after) =>
    if ht : t.kind = .endOfInput then Event.ofRead (.ok t)
    else
      have := read_ok_shorter h ht
      Event.ofRead (.ok t) ++ after.trail
termination_by r.cursor.rest.length

def logged (r : Reader) : Call → List Event
  | .read => Event.ofRead r.read.1
  | .readAll => r.trail

def events (r : Reader) : List Call → List Event
  | [] => []
  | c :: cs => r.logged c ++ (r.call c).2.events cs

end Reader
end TwinScript
