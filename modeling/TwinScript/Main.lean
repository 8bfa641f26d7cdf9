import Std.Time
import TwinScript.Highlight
import TwinScript.Program

/-!
# The command

The program on real files and a real terminal. All decisions are those of `Program` and `Shell`;
what stands here reads what they need and writes what they say.
-/
namespace TwinScript.Terminal

def timeText : IO String := do
  let now ← Std.Time.Timestamp.now
  let utc := Std.Time.PlainDateTime.ofWallTime (.ofTimestamp now .zero)
  return utc.format "uuuu-MM-dd'T'HH:mm:ss.SSSSSS'Z'"

def write (filter : Log.Filter) : Entry → IO Unit
  | .out line => IO.println line
  | .err line => IO.eprintln line
  | .event e => do if filter.admits e.record then IO.eprintln (e.line (← timeText))
  | .note r => do if filter.admits r then IO.eprintln (r.line (← timeText))

def writeAll (filter : Log.Filter) (transcript : Transcript) : IO Unit :=
  transcript.forM (write filter)

def faultOf : IO.Error → FileFault
  | .noFileOrDirectory .. => .notFound
  | .inappropriateType _ code _ => if code = 21 then .isDirectory else .notDirectory
  | .invalidArgument _ 36 _ => .nameTooLong
  | e => .other e.toString

def fetch (name : String) : IO FileStore := do
  if name.toList.contains '\x00' then return fun _ => .error .nulInName
  try
    let bytes ← IO.FS.readBinFile name
    return fun _ => .ok bytes.toList
  catch e => return fun _ => .error (faultOf e)

def fetchFor (bytes : List UInt8) : IO FileStore :=
  match (Text.ofBytes? bytes).map Shell.Command.ofLine with
  | some (.load path) => fetch path
  | _ => return fun _ => .error .notFound

/-- Reads bytes up to and including a newline, or to the end of the input, after those already read
on the same line. -/
partial def readLine (input : IO.FS.Stream) (line : List UInt8) : IO (List UInt8) := do
  match (← input.read 1).toList with
  | [] => return line.reverse
  | byte :: _ => if byte = 10 then return (byte :: line).reverse else readLine input (byte :: line)

partial def converse (filter : Log.Filter) (input : IO.FS.Stream) : IO Unit := do
  if ← input.isTty then IO.print (Highlight.prompt "> ")
  match Shell.lines (← readLine input []) with
  | [] => return
  | bytes :: _ =>
    let (transcript, goesOn) := Shell.turn (← fetchFor bytes) bytes
    writeAll filter transcript
    if goesOn then converse filter input

def shell (filter : Log.Filter) : IO Unit := do
  writeAll filter Shell.welcome
  try converse filter (← IO.getStdin)
  catch e => write filter (Shell.trouble e.toString)
  writeAll filter Shell.farewell

def run (arguments : List String) : IO UInt32 := do
  let plan := Program.Plan.ofArguments arguments (← IO.getEnv "RUST_LOG")
  let filter := plan.setting.filter
  plan.setting.complaints.forM IO.eprintln
  match plan.job with
  | .shell =>
    shell filter
    return 0
  | job =>
    let store ← match job with
      | .scanFile name => fetch name
      | _ => pure fun _ => .error .notFound
    let (code, transcript) := Program.perform plan.format {} store [] job
    writeAll filter transcript
    return code.toUInt32

end TwinScript.Terminal

def main (arguments : List String) : IO UInt32 := TwinScript.Terminal.run arguments
