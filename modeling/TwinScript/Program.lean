import TwinScript.Log.Directive
import TwinScript.Options
import TwinScript.Shell

/-!
# The program

A run is a function of its arguments, its input, the files it can reach and the log directive. It
shows help or the version, lists the tokens of one source, or starts the shell. How a directive is
read and what the editor of the shell does are parameters, since both are left to libraries.
-/
namespace TwinScript

/-- All that a run depends on. -/
structure Invocation where
  arguments : List String
  input : List UInt8
  store : FileStore
  directive : Option String

structure Libraries where
  readDirective : String → Log.Setting := Log.Directive.read
  editor : Shell.Editor := {}

/-- What a run amounts to: its exit code, all it writes, and the filter on its log. -/
structure Outcome where
  code : Nat
  transcript : Transcript
  filter : Log.Filter

namespace Program

def usageLine : String := "Usage: gomi [OPTIONS] [FILE]"

def helpLines : List String :=
  ["Token scanner for the bilingual gomi language",
    "",
    usageLine,
    "",
    "Arguments:",
    "  [FILE]  Path to a source file to scan",
    "",
    "Options:",
    "      --eval <EVAL>  Scan inline source",
    "      --demo         Scan the built-in bilingual sample",
    "      --json         Print tokens as JSON lines",
    "  -v, --verbose      Log scanner activity to stderr",
    "      --version      Print version and exit",
    "  -h, --help         Print help"]

def versionLine : String :=
  Colour.brightCyan.paintBold "gomi" ++ " " ++ Colour.brightBlack.paint Shell.version

/-- The sample that a demonstration scans, with both scripts in it. -/
def demoSource : String := Transcript.unlines
  ["",
    "# gomi demo",
    "モジュール 例",
    "import 'io'",
    "",
    "宣言 名前 ＝ ”ゴミ箱”",
    "let count = 10",
    "定数 比率 ＝ ３．１４",
    "",
    "func add(a, b) \x7b a + b \x7d",
    "関数 足す（甲、乙）｛ 甲 ＋ 乙 ｝",
    "",
    "もし count >= 5 && 本当 ｛ count = count - 1 ｝",
    "while !無 \x7b [1, 2.5]; \x7d"]

inductive Job
  | explainUsage
  | showHelp
  | showVersion
  | scan (origin source : String)
  | scanFile (name : String)
  | shell
  deriving DecidableEq, Repr

/-- The version comes before everything else, then the demonstration, then the source on the
command line, then the file. -/
def Job.ofOptions (o : Options) : Job :=
  if o.version then showVersion
  else if o.demo then scan "<demo>" demoSource
  else
    match o.inline, o.file with
    | some source, _ => scan "<eval>" source
    | none, some name => scanFile name
    | none, none => shell

structure Plan where
  job : Job
  format : Format
  setting : Log.Setting

/-- No directive is read before the arguments are understood. -/
def Plan.ofArguments (arguments : List String) (directive : Option String)
    (libraries : Libraries := {}) : Plan :=
  match Options.ofArguments arguments with
  | .error .usage => ⟨.explainUsage, .plain, .off⟩
  | .error .help => ⟨.showHelp, .plain, .off⟩
  | .ok o =>
    { job := Job.ofOptions o
      format := if o.json then .json else .plain
      setting := .choose libraries.readDirective o.verbose directive }

def scan (format : Format) (origin source : String) : Nat × Transcript :=
  let listing := Listing.ofSource format source
  (if listing.error.isSome then 1 else 0, listing.withNotice origin)

def unreadable (name : String) (fault : FileFault) : String :=
  Colour.red.paintBold "error:" ++ " could not read '" ++ Colour.yellow.paint name ++ "': "
    ++ fault.message

/-- The exit code of a job and what it writes. -/
def perform (format : Format) (editor : Shell.Editor) (store : FileStore) (input : List UInt8) :
    Job → Nat × Transcript
  | .explainUsage => (2, [.err usageLine])
  | .showHelp => (0, helpLines.map .out)
  | .showVersion => (0, [.out versionLine])
  | .scan origin source => scan format origin source
  | .scanFile name =>
    match store.text name with
    | .ok source => scan format name source
    | .error fault => (1, [.err (unreadable name fault)])
  | .shell =>
    match Shell.session editor store input with
    | .ok transcript => (0, transcript)
    | .error failure => (1, [.err (Colour.red.paintBold "error:" ++ " " ++ failure.debugText)])

/-- A run complains of its directive before it does its job. -/
def run (i : Invocation) (libraries : Libraries := {}) : Outcome :=
  let plan := Plan.ofArguments i.arguments i.directive libraries
  let (code, transcript) := perform plan.format libraries.editor i.store i.input plan.job
  ⟨code, plan.setting.complaints.map .err ++ transcript, plan.setting.filter⟩

end Program
end TwinScript
