/-!
# Command line options

The arguments of a run are read from left to right; the first one that asks for help or is wrong
decides. Options may be given once each, one operand names a file, and after a double dash
everything is an operand.
-/
namespace TwinScript

inductive Argument
  | dashes
  | long (name : List Char) (value : Option (List Char))
  | letters (cs : List Char)
  | operand (text : List Char)
  deriving DecidableEq, Repr

/-- A lone dash is an operand. -/
def Argument.ofText : List Char → Argument
  | ['-', '-'] => .dashes
  | '-' :: '-' :: rest =>
    match rest.dropWhile (· != '=') with
    | [] => .long rest none
    | _ :: value => .long (rest.takeWhile (· != '=')) (some value)
  | '-' :: c :: cs => .letters (c :: cs)
  | text => .operand text

structure Options where
  /-- The file to scan. -/
  file : Option String := none
  /-- The source given on the command line itself. -/
  inline : Option String := none
  demo : Bool := false
  json : Bool := false
  verbose : Bool := false
  version : Bool := false
  deriving DecidableEq, Repr

inductive Flag
  | demo
  | json
  | verbose
  | version
  | help
  deriving DecidableEq, Repr

namespace Flag

def ofName? (name : List Char) : Option Flag :=
  if name == "demo".toList then some .demo
  else if name == "json".toList then some .json
  else if name == "verbose".toList then some .verbose
  else if name == "version".toList then some .version
  else if name == "help".toList then some .help
  else none

def ofLetter? : Char → Option Flag
  | 'v' => some .verbose
  | 'h' => some .help
  | _ => none

end Flag

namespace Options

inductive Refusal
  | usage
  | help
  deriving DecidableEq, Repr

def raise (o : Options) : Option Flag → Except Refusal Options
  | none => .error .usage
  | some .help => .error .help
  | some .demo => if o.demo then .error .usage else .ok { o with demo := true }
  | some .json => if o.json then .error .usage else .ok { o with json := true }
  | some .verbose => if o.verbose then .error .usage else .ok { o with verbose := true }
  | some .version => if o.version then .error .usage else .ok { o with version := true }

def raiseLetters (o : Options) : List Char → Except Refusal Options
  | [] => .ok o
  | c :: cs => do (← o.raise (Flag.ofLetter? c)).raiseLetters cs

def setFile (o : Options) (name : List Char) : Except Refusal Options :=
  if o.file.isSome then .error .usage else .ok { o with file := some (String.ofList name) }

def setInline (o : Options) (source : List Char) : Except Refusal Options :=
  if o.inline.isSome then .error .usage else .ok { o with inline := some (String.ofList source) }

def addOperands (o : Options) : List String → Except Refusal Options
  | [] => .ok o
  | text :: texts => do (← o.setFile text.toList).addOperands texts

/-- Adds what the arguments say. The source of an evaluation may be an argument of its own, if it
could be an operand. -/
def addArguments (o : Options) : List String → Except Refusal Options
  | [] => .ok o
  | arg :: args =>
    match Argument.ofText arg.toList with
    | .dashes => o.addOperands args
    | .operand text => do (← o.setFile text).addArguments args
    | .letters cs => do (← o.raiseLetters cs).addArguments args
    | .long name value =>
      if name == "eval".toList then
        match value, args with
        | some source, args => do (← o.setInline source).addArguments args
        | none, [] => .error .usage
        | none, source :: args =>
          match Argument.ofText source.toList with
          | .operand text => do (← o.setInline text).addArguments args
          | _ => .error .usage
      else if value.isSome then .error .usage
      else do (← o.raise (Flag.ofName? name)).addArguments args

def ofArguments (args : List String) : Except Refusal Options := addArguments {} args

end Options
end TwinScript
