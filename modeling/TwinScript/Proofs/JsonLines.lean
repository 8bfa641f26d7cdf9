import TwinScript.Proofs.Framing
import TwinScript.Proofs.JsonText

/-!
# Tokens from lines of JSON

A token can be had back from its line: the line is read as an object, whose members are looked up
by their names, in whatever order they stand. A line has no control characters, so a listing is cut
at its newlines into the lines of its tokens. Hence what a run writes for a source in this format
holds exactly the tokens that are read from it, all of them and with all that is in them.
-/
namespace TwinScript

namespace Json

def member? (key : String) : Json → Option Json
  | obj members => (members.find? (·.1 == key.toList)).map (·.2)
  | _ => none

def text? : Json → Option String
  | str text => some (String.ofList text)
  | _ => none

def count? : Json → Option Nat
  | num n => some n
  | _ => none

end Json

def Span.ofJson? (j : Json) : Option Span := do
  let start ← (← j.member? "start").count?
  let stop ← (← j.member? "end").count?
  return ⟨start, stop⟩

namespace Token

def ofJson? (j : Json) : Option Token := do
  let kind ← Kind.ofName? (← (← j.member? "kind").text?)
  let value ← (← j.member? "value").text?
  let line ← (← j.member? "line").count?
  let column ← (← j.member? "column").count?
  let span ← Span.ofJson? (← j.member? "span")
  return ⟨kind, value, line, column, span⟩

def ofJsonLine? (line : List Char) : Option Token := (Json.read? line).bind ofJson?

/-- The tokens of a text that has one in each line. The last line is ended, too. -/
def ofJsonLines? (text : List Char) : Option (List Token) :=
  let lines := text.splitOn '\n'
  if lines.getLast? = some [] then lines.dropLast.mapM ofJsonLine? else none

theorem ofJson?_toJson (t : Token) : ofJson? t.toJson = some t := by
  simp [ofJson?, toJson, Json.member?, Json.text?, Json.count?, Span.ofJson?, Kind.ofName?_name]

theorem ofJsonLine?_jsonLine (t : Token) : ofJsonLine? t.jsonLine.toList = some t := by
  rw [ofJsonLine?, jsonLine, String.toList_ofList, Json.read?_compact, Option.bind_some,
    ofJson?_toJson]

-- Members in another order, with blanks and needless escapes, are read in the same way.
example :
    ofJsonLine? (" \x7b \"span\" : \x7b\"end\":5, \"start\":0\x7d,\"line\":1,\"column\":1," ++
        "\"value\":\"\\ud83d\\ude00\\/\", \"kind\":\"Identifier\" \x7d").toList =
      some ⟨.identifier, "😀/", 1, 1, ⟨0, 5⟩⟩ := by
  decide +kernel

theorem le_toNat_of_mem_jsonLine {t : Token} {c : Char} (h : c ∈ t.jsonLine.toList) :
    0x20 ≤ c.toNat := by
  rw [jsonLine, String.toList_ofList] at h
  exact Json.le_toNat_of_mem_compact t.toJson h

theorem mapM_ofJsonLine? (tokens : List Token) :
    (tokens.map fun t => t.jsonLine.toList).mapM ofJsonLine? = some tokens := by
  induction tokens with
  | nil => rfl
  | cons t tokens ih =>
      rw [List.map_cons, List.mapM_cons, ofJsonLine?_jsonLine, ih]
      rfl

end Token

namespace Listing

theorem ofJsonLines?_stdout (s : String) :
    Token.ofJsonLines? (ofSource .json s).entries.stdout.toList =
      some (Reader.ofText s.toList).run.tokens := by
  have hlines := splitOn_stdout_ofSource .json s fun t _ hmem =>
    absurd (Token.le_toNat_of_mem_jsonLine hmem) (by decide)
  rw [Token.ofJsonLines?, hlines]
  simp only [List.getLast?_concat, if_true, List.dropLast_concat]
  exact Token.mapM_ofJsonLine? _

end Listing

theorem Program.ofArguments_json (s : String) (directive : Option String)
    (libraries : Libraries) :
    Plan.ofArguments ["--json", "--eval=" ++ s] directive libraries =
      ⟨.scan "<eval>" s, .json, .choose libraries.readDirective false directive⟩ := by
  have hflag : Argument.ofText "--json".toList = .long ['j', 's', 'o', 'n'] none := by decide
  have hoptions : Options.ofArguments ["--json", "--eval=" ++ s] =
      .ok { inline := some (String.ofList s.toList), json := true } := by
    simp only [Options.ofArguments, Options.addArguments, hflag, Argument.ofText_eval]
    rfl
  rw [Plan.ofArguments, hoptions, String.ofList_toList]
  rfl

/-- The line of a token has no control characters and is read as that token. What is written for a
source, whatever it is called, is read as the tokens up to the end or the first error, and so is
what a run writes that is given the source. -/
theorem json_listing_decodes :
    (∀ t : Token, (∀ c ∈ t.jsonLine.toList, 0x20 ≤ c.toNat) ∧
      Token.ofJsonLine? t.jsonLine.toList = some t) ∧
    ∀ s : String,
      (∀ origin, Token.ofJsonLines? (Program.scan .json origin s).2.stdout.toList =
        some (Reader.ofText s.toList).run.tokens) ∧
      ∀ input store directive libraries,
        Token.ofJsonLines? (Program.run ⟨["--json", "--eval=" ++ s], input, store, directive⟩
            libraries).transcript.stdout.toList =
          some (Reader.ofText s.toList).run.tokens := by
  refine ⟨fun t => ⟨fun c hc => Token.le_toNat_of_mem_jsonLine hc, Token.ofJsonLine?_jsonLine t⟩,
    fun s => ?_⟩
  have hscan : ∀ origin, Token.ofJsonLines? (Program.scan .json origin s).2.stdout.toList =
      some (Reader.ofText s.toList).run.tokens := by
    intro origin
    rw [Program.scan, Listing.stdout_withNotice, Listing.ofJsonLines?_stdout]
  refine ⟨hscan, ?_⟩
  intro input store directive libraries
  rw [Program.stdout_run, Program.ofArguments_json]
  exact hscan "<eval>"

/-- A literal with a backslash before a letter, a quote and a control character, and then a number
that ends in a point. -/
theorem json_listing_decodes_sample :
    let s := "'\\\\u\"\x1b' １."
    let t : Token := ⟨.string, "\\u\"\x1b", 1, 1, ⟨0, 7⟩⟩
    t.jsonLine = "\x7b\"kind\":\"String\",\"value\":\"\\\\u\\\"\\u001b\",\"line\":1,\"column\":1," ++
        "\"span\":\x7b\"start\":0,\"end\":7\x7d\x7d" ∧
      '\\' ∈ t.jsonLine.toList ∧ 0x20 ≤ '\\'.toNat ∧
      Token.ofJsonLine? t.jsonLine.toList = some t ∧
      Token.ofJsonLines? (Program.run ⟨["--json", "--eval=" ++ s], [], fun _ => .error .notFound,
        none⟩).transcript.stdout.toList = some [t] := by
  intro s t
  have hmem : '\\' ∈ t.jsonLine.toList := by decide +kernel
  have htokens : (Reader.ofText s.toList).run.tokens = [t] := by decide +kernel
  obtain ⟨hlines, hruns⟩ := json_listing_decodes
  obtain ⟨hcontrol, hread⟩ := hlines t
  refine ⟨by decide +kernel, hmem, hcontrol _ hmem, hread, ?_⟩
  rw [← htokens]
  exact (hruns s).2 [] _ none {}

end TwinScript
