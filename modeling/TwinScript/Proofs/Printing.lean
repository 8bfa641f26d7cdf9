import TwinScript.Program
import TwinScript.Proofs.Lines

/-!
# What a run prints

A listing prints one line for each token. From the line of a token its kind can be told, and the
line number in it can be exchanged, whatever its value is: the kind stands in front of the value,
and the number behind it. A run on a text that can be read prints the lines of all its tokens.
-/
namespace TwinScript
open Text

namespace Transcript

def printed (t : Transcript) : List String := t.filterMap Entry.stdout?

def Clean (t : Transcript) : Prop := ∀ line, Entry.err line ∉ t

theorem printed_append (t u : Transcript) : printed (t ++ u) = printed t ++ printed u :=
  List.filterMap_append

theorem printed_eq_nil {t : Transcript} (h : ∀ entry ∈ t, ∀ line, entry ≠ .out line) :
    t.printed = [] := by
  rw [printed, List.filterMap_eq_nil_iff]
  intro entry hentry
  cases entry with
  | out line => exact absurd rfl (h _ hentry line)
  | err line => rfl
  | event e => rfl
  | note r => rfl

theorem printed_map_event (events : List Log.Event) : Transcript.printed (events.map .event) = [] :=
  printed_eq_nil fun _ hentry _ heq => by simp [heq] at hentry

theorem printed_map_err (lines : List String) : Transcript.printed (lines.map .err) = [] :=
  printed_eq_nil fun _ hentry _ heq => by simp [heq] at hentry

theorem printed_flatMap {α : Type} (f : α → Transcript) (as : List α) :
    printed (as.flatMap f) = (as.map fun a => printed (f a)).flatten := by
  rw [printed, List.filterMap_flatMap, List.flatMap_def]
  rfl

theorem clean_flatMap {α : Type} {f : α → Transcript} {as : List α} (h : ∀ a ∈ as, (f a).Clean) :
    Clean (as.flatMap f) := by
  intro line hmem
  obtain ⟨a, ha, hline⟩ := List.mem_flatMap.1 hmem
  exact h a ha line hline

theorem Clean.append {t u : Transcript} (ht : t.Clean) (hu : u.Clean) : Clean (t ++ u) := by
  intro line hmem
  exact (List.mem_append.1 hmem).elim (ht line) (hu line)

theorem Clean.stderr_silent {t : Transcript} (h : t.Clean) (time : String) :
    t.stderr .silent time = "" := by
  have hnone : t.filterMap (Entry.stderr? .silent time) = [] := by
    rw [List.filterMap_eq_nil_iff]
    intro entry hentry
    cases entry with
    | out line => rfl
    | err line => exact absurd hentry (h line)
    | event e => rfl
    | note r => rfl
  rw [stderr, hnone, unlines]

end Transcript

namespace Format

/-- The name of the kind in the line of a token, between its first space and its first comma. -/
def shownKind (line : String) : String :=
  String.ofList ((line.toList.dropWhile (· != ' ')).tail.takeWhile (· != ','))

/-- The line of a token with another line number: the digits before its last colon. -/
def renumber (k : Nat) (line : String) : String :=
  let back := line.toList.reverse.takeWhile (· != ':')
  let front := (line.toList.reverse.dropWhile (· != ':')).tail.dropWhile Char.isDigit
  String.ofList (front.reverse ++ (k.repr.toList ++ ':' :: back.reverse))

theorem shownKind_plain (t : Token) : shownKind (plain.line t) = t.kind.name := by
  have hnames : ∀ kind ∈ Token.Kind.all, ',' ∉ kind.name.toList := by decide +kernel
  have hname : ∀ c ∈ t.kind.name.toList, c ≠ ',' := by
    rintro c hc rfl
    exact hnames t.kind t.kind.mem_all hc
  have hcolour : ' ' ∉ (rendition 93).toList ++ ['\x7b'] := by decide +kernel
  have hfront : ∀ c ∈ (rendition 93).toList ++ ['\x7b'], c ≠ ' ' := by
    rintro c hc rfl
    exact hcolour hc
  obtain ⟨more, htext⟩ : ∃ more, (plain.line t).toList =
      ((rendition 93).toList ++ ['\x7b']) ++ ' ' :: (t.kind.name.toList ++ ',' :: more) := by
    simp [line, Token.display, Colour.paint, Colour.code]
  obtain ⟨-, hdrop⟩ := span_of_stop (p := (· != ' ')) (fun c => bne_iff_ne) _
    (' ' :: (t.kind.name.toList ++ ',' :: more)) hfront (by simp)
  obtain ⟨htake, -⟩ := span_of_stop (p := (· != ',')) (fun c => bne_iff_ne) t.kind.name.toList
    (',' :: more) hname (by simp)
  rw [shownKind, htext, hdrop, List.tail_cons, htake, String.ofList_toList]

theorem isDigit_of_mem_repr {n : Nat} {c : Char} (h : c ∈ n.repr.toList) : c.isDigit = true := by
  rw [Nat.toList_repr] at h
  exact Nat.isDigit_of_mem_toDigits (by decide) (by decide) h

theorem ofDigitChars_repr (n : Nat) : Nat.ofDigitChars 10 n.repr.toList 0 = n := by
  rw [Nat.toList_repr, Nat.ofDigitChars_toDigits (by decide) (by decide)]

theorem toList_renumber (k : Nat) {line : String} {front digits back : List Char}
    (hline : line.toList = front ++ ' ' :: (digits ++ ':' :: back))
    (hdigits : ∀ c ∈ digits, c.isDigit = true) (hback : ':' ∉ back) :
    (renumber k line).toList = front ++ ' ' :: (k.repr.toList ++ ':' :: back) := by
  have hreverse : line.toList.reverse =
      back.reverse ++ ':' :: (digits.reverse ++ ' ' :: front.reverse) := by simp [hline]
  have hcolon : ∀ c ∈ back.reverse, c ≠ ':' := by
    rintro c hc rfl
    exact hback (List.mem_reverse.1 hc)
  obtain ⟨htake, hdrop⟩ := span_of_stop (p := (· != ':')) (fun c => bne_iff_ne) back.reverse
    (':' :: (digits.reverse ++ ' ' :: front.reverse)) hcolon (by simp)
  obtain ⟨-, hfront⟩ := span_of_stop (p := Char.isDigit) (fun c => Iff.rfl) digits.reverse
    (' ' :: front.reverse) (fun c hc => hdigits c (List.mem_reverse.1 hc)) (by simp)
  simp only [renumber, hreverse, htake, hdrop, List.tail_cons, hfront, String.toList_ofList,
    List.reverse_cons, List.reverse_reverse, List.append_assoc, List.singleton_append]

theorem renumber_plain (k : Nat) (t : Token) :
    renumber k (plain.line t) = plain.line { t with line := k } := by
  have hback : ':' ∉ t.column.repr.toList ++ ' ' :: '\x7d' :: (rendition 39).toList := by
    have hend : ':' ∉ ' ' :: '\x7d' :: (rendition 39).toList := by decide +kernel
    intro hmem
    rcases List.mem_append.1 hmem with hcolumn | hmore
    · exact absurd (isDigit_of_mem_repr hcolumn) (by decide)
    · exact hend hmore
  obtain ⟨front, htext⟩ : ∃ front, ∀ n, (plain.line { t with line := n }).toList =
      front ++ ' ' :: (n.repr.toList ++ ':' :: (t.column.repr.toList ++
        ' ' :: '\x7d' :: (rendition 39).toList)) := by
    refine ⟨(rendition 93 ++ "\x7b " ++ t.kind.name ++ ", \"" ++ t.value ++ "\",").toList, ?_⟩
    simp [line, Token.display, Colour.paint, Colour.code]
  have hdigits : ∀ c ∈ t.line.repr.toList, c.isDigit = true := fun c hc => isDigit_of_mem_repr hc
  rw [← String.toList_inj, toList_renumber k (htext t.line) hdigits hback, htext k]

/-- The lines of tokens other than the end of the input. -/
def tokenLines (lines : List String) : List String :=
  lines.filter (shownKind · ≠ Token.Kind.endOfInput.name)

theorem name_eq_endOfInput_iff (t : Token) :
    t.kind.name = Token.Kind.endOfInput.name ↔ t.kind = .endOfInput := by
  constructor
  · intro hname
    have hof := Token.Kind.ofName?_name t.kind
    rw [hname, Token.Kind.ofName?_name] at hof
    exact (Option.some.inj hof).symm
  · intro hkind
    rw [hkind]

theorem tokenLines_map (tokens : List Token) :
    tokenLines (tokens.map plain.line) =
      (tokens.filter (·.kind ≠ .endOfInput)).map plain.line := by
  induction tokens with
  | nil => rfl
  | cons t ts ih =>
      rw [tokenLines] at ih ⊢
      rw [List.map_cons, List.filter_cons, List.filter_cons, shownKind_plain, ih]
      by_cases hkind : t.kind = .endOfInput
      · have hname := (name_eq_endOfInput_iff t).2 hkind
        rw [if_neg (by simpa using hname), if_neg (by simpa using hkind)]
      · have hname := mt (name_eq_endOfInput_iff t).1 hkind
        rw [if_pos (by simpa using hname), if_pos (by simpa using hkind), List.map_cons]

end Format

namespace Listing

theorem clean_ofToken (format : Format) (t : Token) : Transcript.Clean (ofToken format t) := by
  intro line hmem
  simp [ofToken] at hmem

theorem printed_ofToken (format : Format) (t : Token) :
    Transcript.printed (ofToken format t) = [format.line t] := by
  rw [ofToken, Transcript.printed_append, Transcript.printed_map_event]
  rfl

theorem printed_ofSource (format : Format) (s : String) :
    (ofSource format s).entries.printed =
      (Reader.ofText s.toList).run.tokens.map format.line := by
  rw [ofSource, reading_eq_run, Transcript.printed_append, Transcript.printed_flatMap]
  simp only [printed_ofToken, ← List.flatMap_def, ← List.map_eq_flatMap]
  exact List.append_nil _

theorem stdout_ofSource (format : Format) (s : String) :
    (ofSource format s).entries.stdout =
      Transcript.unlines ((Reader.ofText s.toList).run.tokens.map format.line) := by
  rw [← printed_ofSource]
  rfl

theorem error_ofSource (format : Format) (s : String) :
    (ofSource format s).error = (Reader.ofText s.toList).run.error := by
  rw [ofSource, reading_eq_run]

theorem stdout_withNotice (l : Listing) (origin : String) :
    (l.withNotice origin).stdout = l.entries.stdout := by
  have hnotice : Transcript.stdout (l.error.map fun e => .err (e.notice origin)).toList = "" := by
    cases l.error with
    | none => rfl
    | some e => rfl
  rw [withNotice, Transcript.stdout_append, hnotice, String.append_empty]

theorem stderr_withNotice (l : Listing) (origin : String) (filter : Log.Filter) (time : String) :
    (l.withNotice origin).stderr filter time =
      l.entries.stderr filter time ++
        Transcript.unlines (l.error.map (·.notice origin)).toList := by
  rw [withNotice, Transcript.stderr_append]
  cases l.error with
  | none => rfl
  | some e => rfl

theorem withNotice_of_lex {s : String} {tokens : List Token} (h : lex s = .ok tokens)
    (format : Format) (origin : String) :
    ((ofSource format s).withNotice origin).Clean ∧
      ((ofSource format s).withNotice origin).printed = tokens.map format.line := by
  have hprinted := printed_ofSource format s
  rw [lex, Reader.readAll_eq_run] at h
  cases herror : (Reader.ofText s.toList).run.error with
  | some e =>
      simp only [herror] at h
      cases h
  | none =>
      simp only [herror, Except.ok.injEq] at h
      have hnotice : (ofSource format s).withNotice origin = (ofSource format s).entries := by
        rw [withNotice, error_ofSource, herror, Option.map_none, Option.toList_none,
          List.append_nil]
      have hevent : Transcript.Clean [.event (.finished tokens.length)] := by
        simp [Transcript.Clean]
      rw [hnotice, hprinted, h]
      refine ⟨?_, rfl⟩
      simp only [ofSource, reading_eq_run, herror, h, Option.elim_none, Nat.zero_add]
      exact (Transcript.clean_flatMap fun t _ => clean_ofToken format t).append hevent

end Listing

/-- A run that lists the tokens of a text in the plain format. The text is given on the command
line, or is that of a file. -/
inductive Invocation.Lists (s : String) : Invocation → Prop
  | inline (input : List UInt8) (store : FileStore) (directive : Option String) :
      Lists s ⟨["--eval=" ++ s], input, store, directive⟩
  | file {name : String} {store : FileStore}
      (hname : Argument.ofText name.toList = .operand name.toList)
      (hfile : store name = .ok (toBytes s.toList)) (input : List UInt8)
      (directive : Option String) : Lists s ⟨[name], input, store, directive⟩

theorem FileStore.text_of_toBytes {store : FileStore} {name s : String}
    (h : store name = .ok (toBytes s.toList)) : store.text name = .ok s := by
  rw [text, h]
  simp only [ofBytes?_toBytes, String.ofList_toList]

theorem Argument.ofText_eval (s : String) :
    Argument.ofText ("--eval=" ++ s).toList = .long ['e', 'v', 'a', 'l'] (some s.toList) := by
  rw [String.toList_append]
  rfl

namespace Program

theorem printed_run (i : Invocation) (libraries : Libraries) :
    let plan := Plan.ofArguments i.arguments i.directive libraries
    (run i libraries).transcript.printed =
      (perform plan.format libraries.editor i.store i.input plan.job).2.printed := by
  intro plan
  rw [run, Transcript.printed_append, Transcript.printed_map_err, List.nil_append]

theorem stdout_run (i : Invocation) (libraries : Libraries) :
    let plan := Plan.ofArguments i.arguments i.directive libraries
    (run i libraries).transcript.stdout =
      (perform plan.format libraries.editor i.store i.input plan.job).2.stdout :=
  congrArg Transcript.unlines (printed_run i libraries)

theorem ofArguments_inline (s : String) (directive : Option String) (libraries : Libraries) :
    Plan.ofArguments ["--eval=" ++ s] directive libraries =
      ⟨.scan "<eval>" s, .plain, .choose libraries.readDirective false directive⟩ := by
  have hoptions : Options.ofArguments ["--eval=" ++ s] =
      .ok { inline := some (String.ofList s.toList) } := by
    simp only [Options.ofArguments, Options.addArguments, Argument.ofText_eval]
    rfl
  rw [Plan.ofArguments, hoptions, String.ofList_toList]
  rfl

theorem ofArguments_file {name : String} (h : Argument.ofText name.toList = .operand name.toList)
    (directive : Option String) (libraries : Libraries) :
    Plan.ofArguments [name] directive libraries =
      ⟨.scanFile name, .plain, .choose libraries.readDirective false directive⟩ := by
  have hoptions : Options.ofArguments [name] =
      .ok { file := some (String.ofList name.toList) } := by
    simp only [Options.ofArguments, Options.addArguments, h]
    rfl
  rw [Plan.ofArguments, hoptions, String.ofList_toList]
  rfl

theorem printed_of_lists {s : String} {tokens : List Token} (hlex : lex s = .ok tokens)
    {i : Invocation} (h : i.Lists s) (libraries : Libraries) :
    (run i libraries).transcript.printed = tokens.map Format.plain.line := by
  cases h with
  | inline input store directive =>
      obtain ⟨-, hprinted⟩ := Listing.withNotice_of_lex hlex .plain "<eval>"
      rw [printed_run, ofArguments_inline]
      exact hprinted
  | @file name store hname hfile input directive =>
      obtain ⟨-, hprinted⟩ := Listing.withNotice_of_lex hlex .plain name
      rw [printed_run, ofArguments_file hname]
      simp only [perform, FileStore.text_of_toBytes hfile]
      exact hprinted

end Program

end TwinScript
