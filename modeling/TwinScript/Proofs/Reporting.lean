import TwinScript.Proofs.Drivers
import TwinScript.Proofs.Highlighting
import TwinScript.Proofs.JsonLines
import TwinScript.Proofs.LogLines

/-!
# What a run reports

A listing reports an event for each token but the end of the input, and one for its error or its
end. The filter only chooses among these lines. It stands apart from what is listed, and so does the
name of the source: they change neither the output nor the exit code.
-/
namespace TwinScript
open Text

namespace Transcript

def reported (filter : Log.Filter) (time : String) (t : Transcript) : List String :=
  t.filterMap (Entry.stderr? filter time)

theorem count_newline_unlines {lines : List String} (h : ∀ line ∈ lines, '\n' ∉ line.toList) :
    (unlines lines).toList.count '\n' = lines.length := by
  induction lines with
  | nil => rfl
  | cons line lines ih =>
      obtain ⟨hline, hlines⟩ := List.forall_mem_cons.1 h
      simp [unlines, ih hlines, List.count_eq_zero.2 hline]

end Transcript

theorem Format.newline_not_mem_line (format : Format) {source : List Char} {t : Token}
    (h : t ∈ (Reader.ofText source).run.tokens) : '\n' ∉ (format.line t).toList := by
  cases format with
  | plain => exact newline_not_mem_plain (Reader.newline_not_mem_of_mem_run h)
  | json => exact fun hmem => absurd (Token.le_toNat_of_mem_jsonLine hmem) (by decide)

def lineCount (text : String) : Nat := text.toList.count '\n'

namespace LexError

/-- A notice in its parts: the kind, the origin, the place and the message are in it as they are. -/
def noticeSegments (origin : String) (e : LexError) : List Highlight.Segment :=
  [.inserted 1, .inserted 31, .kept "lex".toList, .inserted 39, .inserted 0, .kept [' '],
    .inserted 33, .kept e.kind.name.toList, .inserted 39, .kept " at ".toList,
    .inserted 36, .kept origin.toList, .inserted 39,
    .kept (":" ++ e.line.repr ++ ":" ++ e.column.repr ++ ": ").toList,
    .inserted 91, .kept e.message.toList, .inserted 39]

theorem toList_notice (origin : String) (e : LexError) :
    (e.notice origin).toList = Highlight.shown (e.noticeSegments origin) := by
  simp [notice, noticeSegments, Colour.paint, Colour.paintBold, Colour.code,
    Highlight.toList_rendition, Highlight.shown, Highlight.Segment.text]

theorem withoutInserted_noticeSegments (origin : String) (e : LexError) :
    Highlight.withoutInserted (e.noticeSegments origin) =
      ("lex " ++ e.kind.name ++ " at " ++ origin ++ ":" ++ e.line.repr ++ ":" ++ e.column.repr ++
        ": " ++ e.message).toList := by
  simp [noticeSegments, Highlight.withoutInserted, Highlight.Segment.keptText]

/-- Freed of its colours, the notice is one line that names the kind and the place of the error, and
its message. -/
theorem deleteRenditions_notice {origin : String} {e : LexError} (horigin : '\x1b' ∉ origin.toList)
    (hmessage : '\x1b' ∉ e.message.toList) :
    deleteRenditions (e.notice origin).toList =
      ("lex " ++ e.kind.name ++ " at " ++ origin ++ ":" ++ e.line.repr ++ ":" ++ e.column.repr ++
        ": " ++ e.message).toList := by
  have hkind : '\x1b' ∉ e.kind.name.toList := by
    cases e.kind <;> decide
  have hdigits : ∀ n : Nat, '\x1b' ∉ Nat.toDigits 10 n := by
    intro n
    rw [← Nat.toList_repr]
    exact (plain_repr n).not_mem (by decide)
  rw [toList_notice, Highlight.deleteRenditions_shown, withoutInserted_noticeSegments]
  rw [withoutInserted_noticeSegments]
  simp [hkind, hdigits, horigin, hmessage]

end LexError

namespace Log

/-- The setting shows the events of the program up to a level, or none of them, and there is nothing
to complain about. -/
structure Setting.ShowsUpTo (setting : Setting) (level : Option Level) : Prop where
  admits_record : ∀ e : Event,
    setting.filter.admits e.record = level.any fun l => e.level.detail ≤ l.detail
  complaints_eq : setting.complaints = []

theorem Event.target_prefix (e : Event) : "gomi".toList <+: e.record.target.toList := by
  cases e with
  | token t => exact (by decide : "gomi".toList <+: "gomi::lexer::scanner".toList)
  | error e => exact (by decide : "gomi".toList <+: "gomi::lexer::scanner".toList)
  | finished tokens => exact (by decide : "gomi".toList <+: "gomi::output".toList)

namespace Directive.Documented

variable {read : String → Setting} (h : Documented read)
include h

theorem showsUpTo_level (level : Level) :
    (read ("gomi=" ++ level.word)).ShowsUpTo (some level) where
  admits_record e := h.admits_level level e.record e.target_prefix
  complaints_eq := h.complaints_level level

theorem showsUpTo_trace : (Setting.choose read false (some "gomi=trace")).ShowsUpTo (some .trace) :=
  h.showsUpTo_level .trace

theorem showsUpTo_debug {verbose : Bool} {directive : Option String}
    (hdebug : verbose = true ∨ directive = some "gomi=debug") :
    (Setting.choose read verbose directive).ShowsUpTo (some .debug) := by
  have hchoose : Setting.choose read verbose directive = read ("gomi=" ++ Level.debug.word) := by
    rcases hdebug with rfl | rfl
    · rfl
    · cases verbose <;> rfl
  rw [hchoose]
  exact h.showsUpTo_level .debug

theorem admits_eq_false {directive : Option String}
    (hdirective : directive ∈ [some "gomi=info", some "off", none]) :
    (∀ e : Event, (Setting.choose read false directive).filter.admits e.record = false) ∧
      (Setting.choose read false directive).complaints = [] := by
  simp only [List.mem_cons, List.not_mem_nil, or_false] at hdirective
  rcases hdirective with rfl | rfl | rfl
  · have hinfo := h.showsUpTo_level .info
    refine ⟨fun e => (hinfo.admits_record e).trans ?_, hinfo.complaints_eq⟩
    cases e <;> rfl
  · exact ⟨fun e => h.admits_off e.record, h.complaints_off⟩
  · exact ⟨fun e => rfl, rfl⟩

end Directive.Documented
end Log

theorem Transcript.reported_eq_events {t : Transcript}
    (h : ∀ entry ∈ t, (∃ line, entry = .out line) ∨ ∃ e, entry = .event e) (filter : Log.Filter)
    (time : String) :
    t.reported filter time =
      (t.events.filter fun e => filter.admits e.record).map (·.line time) := by
  induction t with
  | nil => rfl
  | cons entry t ih =>
      obtain ⟨hentry, ht⟩ := List.forall_mem_cons.1 h
      rcases hentry with ⟨line, rfl⟩ | ⟨e, rfl⟩
      · exact ih ht
      · have hevents : events (.event e :: t) = e :: events t := rfl
        have hmore := ih ht
        rw [reported] at hmore
        rw [hevents, List.filter_cons, reported, List.filterMap_cons, Entry.stderr?, hmore]
        by_cases hadmits : filter.admits e.record = true
        · simp [hadmits]
        · simp [hadmits]

namespace Listing
open Log

variable {s : String} {tokens : List Token} {error : Option LexError}

theorem own_of_mem_ofSource (format : Format) (s : String) :
    ∀ entry ∈ (ofSource format s).entries, (∃ line, entry = .out line) ∨ ∃ e, entry = .event e := by
  intro entry hentry
  rw [ofSource, reading_eq_run] at hentry
  rcases List.mem_append.1 hentry with htoken | hlast
  · obtain ⟨t, -, ht⟩ := List.mem_flatMap.1 htoken
    rcases List.mem_append.1 ht with hevent | hline
    · obtain ⟨e, -, rfl⟩ := List.mem_map.1 hevent
      exact .inr ⟨e, rfl⟩
    · exact .inl ⟨_, List.mem_singleton.1 hline⟩
  · exact .inr ⟨_, List.mem_singleton.1 hlast⟩

def lastEvent (tokens : List Token) (error : Option LexError) : Event :=
  error.elim (.finished tokens.length) .error

theorem logOf_append_closing (tokens : List Token) (error : Option LexError) :
    Reader.logOf tokens error ++ closing tokens error =
      (tokens.filter (·.kind ≠ .endOfInput)).map .token ++ [lastEvent tokens error] := by
  rw [Reader.logOf, List.append_assoc]
  cases error <;> rfl

theorem reported_ofSource (h : (Reader.ofText s.toList).Yields tokens error) (format : Format)
    (filter : Filter) (time : String) :
    (ofSource format s).entries.reported filter time =
      ((tokens.filter (·.kind ≠ .endOfInput)).map Event.token ++ [lastEvent tokens error]
        |>.filter fun e => filter.admits e.record).map (·.line time) := by
  rw [Transcript.reported_eq_events (own_of_mem_ofSource format s), events_ofSource h,
    logOf_append_closing]

theorem lineCount_stdout_ofSource (h : (Reader.ofText s.toList).Yields tokens error)
    (format : Format) : lineCount (ofSource format s).entries.stdout = tokens.length := by
  have hlines : ∀ line ∈ tokens.map format.line, '\n' ∉ line.toList := by
    intro line hline
    obtain ⟨t, ht, rfl⟩ := List.mem_map.1 hline
    rw [← h.run_eq.1] at ht
    exact format.newline_not_mem_line ht
  rw [stdout_ofSource, h.run_eq.1, lineCount, Transcript.count_newline_unlines hlines,
    List.length_map]

/-- The lines of the log for the tokens. -/
def traces (time : String) (tokens : List Token) : List String :=
  (tokens.filter (·.kind ≠ .endOfInput)).map fun t => (Event.token t).line time

variable {setting : Setting}

theorem reported_trace (h : (Reader.ofText s.toList).Yields tokens error)
    (hsetting : setting.ShowsUpTo (some .trace)) (format : Format) (time : String) :
    (ofSource format s).entries.reported setting.filter time =
      traces time tokens ++ [(lastEvent tokens error).line time] := by
  have hall : ∀ e : Event, setting.filter.admits e.record = true := by
    intro e
    rw [hsetting.admits_record]
    cases e <;> rfl
  rw [reported_ofSource h, List.filter_eq_self.2 fun e _ => hall e, List.map_append, List.map_map]
  rfl

theorem reported_debug (h : (Reader.ofText s.toList).Yields tokens error)
    (hsetting : setting.ShowsUpTo (some .debug)) (format : Format) (time : String) :
    (ofSource format s).entries.reported setting.filter time =
      [(lastEvent tokens error).line time] := by
  have htokens : ((tokens.filter (·.kind ≠ .endOfInput)).map Event.token).filter
      (fun e => setting.filter.admits e.record) = [] := by
    rw [List.filter_eq_nil_iff]
    intro e he
    obtain ⟨t, -, rfl⟩ := List.mem_map.1 he
    rw [hsetting.admits_record]
    exact Bool.false_ne_true
  have hlast : setting.filter.admits (lastEvent tokens error).record = true := by
    rw [hsetting.admits_record]
    cases error <;> rfl
  rw [reported_ofSource h, List.filter_append, htokens, List.nil_append, List.filter_singleton,
    hlast]
  rfl

theorem reported_silent (h : (Reader.ofText s.toList).Yields tokens error)
    {filter : Filter} (hfilter : ∀ e : Event, filter.admits e.record = false) (format : Format)
    (time : String) : (ofSource format s).entries.reported filter time = [] := by
  have hnone : ∀ e : Event, ¬ filter.admits e.record = true := by simp [hfilter]
  rw [reported_ofSource h, List.filter_eq_nil_iff.2 fun e _ => hnone e, List.map_nil]

theorem says_traces {time : String} (htime : Plain time.toList)
    (htokens : ∀ t ∈ tokens, Plain t.value.toList) :
    Says (traces time tokens) ((tokens.filter (·.kind ≠ .endOfInput)).map .ofToken) := by
  have hlegible : ∀ e ∈ (tokens.filter (·.kind ≠ .endOfInput)).map Event.token, e.Legible := by
    intro e he
    obtain ⟨t, ht, rfl⟩ := List.mem_map.1 he
    exact Event.legible_token (htokens t (List.mem_of_mem_filter ht))
  have hsays := says_of_legible htime hlegible
  rw [List.map_map, List.map_map] at hsays
  exact hsays

theorem says_lastEvent {time : String} (htime : Plain time.toList)
    (herror : ∀ e ∈ error, Plain e.message.toList) :
    Says [(lastEvent tokens error).line time]
      [error.elim (.ofCount tokens.length) .ofError] := by
  cases error with
  | none => exact says_of_legible htime (List.forall_mem_singleton.2 (Event.legible_finished _))
  | some e =>
      have hlegible : (Event.error e).Legible := Event.legible_error (herror e rfl)
      exact says_of_legible htime (List.forall_mem_singleton.2 hlegible)

end Listing

/-- The flags that change how a listing is written or logged, each given at most once. -/
inductive Options.Raises : Options → List String → Options → Prop
  | none (o : Options) : Raises o [] o
  | json {o o' : Options} {texts : List String} (h : o.json = false)
      (more : Raises { o with json := true } texts o') : Raises o ("--json" :: texts) o'
  | verbose {o o' : Options} {text : String} {texts : List String}
      (htext : text = "-v" ∨ text = "--verbose") (h : o.verbose = false)
      (more : Raises { o with verbose := true } texts o') : Raises o (text :: texts) o'

namespace Options

variable {o o' : Options} {text : String} {rest : List String}

theorem addArguments_long {name : List Char} (h : Argument.ofText text.toList = .long name .none)
    (hname : name ≠ "eval".toList) (hraise : o.raise (Flag.ofName? name) = .ok o') :
    o.addArguments (text :: rest) = o'.addArguments rest := by
  rw [addArguments, h]
  simp only [beq_false_of_ne hname, Option.isSome_none, Bool.false_eq_true, if_false, hraise]
  rfl

theorem addArguments_letters {cs : List Char} (h : Argument.ofText text.toList = .letters cs)
    (hraise : o.raiseLetters cs = .ok o') :
    o.addArguments (text :: rest) = o'.addArguments rest := by
  rw [addArguments, h]
  simp only [hraise]
  rfl

theorem addArguments_eval (h : o.inline = .none) (s : String) :
    o.addArguments (("--eval=" ++ s) :: rest) = { o with inline := some s }.addArguments rest := by
  have hset : o.setInline s.toList = .ok { o with inline := some s } := by
    rw [setInline, h, String.ofList_toList]
    rfl
  rw [addArguments, Argument.ofText_eval]
  simp only [hset]
  rfl

theorem setFile_toList (h : o.file = .none) (name : String) :
    o.setFile name.toList = .ok { o with file := some name } := by
  rw [setFile, h, String.ofList_toList]
  rfl

theorem addArguments_operand {name : String} (h : o.file = .none)
    (hname : Argument.ofText name.toList = .operand name.toList) :
    o.addArguments (name :: rest) = { o with file := some name }.addArguments rest := by
  rw [addArguments, hname]
  simp only [setFile_toList h]
  rfl

theorem addArguments_dashes {name : String} (h : o.file = .none) :
    o.addArguments ["--", name] = .ok { o with file := some name } := by
  have hdashes : Argument.ofText "--".toList = .dashes := by decide
  rw [addArguments, hdashes]
  simp only [addOperands, setFile_toList h]
  rfl

theorem Raises.addArguments_append {texts : List String} (h : o.Raises texts o')
    (rest : List String) : o.addArguments (texts ++ rest) = o'.addArguments rest := by
  induction h with
  | none o => rfl
  | @json o o' texts h more ih =>
      have hraise : o.raise (Flag.ofName? "json".toList) = .ok { o with json := true } := by
        rw [(by decide : Flag.ofName? "json".toList = some .json), raise, h]
        rfl
      rw [← ih, List.cons_append, addArguments_long (by decide) (by decide) hraise]
  | @verbose o o' text texts htext h more ih =>
      have hraise : o.raise (some .verbose) = .ok { o with verbose := true } := by
        rw [raise, h]
        rfl
      rw [← ih, List.cons_append]
      rcases htext with rfl | rfl
      · have hletters : o.raiseLetters ['v'] = .ok { o with verbose := true } := by
          rw [raiseLetters, (by decide : Flag.ofLetter? 'v' = some .verbose), hraise]
          rfl
        rw [addArguments_letters (by decide) hletters]
      · have hname : Flag.ofName? "verbose".toList = some .verbose := by decide
        rw [addArguments_long (by decide) (by decide) (hname ▸ hraise)]

theorem Raises.eq {texts : List String} (h : o.Raises texts o') :
    o' = { o with json := o'.json, verbose := o'.verbose } := by
  induction h with
  | none o => rfl
  | json h more ih => exact ih
  | verbose htext h more ih => exact ih

end Options

/-- A run that lists the source, which is given on the command line or in a file, among any flags. A
file whose name could be an option stands behind a double dash. -/
inductive Invocation.Batch (s : String) : Options → String → Invocation → Prop
  | inline {front back : List String} {o o' : Options} (hfront : Options.Raises {} front o)
      (hback : Options.Raises { o with inline := some s } back o') (input : List UInt8)
      (store : FileStore) (directive : Option String) :
      Batch s o' "<eval>" ⟨front ++ ("--eval=" ++ s) :: back, input, store, directive⟩
  | file {front back : List String} {o o' : Options} {name : String} {store : FileStore}
      (hfront : Options.Raises {} front o)
      (hback : Options.Raises { o with file := some name } back o')
      (hname : Argument.ofText name.toList = .operand name.toList)
      (hfile : store name = .ok (toBytes s.toList)) (input : List UInt8)
      (directive : Option String) : Batch s o' name ⟨front ++ name :: back, input, store, directive⟩
  | operand {front : List String} {o : Options} {name : String} {store : FileStore}
      (hfront : Options.Raises {} front o) (hfile : store name = .ok (toBytes s.toList))
      (input : List UInt8) (directive : Option String) :
      Batch s { o with file := some name } name
        ⟨front ++ ["--", name], input, store, directive⟩

def Format.ofFlag (json : Bool) : Format := if json then .json else .plain

namespace Program

variable (libraries : Libraries)

/-- What a run comes to that lists the source with these options. -/
def listed (i : Invocation) (o : Options) (origin s : String) : Outcome :=
  let setting := Log.Setting.choose libraries.readDirective o.verbose i.directive
  ⟨(scan (.ofFlag o.json) origin s).1,
    setting.complaints.map .err ++ (scan (.ofFlag o.json) origin s).2, setting.filter⟩

theorem run_of_options {i : Invocation} {o : Options} {origin s : String}
    (hoptions : Options.ofArguments i.arguments = .ok o)
    (hperform : perform (.ofFlag o.json) libraries.editor i.store i.input (.ofOptions o) =
      scan (.ofFlag o.json) origin s) :
    run i libraries = listed libraries i o origin s := by
  have hplan : Plan.ofArguments i.arguments i.directive libraries =
      ⟨.ofOptions o, .ofFlag o.json, .choose libraries.readDirective o.verbose i.directive⟩ := by
    rw [Plan.ofArguments, hoptions]
    rfl
  rw [run, hplan]
  simp only [hperform]
  rfl

theorem perform_scanFile {store : FileStore} {name s : String}
    (h : store name = .ok (toBytes s.toList)) (format : Format) (editor : Shell.Editor)
    (input : List UInt8) :
    perform format editor store input (.scanFile name) = scan format name s := by
  simp only [perform, FileStore.text_of_toBytes h]

theorem run_of_batch {s : String} {o : Options} {origin : String} {i : Invocation}
    (h : i.Batch s o origin) : run i libraries = listed libraries i o origin s := by
  cases h with
  | @inline front back o₁ _ hfront hback input store directive =>
      have hinline : o₁.inline = none := by rw [hfront.eq]
      have hoptions : Options.ofArguments (front ++ ("--eval=" ++ s) :: back) = .ok o := by
        rw [Options.ofArguments, hfront.addArguments_append, Options.addArguments_eval hinline,
          ← List.append_nil back, hback.addArguments_append, Options.addArguments]
      have hjob : Job.ofOptions o = .scan "<eval>" s := by
        rw [hback.eq, hfront.eq]
        rfl
      exact run_of_options libraries hoptions (congrArg (perform _ _ _ _) hjob)
  | @file front back o₁ _ _ store hfront hback hname hfile input directive =>
      have hfree : o₁.file = none := by rw [hfront.eq]
      have hoptions : Options.ofArguments (front ++ origin :: back) = .ok o := by
        rw [Options.ofArguments, hfront.addArguments_append,
          Options.addArguments_operand hfree hname, ← List.append_nil back,
          hback.addArguments_append, Options.addArguments]
      have hjob : Job.ofOptions o = .scanFile origin := by
        rw [hback.eq, hfront.eq]
        rfl
      exact run_of_options libraries hoptions (hjob ▸ perform_scanFile hfile _ _ input)
  | @operand front o₁ _ store hfront hfile input directive =>
      have hfree : o₁.file = none := by rw [hfront.eq]
      have hoptions : Options.ofArguments (front ++ ["--", origin]) =
          .ok { o₁ with file := some origin } := by
        rw [Options.ofArguments, hfront.addArguments_append, Options.addArguments_dashes hfree]
      have hjob : Job.ofOptions { o₁ with file := some origin } = .scanFile origin := by
        rw [hfront.eq]
        rfl
      exact run_of_options libraries hoptions (hjob ▸ perform_scanFile hfile _ _ input)

end Program

/-- What a run writes to the standard error, by its flag and its directive, when the log bears the
given time: all lines of the log, or all but those of the tokens, or none, and then the notice. -/
structure Invocation.Reports (i : Invocation) (libraries : Libraries) (verbose : Bool)
    (time : String) (traces : List String) (closing : String) (notice : List String) : Prop where
  trace : verbose = false → i.directive = some "gomi=trace" →
    (Program.run i libraries).transcript.stderr (Program.run i libraries).filter time =
      Transcript.unlines (traces ++ closing :: notice)
  debug : verbose = true ∨ i.directive = some "gomi=debug" →
    (Program.run i libraries).transcript.stderr (Program.run i libraries).filter time =
      Transcript.unlines (closing :: notice)
  silent : verbose = false → i.directive ∈ [some "gomi=info", some "off", none] →
    (Program.run i libraries).transcript.stderr (Program.run i libraries).filter time =
      Transcript.unlines notice

section Batch

variable {s : String} {tokens : List Token} {error : Option LexError} {o : Options}
  {origin : String} {i : Invocation} {libraries : Libraries}

theorem Program.stderr_of_batch (h : (Reader.ofText s.toList).Yields tokens error)
    (hi : i.Batch s o origin) {setting : Log.Setting}
    (hsetting : Log.Setting.choose libraries.readDirective o.verbose i.directive = setting)
    (hcomplaints : setting.complaints = []) (time : String) :
    (run i libraries).transcript.stderr (run i libraries).filter time =
      Transcript.unlines ((Listing.ofSource (.ofFlag o.json) s).entries.reported setting.filter time
        ++ (error.map (·.notice origin)).toList) := by
  have herror : (Listing.ofSource (.ofFlag o.json) s).error = error := by
    rw [Listing.error_ofSource, h.run_eq.2]
  rw [run_of_batch libraries hi, listed, hsetting, hcomplaints, List.map_nil, List.nil_append, scan,
    Listing.stderr_withNotice, herror, Transcript.unlines_append]
  rfl

theorem reports_of_batch (h : (Reader.ofText s.toList).Yields tokens error)
    (hi : i.Batch s o origin) (hread : Log.Directive.Documented libraries.readDirective)
    (time : String) :
    i.Reports libraries o.verbose time (Listing.traces time tokens)
      ((Listing.lastEvent tokens error).line time) (error.map (·.notice origin)).toList := by
  refine ⟨?_, ?_, ?_⟩
  · intro hverbose hdirective
    have hshows := hread.showsUpTo_trace
    rw [Program.stderr_of_batch h hi (by rw [hverbose, hdirective]) hshows.complaints_eq,
      Listing.reported_trace h hshows, List.append_assoc, List.singleton_append]
  · intro hdebug
    have hshows := hread.showsUpTo_debug hdebug
    rw [Program.stderr_of_batch h hi rfl hshows.complaints_eq, Listing.reported_debug h hshows,
      List.singleton_append]
  · intro hverbose hdirective
    obtain ⟨hnone, hcomplaints⟩ := hread.admits_eq_false hdirective
    rw [Program.stderr_of_batch h hi (by rw [hverbose]) hcomplaints,
      Listing.reported_silent h hnone, List.nil_append]

end Batch

/-- A run that lists a source prints its tokens and exits with 0 if all of it can be read and with 1
if not. Nothing else bears on that: not the log, and not how the source is given. What the run
writes to the standard error are lines of the log and the notice of the error. If no value has a
control character, and directives mean what users are told, the log has one line for each token but
the end of the input, and then one that either gives the number of the lines printed or tells the
error. -/
theorem batch_runs_report {s : String} {tokens : List Token} {error : Option LexError}
    (h : (Reader.ofText s.toList).Yields tokens error) (libraries : Libraries) :
    (∀ o origin i, Invocation.Batch s o origin i →
      (Program.run i libraries).code = (match lex s with | .ok _ => 0 | .error _ => 1) ∧
      (Program.run i libraries).transcript.stdout =
        Transcript.unlines (tokens.map (Format.ofFlag o.json).line)) ∧
    (Log.Directive.Documented libraries.readDirective →
      (∀ t ∈ tokens, Plain t.value.toList) → (∀ e ∈ error, Plain e.message.toList) →
      ∀ time : String, Plain time.toList → ∃ traces closing,
        Log.Says traces ((tokens.filter (·.kind ≠ .endOfInput)).map .ofToken) ∧
        ∀ o origin i, Invocation.Batch s o origin i →
          Log.Says [closing] [error.elim
            (.ofCount (lineCount (Program.run i libraries).transcript.stdout)) .ofError] ∧
          i.Reports libraries o.verbose time traces closing
            (error.map (·.notice origin)).toList) := by
  have hstdout : ∀ o origin i, Invocation.Batch s o origin i →
      (Program.run i libraries).transcript.stdout =
        (Listing.ofSource (.ofFlag o.json) s).entries.stdout := by
    intro o origin i hi
    have hcomplaints := Transcript.printed_map_err
      (Log.Setting.choose libraries.readDirective o.verbose i.directive).complaints
    rw [Program.run_of_batch libraries hi, Program.listed, Program.scan,
      ← Listing.stdout_withNotice _ origin]
    exact congrArg Transcript.unlines ((Transcript.printed_append _ _).trans
      (by rw [hcomplaints]; rfl))
  refine ⟨?_, ?_⟩
  · intro o origin i hi
    refine ⟨?_, by rw [hstdout o origin i hi, Listing.stdout_ofSource, h.run_eq.1]⟩
    have hlex : lex s = Reader.outcome tokens error := h.readAll_eq
    rw [Program.run_of_batch libraries hi, Program.listed, Program.scan, Listing.error_ofSource,
      h.run_eq.2, hlex]
    cases error with
    | none => rfl
    | some e => rfl
  · intro hread htokens herror time htime
    refine ⟨Listing.traces time tokens, (Listing.lastEvent tokens error).line time,
      Listing.says_traces htime htokens, ?_⟩
    intro o origin i hi
    rw [hstdout o origin i hi, Listing.lineCount_stdout_ofSource h]
    exact ⟨Listing.says_lastEvent htime herror, reports_of_batch h hi hread time⟩

/-- A word before a number that ends in a point, given on the command line with all of the log, and
in a file with a flag on either side of its name. -/
theorem batch_runs_report_sample :
    let s := "宣言 １."
    let tokens : List Token := [⟨.letWord, "宣言", 1, 1, ⟨0, 6⟩⟩]
    let e : LexError := ⟨.malformedFloat, "expected a digit after the decimal point", 1, 5, 10, 1⟩
    let store : FileStore := fun _ => .ok (toBytes s.toList)
    let inline : Invocation := ⟨["--json", "--eval=" ++ s], [], store, some "gomi=trace"⟩
    let file : Invocation := ⟨["-v", "a.gomi", "--json"], [], store, some "off"⟩
    (Reader.ofText s.toList).Yields tokens (some e) ∧
      inline.Batch s { inline := some s, json := true } "<eval>" ∧
      file.Batch s { file := some "a.gomi", json := true, verbose := true } "a.gomi" ∧
      (Program.run inline).code = 1 ∧
      (Program.run file).transcript.stdout = (Program.run inline).transcript.stdout ∧
      ∃ trace closing,
        Log.Says [trace] [⟨.trace, "gomi::lexer::scanner", "token",
          [("kind", "Let"), ("value", "宣言"), ("line", "1"), ("column", "1")]⟩] ∧
        Log.Says [closing] [.ofError e] ∧
        (Program.run inline).transcript.stderr (Program.run inline).filter "12:00" =
          Transcript.unlines [trace, closing, e.notice "<eval>"] ∧
        (Program.run file).transcript.stderr (Program.run file).filter "12:00" =
          Transcript.unlines [closing, e.notice "a.gomi"] := by
  intro s tokens e store inline file
  have hrun : (Reader.ofText s.toList).run.tokens = tokens ∧
      (Reader.ofText s.toList).run.error = some e := by decide +kernel
  have hyields : (Reader.ofText s.toList).Yields tokens (some e) := by
    rw [← hrun.1, ← hrun.2]
    exact Reader.yields_run _
  have hinline : inline.Batch s { inline := some s, json := true } "<eval>" :=
    .inline (.json rfl (.none _)) (.none _) [] store _
  have hfile : file.Batch s { file := some "a.gomi", json := true, verbose := true } "a.gomi" :=
    .file (.verbose (.inl rfl) rfl (.none _)) (.json rfl (.none _)) (by decide) rfl [] _
  obtain ⟨hprints, hlog⟩ := batch_runs_report hyields {}
  obtain ⟨hcode, hstdout⟩ := hprints _ _ _ hinline
  have hlex : lex s = .error e := by decide +kernel
  rw [hlex] at hcode
  have htokens : ∀ t ∈ tokens, Plain t.value.toList := by decide
  have herror : ∀ e' ∈ some e, Plain e'.message.toList := by
    rintro e' ⟨⟩
    decide
  obtain ⟨traces, closing, htraces, hbatch⟩ :=
    hlog Log.Directive.documented_read htokens herror "12:00" (by decide)
  obtain ⟨hclosing, hreports⟩ := hbatch _ _ _ hinline
  have hreports' := (hbatch _ _ _ hfile).2
  obtain ⟨trace, rfl⟩ : ∃ trace, traces = [trace] := by
    rw [← List.length_eq_one_iff, ← List.length_map, htraces.records_eq]
    rfl
  refine ⟨hyields, hinline, hfile, hcode, ?_, trace, closing, htraces, hclosing,
    hreports.trace rfl rfl, hreports'.debug (.inl rfl)⟩
  rw [hstdout, (hprints _ _ _ hfile).2]

end TwinScript
