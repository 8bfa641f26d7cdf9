import TwinScript.Proofs.Newlines
import TwinScript.Proofs.Printing

/-!
# Piped programs

The shell reads its input line by line, each line as a text of its own, and takes a carriage return
off the end of a line. A run on the whole text reads on over the lines. Both write the same tokens.
No lexeme reaches over the end of a line or ends with a carriage return, so a text that can be read
can be read line by line, and no token notices. What differs is the line number, which the shell
always counts from the line it reads, and the end of the input, which every line has.
-/
namespace TwinScript
open Text

theorem exists_layout_of_lex_append_newline {line more : List Char} {tokens : List Token}
    (h : lex (String.ofList (line ++ '\n' :: more)) = .ok tokens) :
    ∃ (layout : Layout line) (tokens' : List Token) (bytes : Nat), layout.rest = [] ∧
      lex (String.ofList more) = .ok tokens' ∧
      tokens = layout.tokens ++ tokens'.map (Token.shift (line.count '\n' + 1) bytes) := by
  have hjoin : String.ofList (line ++ '\n' :: more) =
      String.ofList line ++ "\n" ++ String.ofList more := by
    rw [← String.toList_inj]
    simp
  rw [hjoin] at h
  obtain ⟨layout, hrest | ⟨fault, hfault⟩⟩ := Layout.exists_halts line
  · have hlex := lex_append_newline_of_complete (String.ofList line) (String.ofList more)
    rw [String.toList_ofList] at hlex
    rw [hlex layout hrest] at h
    cases hmore : lex (String.ofList more) with
    | error e =>
        rw [hmore] at h
        cases h
    | ok tokens' =>
        rw [hmore] at h
        exact ⟨layout, tokens', _, hrest, rfl, (Except.ok.inj h).symm⟩
  · have hlex := lex_append_newline_of_fault (String.ofList line) (String.ofList more)
    rw [String.toList_ofList] at hlex
    rw [hlex layout fault hfault] at h
    cases h

namespace Shell

/-- The shell scans the line, unless it is blank: it is none of the commands. -/
structure NoCommand (line : List Char) : Prop where
  ne_leave : trim line ≠ "exit".toList ∧ trim line ≠ ".exit".toList
  ne_help : trim line ≠ ".help".toList
  not_load : ¬ ".load ".toList <+: trim line

instance (line : List Char) : Decidable (NoCommand line) :=
  decidable_of_iff ((trim line ≠ "exit".toList ∧ trim line ≠ ".exit".toList) ∧
      trim line ≠ ".help".toList ∧ ¬ ".load ".toList <+: trim line)
    ⟨fun h => ⟨h.1, h.2.1, h.2.2⟩, fun h => ⟨h.ne_leave, h.ne_help, h.not_load⟩⟩

theorem NoCommand.ofLine {line : List Char} (h : NoCommand line) :
    Command.ofLine (String.ofList line) =
      if (trim line).isEmpty then .nothing else .scan (String.ofList line) := by
  obtain ⟨⟨hexit, hdotted⟩, hhelp, hload⟩ := h
  rw [← List.isPrefixOf_iff_prefix] at hload
  simp only [Command.ofLine, String.toList_ofList, beq_false_of_ne hexit, beq_false_of_ne hdotted,
    beq_false_of_ne hhelp, hload, Bool.or_self, Bool.false_eq_true, if_false]

def printed (store : FileStore) (bytes : List UInt8) : List String :=
  Transcript.printed (turn store bytes).1

/-- The shell goes on after the line, reports no error, and prints the given tokens. -/
structure Prints (store : FileStore) (bytes : List UInt8) (tokens : List Token) : Prop where
  goes_on : (turn store bytes).2 = true
  clean : (turn store bytes).1.Clean
  tokenLines_eq : Format.tokenLines (printed store bytes) = tokens.map Format.plain.line

theorem prints_toBytes (store : FileStore) {line : List Char} (layout : Layout line)
    (hrest : layout.rest = []) (h : NoCommand line) :
    Prints store (toBytes line) layout.tokens := by
  by_cases hblank : (trim line).isEmpty = true
  · have hturn : turn store (toBytes line) = ([], true) := by
      rw [turn, ofBytes?_toBytes]
      simp only [h.ofLine, if_pos hblank]
      rfl
    have htokens := layout.tokens_of_blank (isBlank_of_trim_eq_nil (List.isEmpty_iff.1 hblank))
    refine ⟨by rw [hturn], ?_, ?_⟩
    · rw [hturn]
      exact nofun
    · rw [printed, hturn, htokens]
      rfl
  · have hturn : turn store (toBytes line) =
        ((Listing.ofSource .plain (String.ofList line)).withNotice "<repl>", true) := by
      rw [turn, ofBytes?_toBytes]
      simp only [h.ofLine, if_neg hblank]
      rfl
    have hlex := lex_ofList_of_complete layout hrest
    obtain ⟨hclean, hprinted⟩ := Listing.withNotice_of_lex hlex .plain "<repl>"
    refine ⟨by rw [hturn], ?_, ?_⟩
    · rw [hturn]
      exact hclean
    · rw [printed, hturn, hprinted, Format.tokenLines_map, layout.filter_tokens_append]

theorem NoCommand.dropReturn {line : List Char} (h : NoCommand line) :
    NoCommand (dropReturn line) := by
  obtain ⟨hleave, hhelp, hload⟩ := h
  rw [← trim_dropReturn] at hleave hhelp hload
  exact ⟨hleave, hhelp, hload⟩

theorem prints_dropReturn (store : FileStore) {line : List Char} (layout : Layout line)
    (hrest : layout.rest = []) (h : NoCommand line) :
    Prints store (toBytes (Text.dropReturn line)) layout.tokens := by
  obtain ⟨layout', hrest', htokens⟩ := layout.exists_dropReturn hrest
  rw [← htokens]
  exact prints_toBytes store layout' hrest' h.dropReturn

/-- The token lines of answers to the lines from number `k` on, each with the number of its line. -/
def renumbered (k : Nat) : List (List String) → List String
  | [] => []
  | shown :: more => (Format.tokenLines shown).map (Format.renumber k) ++ renumbered (k + 1) more

theorem Prints.map_renumber {store : FileStore} {bytes : List UInt8} {line : List Char}
    {layout : Layout line} (h : Prints store bytes layout.tokens) (hline : '\n' ∉ line) (j : Nat) :
    (Format.tokenLines (printed store bytes)).map (Format.renumber (j + 1)) =
      layout.tokens.map fun t => Format.plain.line (t.shift j 0) := by
  rw [h.tokenLines_eq, List.map_map]
  apply List.map_congr_left
  intro t ht
  have hnumber : j + 1 = t.line + j := by
    rw [layout.line_eq_one hline ht, Nat.add_comm]
  rw [Function.comp_apply, Format.renumber_plain, hnumber]
  rfl

theorem map_line_shift (tokens : List Token) (j bytes : Nat) :
    (((tokens.map (Token.shift (0 + 1) bytes)).filter (·.kind ≠ .endOfInput)).map fun t =>
        Format.plain.line (t.shift j 0)) =
      (tokens.filter (·.kind ≠ .endOfInput)).map fun t =>
        Format.plain.line (t.shift (j + 1) 0) := by
  rw [List.filter_map, List.map_map]
  apply List.map_congr_left
  intro t _
  have hline : t.line + (0 + 1) + j = t.line + (j + 1) := by omega
  change Format.plain.line { t with line := t.line + (0 + 1) + j } = _
  rw [hline]
  rfl

/-- The lines of a text that can be read are answered one by one, and the token lines of the answers
are those of the whole text. The induction is on the lines; `j` of them came before. -/
theorem answers_toBytes (store : FileStore) (text : List Char) (tokens : List Token) (j : Nat)
    (hlex : lex (String.ofList text) = .ok tokens)
    (h : ∀ line ∈ text.splitOn '\n', NoCommand line) :
    (∀ bytes ∈ lines (toBytes text), (turn store bytes).2 = true ∧ (turn store bytes).1.Clean) ∧
      renumbered (j + 1) ((lines (toBytes text)).map (printed store)) =
        (tokens.filter (·.kind ≠ .endOfInput)).map fun t => Format.plain.line (t.shift j 0) := by
  induction text using line_induction generalizing tokens j with
  | last line hline =>
      obtain ⟨layout, hrest, rfl⟩ := exists_layout_of_lex_ofList hlex
      rw [layout.filter_tokens_append]
      by_cases hnil : line = []
      · subst hnil
        rw [layout.tokens_of_blank nofun]
        exact ⟨nofun, rfl⟩
      · rw [List.splitOn_eq_singleton hline, List.forall_mem_singleton] at h
        have hprints := prints_toBytes store layout hrest h
        rw [lines_toBytes_last hline hnil, List.forall_mem_singleton, List.map_singleton,
          renumbered, hprints.map_renumber hline]
        exact ⟨⟨hprints.goes_on, hprints.clean⟩, List.append_nil _⟩
  | cons line more hline ih =>
      obtain ⟨layout, tokens', bytes, hrest, hmore, rfl⟩ := exists_layout_of_lex_append_newline hlex
      rw [List.splitOn_append_cons_self_of_not_mem hline, List.forall_mem_cons] at h
      have hprints := prints_dropReturn store layout hrest h.1
      obtain ⟨hanswers, hshown⟩ := ih tokens' (j + 1) hmore h.2
      rw [lines_toBytes_append hline, List.forall_mem_cons, List.map_cons, renumbered,
        hprints.map_renumber hline, hshown, List.filter_append,
        layout.filter_tokens, List.map_append, List.count_eq_zero.2 hline, map_line_shift]
      exact ⟨⟨⟨hprints.goes_on, hprints.clean⟩, hanswers⟩, rfl⟩

@[simp] theorem asked_of_default : Editor.asked {} = [] := rfl

/-- Where the notes of the editor do not show, the answers are those that it hands over without
any. -/
theorem filterMap_answers {α : Type} {shown? : Entry → Option α} {editor : Editor}
    (h : ∀ r ∈ editor.notes, shown? (.note r) = none) (store : FileStore)
    (inputs : List (List UInt8)) :
    (answers editor store inputs).filterMap shown? =
      (answers {} store inputs).filterMap shown? := by
  have hasked : editor.asked.filterMap shown? = [] := by
    rw [Editor.asked, List.filterMap_map, List.filterMap_eq_nil_iff]
    exact h
  induction inputs with
  | nil => exact hasked
  | cons bytes more ih =>
      simp only [answers, asked_of_default, List.nil_append]
      split
      · rw [List.filterMap_append, List.filterMap_append, List.filterMap_append, hasked, ih,
          List.nil_append]
      · rw [List.filterMap_append, hasked, List.nil_append]

theorem answers_eq_flatMap {store : FileStore} {inputs : List (List UInt8)}
    (h : ∀ bytes ∈ inputs, (turn store bytes).2 = true ∧ (turn store bytes).1.Clean) :
    answers {} store inputs = inputs.flatMap fun bytes => (turn store bytes).1 := by
  induction inputs with
  | nil => rfl
  | cons bytes more ih =>
      obtain ⟨⟨hgoes, -⟩, hmore⟩ := List.forall_mem_cons.1 h
      rw [answers, List.flatMap_cons, ← ih hmore]
      simp only [hgoes, if_true, asked_of_default, List.nil_append]

theorem clean_welcome : welcome.Clean := by
  simp [Transcript.Clean, welcome]

theorem clean_farewell : farewell.Clean := by
  simp [Transcript.Clean, farewell]

/-- A text whose lines can be typed into the shell one by one. A backspace would edit the line that
it stands in: no proof asks for its absence, which marks the inputs that `lines` cuts as the editor
does. -/
structure Pipeable (s : String) : Prop where
  no_backspace : '\x08' ∉ s.toList
  no_command : ∀ line ∈ s.toList.splitOn '\n', NoCommand line

instance (s : String) : Decidable (Pipeable s) :=
  decidable_of_iff ('\x08' ∉ s.toList ∧ ∀ line ∈ s.toList.splitOn '\n', NoCommand line)
    ⟨fun h => ⟨h.1, h.2⟩, fun h => ⟨h.no_backspace, h.no_command⟩⟩

end Shell

theorem Program.run_of_shell {arguments : List String} {directive : Option String}
    {libraries : Libraries} (h : (Plan.ofArguments arguments directive libraries).job = .shell)
    (hfound : libraries.editor.fault = none) (input : List UInt8) (store : FileStore) :
    let setting := (Plan.ofArguments arguments directive libraries).setting
    run ⟨arguments, input, store, directive⟩ libraries =
      ⟨0, setting.complaints.map .err ++ (Shell.welcome ++
        Shell.answers libraries.editor store (Shell.lines input) ++ Shell.farewell),
        setting.filter⟩ := by
  intro setting
  rw [run]
  simp only [h, perform, Shell.session, hfound]
  rfl

/-- Piping a text into the shell and scanning it as a whole agree. The session ends well and reports
nothing. Between its welcome and its farewell it prints the answers to its lines; and with the
number of its line put in each, their tokens are line by line those that a run on the whole text
prints. -/
theorem piped_session_agrees (s : String) (tokens : List Token) (hlex : lex s = .ok tokens)
    (h : Shell.Pipeable s) (store : FileStore) (libraries : Libraries)
    (hfound : libraries.editor.fault = none) :
    let session := Program.run ⟨[], toBytes s.toList, store, none⟩ libraries
    let answers := (Shell.lines (toBytes s.toList)).map (Shell.printed store)
    session.code = 0 ∧ (∀ time, session.transcript.stderr session.filter time = "") ∧
      session.transcript.printed =
        Shell.welcome.printed ++ answers.flatten ++ Shell.farewell.printed ∧
      ∀ i : Invocation, i.Lists s →
        Shell.renumbered 1 answers =
          Format.tokenLines (Program.run i libraries).transcript.printed := by
  intro session answers
  obtain ⟨hanswers, hshown⟩ := Shell.answers_toBytes store s.toList tokens 0
    (by rwa [String.ofList_toList]) h.no_command
  have hsession : session = ⟨0, Shell.welcome ++ Shell.answers libraries.editor store
      (Shell.lines (toBytes s.toList)) ++ Shell.farewell, .silent⟩ :=
    Program.run_of_shell rfl hfound _ store
  have hflat := Shell.answers_eq_flatMap hanswers
  rw [hsession]
  refine ⟨rfl, ?_, ?_, ?_⟩
  · intro time
    have hclean := Transcript.clean_flatMap fun bytes hbytes => (hanswers bytes hbytes).2
    have hlines : (Shell.answers libraries.editor store
        (Shell.lines (toBytes s.toList))).stderr .silent time = "" := by
      rw [Transcript.stderr, Shell.filterMap_answers (fun r _ => rfl), hflat]
      exact hclean.stderr_silent time
    rw [Transcript.stderr_append, Transcript.stderr_append, hlines,
      Shell.clean_welcome.stderr_silent, Shell.clean_farewell.stderr_silent]
    rfl
  · rw [Transcript.printed_append, Transcript.printed_append]
    congr 2
    rw [Transcript.printed, Shell.filterMap_answers (fun r _ => rfl), hflat]
    exact Transcript.printed_flatMap _ _
  · intro i hi
    rw [hshown, Program.printed_of_lists hlex hi, Format.tokenLines_map]
    rfl

/-- A line that ends with a carriage return, a line of one wide space, a comment, and a last line
that no newline ends: as the source of a run, and as the text of a file. -/
theorem piped_session_agrees_sample :
    let s := "宣言 x=1\r\n\u3000\n#c\nif"
    let store : FileStore := fun _ => .ok (toBytes s.toList)
    let answers := (Shell.lines (toBytes s.toList)).map (Shell.printed store)
    answers.map List.length = [5, 0, 1, 2] ∧
      (Program.run ⟨[], toBytes s.toList, store, none⟩).code = 0 ∧
      Shell.renumbered 1 answers =
        Format.tokenLines (Program.run ⟨["--eval=" ++ s], [], store, none⟩).transcript.printed ∧
      Shell.renumbered 1 answers =
        Format.tokenLines (Program.run ⟨["x.gomi"], [], store, none⟩).transcript.printed := by
  intro s store answers
  have hlex : lex s = .ok [⟨.letWord, "宣言", 1, 1, ⟨0, 6⟩⟩, ⟨.identifier, "x", 1, 4, ⟨7, 8⟩⟩,
      ⟨.equals, "=", 1, 5, ⟨8, 9⟩⟩, ⟨.int, "1", 1, 6, ⟨9, 10⟩⟩, ⟨.ifWord, "if", 4, 1, ⟨19, 21⟩⟩,
      ⟨.endOfInput, "EOF", 4, 3, ⟨21, 21⟩⟩] := by
    decide +kernel
  have hpipeable : Shell.Pipeable s := by decide +kernel
  have hname : Argument.ofText "x.gomi".toList = .operand "x.gomi".toList := by decide +kernel
  obtain ⟨hcode, -, -, hagrees⟩ := piped_session_agrees s _ hlex hpipeable store {} rfl
  refine ⟨by decide +kernel, hcode, hagrees _ (.inline [] store none), ?_⟩
  exact hagrees _ (.file hname rfl [] none)

end TwinScript
