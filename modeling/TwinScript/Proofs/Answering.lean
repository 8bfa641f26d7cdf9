import TwinScript.Proofs.Piping

/-!
# Independent lines

The shell answers each line as if it were the only one: nothing of a line is kept but whether the
session goes on after it. It goes on unless the line asks to leave or is not text, whatever errors
there were. So the answers to an input that is cut between two lines are those to both parts, one
after the other, up to the line with which the session ends.
-/
namespace TwinScript
open Text

namespace Shell

/-- The session is over with this line: it is not text, or it asks to leave. -/
inductive Ends : List UInt8 → Prop
  | notText {bytes : List UInt8} (h : ofBytes? bytes = none) : Ends bytes
  | leave {bytes : List UInt8} {line : String} (h : ofBytes? bytes = some line)
      (htrim : trim line.toList = "exit".toList ∨ trim line.toList = ".exit".toList) : Ends bytes

theorem ofLine_eq_leave_iff (line : String) :
    Command.ofLine line = .leave ↔
      trim line.toList = "exit".toList ∨ trim line.toList = ".exit".toList := by
  constructor
  · intro h
    by_cases hexit : trim line.toList = "exit".toList ∨ trim line.toList = ".exit".toList
    · exact hexit
    · rw [not_or] at hexit
      simp only [Command.ofLine, beq_false_of_ne hexit.1, beq_false_of_ne hexit.2, Bool.or_self,
        Bool.false_eq_true, if_false] at h
      split_ifs at h
  · rintro (h | h)
    · rw [Command.ofLine, h]
      rfl
    · rw [Command.ofLine, h]
      rfl

/-- What is answered does not depend on what was answered before, and only the lines that end the
session keep it from going on. -/
theorem turn_snd_eq_false_iff (store : FileStore) (bytes : List UInt8) :
    (turn store bytes).2 = false ↔ Ends bytes := by
  cases htext : ofBytes? bytes with
  | none => exact iff_of_true (by rw [turn, htext]) (.notText htext)
  | some line =>
      have hends : Ends bytes ↔ Command.ofLine line = .leave := by
        rw [ofLine_eq_leave_iff]
        constructor
        · rintro (hnone | ⟨hsome, htrim⟩)
          · cases htext.symm.trans hnone
          · cases htext.symm.trans hsome
            exact htrim
        · exact .leave htext
      rw [hends, turn, htext]
      cases hcommand : Command.ofLine line with
      | leave => simp [hcommand]
      | nothing => simp [hcommand]
      | help => simp [hcommand]
      | load path => simp [hcommand]
      | scan source => simp [hcommand]

theorem turn_snd_of_not_ends {bytes : List UInt8} (h : ¬ Ends bytes) (store : FileStore) :
    (turn store bytes).2 = true := by
  rw [← turn_snd_eq_false_iff store, Bool.not_eq_false] at h
  exact h

instance (bytes : List UInt8) : Decidable (Ends bytes) :=
  decidable_of_iff _ (turn_snd_eq_false_iff (fun _ => .error .notFound) bytes)

variable {before after : List (List UInt8)}

theorem answers_append (store : FileStore) (h : ∀ bytes ∈ before, ¬ Ends bytes) :
    answers {} store (before ++ after) = answers {} store before ++ answers {} store after := by
  induction before with
  | nil => rfl
  | cons bytes before ih =>
      obtain ⟨hbytes, hbefore⟩ := List.forall_mem_cons.1 h
      simp only [List.cons_append, answers, turn_snd_of_not_ends hbytes store, if_true,
        ih hbefore, List.append_assoc]

theorem answers_append_of_ends (store : FileStore) (h : ∃ bytes ∈ before, Ends bytes) :
    answers {} store (before ++ after) = answers {} store before := by
  induction before with
  | nil =>
      obtain ⟨bytes, hmem, -⟩ := h
      cases hmem
  | cons bytes before ih =>
      by_cases hbytes : Ends bytes
      · simp only [List.cons_append, answers, (turn_snd_eq_false_iff store bytes).2 hbytes,
          Bool.false_eq_true, if_false]
      · have hmore : ∃ bytes' ∈ before, Ends bytes' := by
          obtain ⟨bytes', hmem, hends⟩ := h
          rcases List.mem_cons.1 hmem with rfl | hmem
          · exact absurd hends hbytes
          · exact ⟨bytes', hmem, hends⟩
        simp only [List.cons_append, answers, turn_snd_of_not_ends hbytes store, if_true, ih hmore]

theorem linesAfter_append_newline (line bytes more : List UInt8) :
    linesAfter line (bytes ++ 10 :: more) = linesAfter line (bytes ++ [10]) ++ lines more := by
  induction bytes generalizing line with
  | nil => simp [linesAfter, lines]
  | cons byte bytes ih =>
      by_cases hbyte : byte = 10
      · simp only [List.cons_append, linesAfter, if_pos hbyte, ih]
      · simp only [List.cons_append, linesAfter, if_neg hbyte, ih]

/-- An input cut in two between its lines. A backspace would edit the line that it stands in: no
proof asks for its absence, which marks the inputs that `lines` cuts as the editor does. -/
structure Cut (first second : List UInt8) : Prop where
  whole : first = [] ∨ first.getLast? = some 10
  no_backspace : 8 ∉ first ++ second

theorem Cut.lines_append {first second : List UInt8} (h : Cut first second) :
    lines (first ++ second) = lines first ++ lines second := by
  rcases h.whole with rfl | hlast
  · rfl
  · obtain ⟨bytes, rfl⟩ := List.getLast?_eq_some_iff.1 hlast
    rw [List.append_assoc, List.singleton_append, lines, linesAfter_append_newline, ← lines]

/-- How the line may be ended: by the end of the input or by a newline, before which one carriage
return does not belong to the line. -/
inductive LineEnd (line : List Char) : List UInt8 → Prop
  | input : LineEnd line []
  | newline (h : line.getLast? ≠ some '\r') : LineEnd line [10]
  | returnNewline : LineEnd line [13, 10]

theorem LineEnd.lines_eq {line : List Char} {ending : List UInt8} (h : LineEnd line ending)
    (hline : '\n' ∉ line) (hne : line ≠ []) : lines (toBytes line ++ ending) = [toBytes line] := by
  have hnewline : toBytes ['\n'] = [10] := by decide
  have hreturn : toBytes ['\r', '\n'] = [13, 10] := by decide
  cases h with
  | input => rw [List.append_nil, lines_toBytes_last hline hne]
  | newline h =>
      rw [← hnewline, ← toBytes_append, lines_toBytes_append hline, dropReturn_of_ne h]
      rfl
  | returnNewline =>
      have hline' : '\n' ∉ line ++ ['\r'] := by simpa using hline
      have hsplit : line ++ ['\r', '\n'] = (line ++ ['\r']) ++ '\n' :: [] := by simp
      rw [← hreturn, ← toBytes_append, hsplit, lines_toBytes_append hline',
        dropReturn_concat_return]
      rfl

theorem turn_of_noCommand (store : FileStore) {line : String} (h : NoCommand line.toList)
    (hne : trim line.toList ≠ []) :
    turn store (toBytes line.toList) =
      ((Listing.ofSource .plain line).withNotice "<repl>", true) := by
  have hcommand := h.ofLine
  rw [String.ofList_toList, if_neg (mt List.isEmpty_iff.1 hne)] at hcommand
  rw [turn, ofBytes?_toBytes, String.ofList_toList]
  simp only [hcommand]
  rfl

def body (store : FileStore) (input : List UInt8) : Transcript := answers {} store (lines input)

theorem Cut.body_append {first second : List UInt8} (h : Cut first second) (store : FileStore)
    (hgoes : ∀ bytes ∈ lines first, ¬ Ends bytes) :
    body store (first ++ second) = body store first ++ body store second := by
  rw [body, h.lines_append, answers_append store hgoes]
  rfl

theorem Cut.body_append_of_ends {first second : List UInt8} (h : Cut first second)
    (store : FileStore) (hends : ∃ bytes ∈ lines first, Ends bytes) :
    body store (first ++ second) = body store first := by
  rw [body, h.lines_append, answers_append_of_ends store hends]
  rfl

theorem body_of_line (store : FileStore) {line : String} {ending : List UInt8}
    (hline : '\n' ∉ line.toList) (hending : LineEnd line.toList ending)
    (hne : trim line.toList ≠ []) (h : NoCommand line.toList) :
    body store (toBytes line.toList ++ ending) =
      (Listing.ofSource .plain line).withNotice "<repl>" := by
  have hnil : line.toList ≠ [] := by
    rintro hnil
    rw [hnil, trim_nil] at hne
    exact hne rfl
  rw [body, hending.lines_eq hline hnil, answers, turn_of_noCommand store h hne]
  exact List.append_nil _

/-- A run of the shell, by what is seen of it: what it prints between its welcome and its farewell,
which comes last. -/
structure Shows (o : Outcome) (shown : String) : Prop where
  code_eq : o.code = 0
  stdout_eq : o.transcript.stdout =
    "\x1b[1m\x1b[96mゴミ箱へようこそ\x1b[39m\x1b[0m \x1b[90m0.1.0\x1b[39m\n" ++
      "\x1b[90mType .help for shell commands\x1b[39m\n" ++ shown ++
      "\x1b[90mさようなら\x1b[39m\n"

theorem stdout_welcome : welcome.stdout =
    "\x1b[1m\x1b[96mゴミ箱へようこそ\x1b[39m\x1b[0m \x1b[90m0.1.0\x1b[39m\n" ++
      "\x1b[90mType .help for shell commands\x1b[39m\n" := by
  decide +kernel

theorem stdout_farewell : farewell.stdout = "\x1b[90mさようなら\x1b[39m\n" := by
  decide +kernel

end Shell

/-- The log shows nothing that is not of the program itself: its directive is understood, and it
hides what the editor of the shell notes. -/
structure Libraries.Silent (libraries : Libraries) (setting : Log.Setting) : Prop where
  understood : setting.complaints = []
  hidden : ∀ r ∈ libraries.editor.notes, setting.filter.admits r = false

section Runs

variable {arguments : List String} {directive : Option String} {libraries : Libraries}

theorem Program.shows_of_shell
    (h : (Plan.ofArguments arguments directive libraries).job = .shell)
    (hfound : libraries.editor.fault = none) (input : List UInt8) (store : FileStore) :
    Shell.Shows (run ⟨arguments, input, store, directive⟩ libraries)
      (Shell.body store input).stdout := by
  have hanswers := @Shell.filterMap_answers _ Entry.stdout? libraries.editor (fun r _ => rfl) store
    (Shell.lines input)
  rw [run_of_shell h hfound]
  refine ⟨rfl, ?_⟩
  have hcomplaints : Transcript.stdout ((Plan.ofArguments arguments directive
      libraries).setting.complaints.map .err) = "" :=
    congrArg Transcript.unlines (Transcript.printed_map_err _)
  rw [Transcript.stdout_append, hcomplaints, String.empty_append, Transcript.stdout_append,
    Transcript.stdout_append, Shell.stdout_welcome, Shell.stdout_farewell, Transcript.stdout,
    hanswers]
  rfl

theorem Program.stderr_of_shell
    (h : (Plan.ofArguments arguments directive libraries).job = .shell)
    (hfound : libraries.editor.fault = none)
    (hsilent : libraries.Silent (Plan.ofArguments arguments directive libraries).setting)
    (input : List UInt8) (store : FileStore) (time : String) :
    let o := run ⟨arguments, input, store, directive⟩ libraries
    o.transcript.stderr o.filter time = (Shell.body store input).stderr
      (Plan.ofArguments arguments directive libraries).setting.filter time := by
  intro o
  have ho : o = _ := run_of_shell h hfound input store
  have hnotes : ∀ r ∈ libraries.editor.notes,
      Entry.stderr? (Plan.ofArguments arguments directive libraries).setting.filter time (.note r) =
        none := by
    intro r hr
    rw [Entry.stderr?, hsilent.hidden r hr]
    rfl
  rw [ho, hsilent.understood, List.map_nil, List.nil_append, Transcript.stderr_append,
    Transcript.stderr_append, Transcript.stderr, Transcript.stderr,
    Shell.filterMap_answers hnotes store]
  exact String.append_empty.trans String.empty_append

end Runs

end TwinScript
