import TwinScript.Log
import TwinScript.Proofs.Printing

/-!
# Lines of the log

A line of the log is cut at its escape characters into texts that each have one rendition. They
stand in a fixed order, first those of the time, the level, the target and the message, and then
four for each named value. So as long as no value has a control character, the line is one line, and
all that it says can be had back from it.
-/
namespace TwinScript

namespace Text

/-- The characters of the Unicode category Cc. -/
def isControl (c : Char) : Bool := c.toNat < 0x20 || (0x7F ≤ c.toNat && c.toNat ≤ 0x9F)

def Plain (text : List Char) : Prop := ∀ c ∈ text, isControl c = false

instance (text : List Char) : Decidable (Plain text) :=
  decidable_of_iff (text.all fun c => !isControl c) (by simp [Plain])

theorem Plain.append {as bs : List Char} (ha : Plain as) (hb : Plain bs) : Plain (as ++ bs) := by
  intro c hc
  exact (List.mem_append.1 hc).elim (ha c) (hb c)

theorem Plain.not_mem {text : List Char} (h : Plain text) {c : Char} (hc : isControl c = true) :
    c ∉ text := by
  intro hmem
  rw [h c hmem] at hc
  cases hc

theorem plain_repr (n : Nat) : Plain n.repr.toList := by
  intro c hc
  obtain ⟨hlow, hhigh⟩ := Char.isDigit_iff_toNat.1 (Format.isDigit_of_mem_repr hc)
  change 48 ≤ c.toNat at hlow
  change c.toNat ≤ 57 at hhigh
  rw [isControl, Bool.or_eq_false_iff, Bool.and_eq_false_iff, decide_eq_false_iff_not,
    decide_eq_false_iff_not]
  omega

end Text

namespace Log
open Text

namespace Record

def ofToken (t : Token) : Record :=
  { level := .trace
    target := "gomi::lexer::scanner"
    message := "token"
    fields := [("kind", t.kind.name), ("value", t.value), ("line", t.line.repr),
      ("column", t.column.repr)] }

def ofError (e : LexError) : Record :=
  { level := .debug
    target := "gomi::lexer::scanner"
    message := e.message
    fields := [("kind", e.kind.name), ("line", e.line.repr), ("column", e.column.repr)] }

def ofCount (tokens : Nat) : Record :=
  { level := .debug
    target := "gomi::output"
    message := "scan finished"
    fields := [("tokens", tokens.repr)] }

end Record

/-- What stands behind an escape character: the rest of the sequence, and a text. -/
def chunk (code : Nat) (text : List Char) : List Char := '[' :: (code.repr.toList ++ 'm' :: text)

def chunkText (part : List Char) : List Char := (part.dropWhile (· != 'm')).tail

def Level.ofName? (name : List Char) : Option Level :=
  [error, warn, info, debug, trace].find? (·.name.toList == name)

/-- Reads named values, each of which takes four parts. Only the last is not followed by a space. -/
def fields? : List (List Char) → Option (List (String × String))
  | [] => some []
  | name :: _ :: _ :: value :: more => do
    let rest ← fields? more
    let text := if more.isEmpty then chunkText value else (chunkText value).dropLast
    return (String.ofList (chunkText name), String.ofList text) :: rest
  | _ => none

/-- Reads a line of the log. There is a space on both sides of the message. -/
def Record.ofLine? (line : String) : Option Record :=
  match line.toList.splitOn '\x1b' with
  | [] :: _time :: _ :: level :: _ :: target :: _ :: _ :: message :: fields => do
    let level ← Level.ofName? (chunkText level)
    let fields ← fields? fields
    return {
      level
      target := String.ofList (chunkText target)
      message := String.ofList (chunkText message).tail.dropLast
      fields }
  | _ => none

def joined (parts : List (List Char)) : List Char := parts.flatMap ('\x1b' :: ·)

@[simp] theorem joined_nil : joined [] = [] := rfl

@[simp] theorem joined_cons (part : List Char) (parts : List (List Char)) :
    joined (part :: parts) = '\x1b' :: (part ++ joined parts) :=
  List.flatMap_cons

theorem joined_append (parts more : List (List Char)) :
    joined (parts ++ more) = joined parts ++ joined more :=
  List.flatMap_append

theorem splitOn_joined {parts : List (List Char)} (h : ∀ part ∈ parts, Plain part)
    {front : List Char} (hfront : Plain front) :
    (front ++ joined parts).splitOn '\x1b' = front :: parts := by
  induction parts generalizing front with
  | nil =>
      rw [joined_nil, List.append_nil, List.splitOn_eq_singleton (hfront.not_mem (by decide))]
  | cons part parts ih =>
      obtain ⟨hpart, hparts⟩ := List.forall_mem_cons.1 h
      rw [joined_cons, List.splitOn_append_cons_self_of_not_mem (hfront.not_mem (by decide)),
        ih hparts hpart]

theorem newline_not_mem_joined {parts : List (List Char)} (h : ∀ part ∈ parts, Plain part) :
    '\n' ∉ joined parts := by
  intro hmem
  obtain ⟨part, hpart, hnewline⟩ := List.mem_flatMap.1 hmem
  rcases List.mem_cons.1 hnewline with hescape | hmem
  · exact absurd hescape (by decide)
  · exact (h part hpart).not_mem (by decide) hmem

@[simp] theorem chunkText_chunk (code : Nat) (text : List Char) :
    chunkText (chunk code text) = text := by
  have hfront : ∀ c ∈ '[' :: code.repr.toList, c ≠ 'm' := by
    intro c hc
    rcases List.mem_cons.1 hc with rfl | hdigit
    · decide
    · rintro rfl
      exact absurd (Format.isDigit_of_mem_repr hdigit) (by decide)
  obtain ⟨-, hdrop⟩ := span_of_stop (p := (· != 'm')) (fun c => bne_iff_ne)
    ('[' :: code.repr.toList) ('m' :: text) hfront (by simp)
  rw [chunkText, chunk, ← List.cons_append, hdrop, List.tail_cons]

theorem plain_chunk (code : Nat) {text : List Char} (h : Plain text) : Plain (chunk code text) := by
  have hm : Plain ('m' :: text) := List.forall_mem_cons.2 ⟨by decide, h⟩
  exact List.forall_mem_cons.2 ⟨by decide, (plain_repr code).append hm⟩

theorem Level.ofName?_name (level : Level) : ofName? level.name.toList = some level := by
  cases level <;> decide

def fieldChunks : List (String × String) → List (List Char)
  | [] => []
  | (name, value) :: more =>
    chunk 3 name.toList :: chunk 0 [] :: chunk 2 ['='] ::
      chunk 0 (value.toList ++ if more.isEmpty then [] else [' ']) :: fieldChunks more

theorem isEmpty_fieldChunks (fields : List (String × String)) :
    (fieldChunks fields).isEmpty = fields.isEmpty := by
  cases fields <;> rfl

theorem fields?_fieldChunks (fields : List (String × String)) :
    fields? (fieldChunks fields) = some fields := by
  induction fields with
  | nil => rfl
  | cons f more ih =>
      rw [fieldChunks, fields?, ih, isEmpty_fieldChunks]
      cases more with
      | nil => simp
      | cons g more => simp

theorem toList_field (name value : String) :
    (field name value).toList =
      joined [chunk 3 name.toList, chunk 0 [], chunk 2 ['='], chunk 0 value.toList] := by
  simp [field, dimmed, rendition, chunk]

theorem toList_fields (fields : List (String × String)) :
    (" ".intercalate (fields.map fun (name, value) => field name value)).toList =
      joined (fieldChunks fields) := by
  induction fields with
  | nil => rfl
  | cons f more ih =>
      cases more with
      | nil =>
          rw [List.map_singleton, String.intercalate_singleton, toList_field]
          simp [fieldChunks]
      | cons g more =>
          simp only [List.map_cons] at ih ⊢
          rw [String.intercalate_cons_cons, String.toList_append, ih, String.toList_append,
            toList_field]
          simp [fieldChunks, chunk]

namespace Event

def chunks (time : String) (e : Event) : List (List Char) :=
  [chunk 2 time.toList, chunk 0 [' '], chunk e.level.code e.level.name.toList, chunk 0 [' '],
    chunk 2 e.target.toList, chunk 0 [], chunk 2 [':'],
    chunk 0 (' ' :: (e.message.toList ++ [' ']))] ++ fieldChunks e.fields

theorem fields_ne_nil (e : Event) : e.fields ≠ [] := by
  cases e with
  | token t => exact List.cons_ne_nil _ _
  | error e => exact List.cons_ne_nil _ _
  | finished tokens => exact List.cons_ne_nil _ _

theorem toList_line (time : String) (e : Event) :
    (e.line time).toList = joined (e.chunks time) := by
  have hfields := toList_fields e.fields
  obtain ⟨f, more, hcons⟩ := List.exists_cons_of_ne_nil e.fields_ne_nil
  rw [hcons, List.map_cons] at hfields
  rw [line, Record.line, record, hcons, List.map_cons, String.intercalate_cons_cons, chunks,
    joined_append, hcons]
  simp only [String.toList_append, hfields]
  simp [Level.label, dimmed, rendition, chunk]

/-- No value of the event has a control character. -/
structure Legible (e : Event) : Prop where
  message : Plain e.message.toList
  fields : ∀ f ∈ e.fields, Plain f.2.toList

theorem plain_target (e : Event) : Plain e.target.toList := by
  have hscanner : Plain "gomi::lexer::scanner".toList := by decide
  have houtput : Plain "gomi::output".toList := by decide
  cases e with
  | token t => exact hscanner
  | error e => exact hscanner
  | finished tokens => exact houtput

theorem plain_name_of_mem_fields {e : Event} {f : String × String} (h : f ∈ e.fields) :
    Plain f.1.toList := by
  have hnames : ∀ name ∈ ["kind", "value", "line", "column", "tokens"], Plain name.toList := by
    decide
  have hmem : f.1 ∈ e.fields.map Prod.fst := List.mem_map_of_mem h
  apply hnames
  cases e with
  | token t => exact (by decide : ["kind", "value", "line", "column"] ⊆ _) hmem
  | error e => exact (by decide : ["kind", "line", "column"] ⊆ _) hmem
  | finished tokens => exact (by decide : ["tokens"] ⊆ _) hmem

theorem plain_of_mem_fieldChunks {fields : List (String × String)}
    (h : ∀ f ∈ fields, Plain f.1.toList ∧ Plain f.2.toList) :
    ∀ part ∈ fieldChunks fields, Plain part := by
  induction fields with
  | nil => exact nofun
  | cons f more ih =>
      obtain ⟨⟨hname, hvalue⟩, hmore⟩ := List.forall_mem_cons.1 h
      have hspace : Plain (if more.isEmpty then [] else [' ']) := by
        split
        · decide
        · decide
      simp only [fieldChunks, List.forall_mem_cons]
      exact ⟨plain_chunk 3 hname, plain_chunk 0 (by decide), plain_chunk 2 (by decide),
        plain_chunk 0 (hvalue.append hspace), ih hmore⟩

theorem plain_of_mem_chunks {time : String} {e : Event} (htime : Plain time.toList)
    (h : e.Legible) : ∀ part ∈ e.chunks time, Plain part := by
  have hname : Plain e.level.name.toList := by
    cases e.level <;> decide
  have hmessage : Plain (' ' :: (e.message.toList ++ [' '])) :=
    List.forall_mem_cons.2 ⟨by decide, h.message.append (by decide)⟩
  have hfields : ∀ part ∈ fieldChunks e.fields, Plain part :=
    plain_of_mem_fieldChunks fun f hf => ⟨plain_name_of_mem_fields hf, h.fields f hf⟩
  simp only [chunks, List.forall_mem_append, List.forall_mem_cons]
  exact ⟨⟨plain_chunk 2 htime, plain_chunk 0 (by decide), plain_chunk _ hname,
    plain_chunk 0 (by decide), plain_chunk 2 e.plain_target, plain_chunk 0 (by decide),
    plain_chunk 2 (by decide), plain_chunk 0 hmessage, nofun⟩, hfields⟩

/-- The line of an event says all of the event. -/
theorem ofLine?_line {time : String} {e : Event} (htime : Plain time.toList) (h : e.Legible) :
    Record.ofLine? (e.line time) = some e.record := by
  have hsplit : ([] ++ joined (e.chunks time)).splitOn '\x1b' = [] :: e.chunks time :=
    splitOn_joined (plain_of_mem_chunks htime h) nofun
  rw [Record.ofLine?, toList_line, ← List.nil_append (joined _), hsplit]
  simp only [chunks, List.cons_append, List.nil_append, chunkText_chunk, Level.ofName?_name,
    fields?_fieldChunks, List.tail_cons, List.dropLast_concat, String.ofList_toList]
  rfl

theorem newline_not_mem_line {time : String} {e : Event} (htime : Plain time.toList)
    (h : e.Legible) : '\n' ∉ (e.line time).toList := by
  rw [toList_line]
  exact newline_not_mem_joined (plain_of_mem_chunks htime h)

theorem legible_token {t : Token} (h : Plain t.value.toList) : (token t).Legible := by
  have hmessage : Plain "token".toList := by decide
  have hkind : ∀ kind ∈ Token.Kind.all, Plain kind.name.toList := by decide
  refine ⟨hmessage, ?_⟩
  simp only [fields, List.forall_mem_cons]
  exact ⟨hkind t.kind t.kind.mem_all, h, plain_repr t.line, plain_repr t.column, nofun⟩

theorem legible_error {e : LexError} (h : Plain e.message.toList) : (error e).Legible := by
  have hkind : Plain e.kind.name.toList := by
    cases e.kind <;> decide
  refine ⟨h, ?_⟩
  simp only [fields, List.forall_mem_cons]
  exact ⟨hkind, plain_repr e.line, plain_repr e.column, nofun⟩

theorem legible_finished (tokens : Nat) : (finished tokens).Legible := by
  have hmessage : Plain "scan finished".toList := by decide
  refine ⟨hmessage, ?_⟩
  simp only [fields, List.forall_mem_cons]
  exact ⟨plain_repr tokens, nofun⟩

end Event

/-- Each of these texts is one line, and it says what is asked of it. -/
structure Says (lines : List String) (records : List Record) : Prop where
  records_eq : lines.map Record.ofLine? = records.map some
  newline_not_mem : ∀ line ∈ lines, '\n' ∉ line.toList

theorem says_of_legible {time : String} {events : List Event} (htime : Plain time.toList)
    (h : ∀ e ∈ events, e.Legible) : Says (events.map (·.line time)) (events.map (·.record)) := by
  refine ⟨?_, ?_⟩
  · rw [List.map_map, List.map_map]
    apply List.map_congr_left
    intro e he
    rw [Function.comp_apply, Function.comp_apply, Event.ofLine?_line htime (h e he)]
  · intro line hline
    obtain ⟨e, he, rfl⟩ := List.mem_map.1 hline
    exact Event.newline_not_mem_line htime (h e he)

-- A value that looks like a part of its line.
example :
    Record.ofLine? ((Event.token ⟨.string, " line=2 ", 1, 3, ⟨2, 12⟩⟩).line "12:00") =
      some ⟨.trace, "gomi::lexer::scanner", "token",
        [("kind", "String"), ("value", " line=2 "), ("line", "1"), ("column", "3")]⟩ := by
  rw [Record.ofLine?, Event.toList_line]
  decide +kernel

end Log
end TwinScript
