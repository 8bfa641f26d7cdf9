import TwinScript.Proofs.Places

/-!
# Scanning with a cursor

`Reader.read` takes a lexeme off the text as a whole. A scanner goes character by character: it
keeps the mark at which the lexeme starts, moves the cursor on, and cuts the value out of the text
when it is through. Such a cut exists only if the marks are in order, and so does the difference of
offsets that is the length of an open literal. `Reader.scan?` reads in this way, with none where
something does not exist. On each form of the grammar it comes out as `Reader.read` does.
-/
namespace TwinScript
open Script Text
open Token (Kind)

namespace Cursor

/-- The text from the character with the given index up to the cursor; none unless the index is at
most that of the cursor, and that at most the length of the text. -/
def cutFrom? (c : Cursor) (index : Nat) : Option (List Char) :=
  if c.mark.index ≤ c.text.length then c.textFrom? index else none

def bytesFrom? (c : Cursor) (offset : Nat) : Option Nat :=
  if offset ≤ c.mark.offset then some (c.mark.offset - offset) else none

def cutToken? (c : Cursor) (start : Mark) (kind : List Char → Kind) :
    Option (Except LexError Token × Cursor) :=
  (c.cutFrom? start.index).map fun text =>
    (.ok ((Lexeme.plain (kind text) text).token start c.mark), c)

def number? (c : Cursor) (start : Mark) : Option (Except LexError Token × Cursor) :=
  let stop := c.skipWhile isDigit
  match stop.peek with
  | none => stop.cutToken? start fun _ => .int
  | some point =>
    if isDecimalPoint point then
      if stop.peekNext.any isDigit then
        (stop.advance.skipWhile isDigit).cutToken? start fun _ => .float
      else some (.error (.ofFault (.malformedFloat [] point) stop.mark), stop)
    else stop.cutToken? start fun _ => .int

/-- Passes a literal whose opening quote has been passed, and puts its value together. There is no
value when the literal is not closed on its line. -/
def closeLiteral (quote : Char) (value : List Char) (c : Cursor) : Option (List Char) × Cursor :=
  match h : c.rest with
  | [] => (none, c)
  | d :: ds =>
    have hone : c.advance.rest = ds := by simp only [advance, h]
    if d = quote then (some value, c.advance)
    else if d = '\\' then
      match ds with
      | [] => (none, c.advance)
      | e :: es =>
        have htwo : c.advance.advance.rest = es := by rw [advance, hone]
        if e = '\n' then (none, c.advance.advance)
        else closeLiteral quote (value ++ [e]) c.advance.advance
    else if d = '\n' then (none, c.advance)
    else closeLiteral quote (value ++ [d]) c.advance
termination_by c.rest.length
decreasing_by
  · rw [htwo, h, List.length_cons, List.length_cons]
    omega
  · rw [hone, h, List.length_cons]
    omega

def literal? (c : Cursor) (start : Mark) (quote : Char) :
    Option (Except LexError Token × Cursor) :=
  match c.advance.closeLiteral quote [] with
  | (some value, finish) => some (.ok (Lexeme.token ⟨.string, [], value⟩ start finish.mark), finish)
  | (none, finish) => (finish.bytesFrom? start.offset).map fun length =>
      (.error { LexError.ofFault (.unterminatedString []) start with length }, finish)

def lexeme? (c : Cursor) (start : Mark) (first : Char) : Option (Except LexError Token × Cursor) :=
  match Lead.ofChar? first with
  | none => some (.error (.ofFault (.unrecognized first) start), c)
  | some (.single kind) => c.advance.cutToken? start fun _ => kind
  | some (.pair alone) =>
    if c.peekNext.any isEqualsSign then c.advance.advance.cutToken? start fun _ => .binOp
    else c.advance.cutToken? start fun _ => alone
  | some .double =>
    if c.peekNext = some first then c.advance.advance.cutToken? start fun _ => .binOp
    else some (.error (.ofFault (.unrecognized first) start), c)
  | some .quote => c.literal? start first
  | some .digit => c.number? start
  | some .word => (c.skipWhile isWordPart).cutToken? start wordKind

end Cursor

/-- The next token or error, found by moving the cursor on and cutting the text behind it. -/
def Reader.scan? (r : Reader) : Option (Except LexError Token × Reader) :=
  let c := r.cursor.skipGap
  match c.peek with
  | none =>
    if r.finished then some (.error (.pastEnd c.mark), ⟨c, true⟩)
    else some (.ok (.endOfInput c.mark), ⟨c, true⟩)
  | some first =>
    (c.lexeme? c.mark first).map fun (result, after) => (result, ⟨after, r.finished⟩)

namespace Cursor

theorem advance_between (before : List Char) (c : Char) (rest : List Char) :
    (between before (c :: rest)).advance = between (before ++ [c]) rest :=
  skip_between before [c] rest

theorem skipWhile_between {p : Char → Bool} {P : Char → Prop} (hp : ∀ c, p c = true ↔ P c)
    (before : List Char) {as rest : List Char} (has : ∀ c ∈ as, P c) (hrest : ¬ StartsIn P rest) :
    (between before (as ++ rest)).skipWhile p = between (before ++ as) rest := by
  rw [skipWhile, rest_between, (span_of_stop hp as rest has hrest).1, skip_between]

theorem cutFrom?_between (before text rest : List Char) :
    (between (before ++ text) rest).cutFrom? before.length = some text := by
  have hindex : (between (before ++ text) rest).mark.index = before.length + text.length :=
    List.length_append
  have htext : (between (before ++ text) rest).text = before ++ text ++ rest := by
    simp [Cursor.text, between]
  have hpassed : (between (before ++ text) rest).passed = text.reverse ++ before.reverse :=
    List.reverse_append
  rw [cutFrom?, textFrom?, htext, hindex, hpassed, if_pos, if_pos (Nat.le_add_right _ _),
    Nat.add_sub_cancel_left, ← @List.length_reverse _ text, List.take_left,
    List.reverse_reverse]
  simp only [List.length_append]
  omega

theorem bytesFrom?_between (before text rest : List Char) :
    (between (before ++ text) rest).bytesFrom? (byteSize before) = some (byteSize text) := by
  have hoffset : (between (before ++ text) rest).mark.offset = byteSize before + byteSize text :=
    byteSize_append before text
  rw [bytesFrom?, hoffset, if_pos (Nat.le_add_right _ _), Nat.add_sub_cancel_left]

theorem cutToken?_between (before text rest : List Char) (kind : List Char → Kind) :
    (between (before ++ text) rest).cutToken? (.after before) kind =
      some (.ok ((Lexeme.plain (kind text) text).token (.after before) (.after (before ++ text))),
        between (before ++ text) rest) := by
  have hcut : (between (before ++ text) rest).cutFrom? (Mark.after before).index = some text :=
    cutFrom?_between before text rest
  rw [cutToken?, hcut]
  rfl

theorem cutToken?_advance (before : List Char) (c : Char) (rest : List Char)
    (kind : List Char → Kind) :
    (between before (c :: rest)).advance.cutToken? (.after before) kind =
      some (.ok ((Lexeme.plain (kind [c]) [c]).token (.after before) (.after (before ++ [c]))),
        between (before ++ [c]) rest) := by
  rw [advance_between, cutToken?_between]

theorem cutToken?_advance_advance (before : List Char) (c d : Char) (rest : List Char)
    (kind : List Char → Kind) :
    (between before (c :: d :: rest)).advance.advance.cutToken? (.after before) kind =
      some (.ok ((Lexeme.plain (kind [c, d]) [c, d]).token (.after before)
          (.after (before ++ [c, d]))),
        between (before ++ [c, d]) rest) := by
  rw [advance_between, advance_between, List.append_assoc, List.singleton_append,
    cutToken?_between]

section Numbers

variable (before : List Char) {whole decimals rest after : List Char} {point : Char}

theorem number?_of_int (hwhole : ∀ c ∈ whole, c ∈ digits)
    (hrest : ¬ StartsIn (fun c => c ∈ digits ∨ c ∈ decimalPoints) rest) :
    (between before (whole ++ rest)).number? (.after before) =
      (between (before ++ whole) rest).cutToken? (.after before) fun _ => .int := by
  have hstop : ¬ StartsIn (· ∈ digits) rest := fun ⟨c, hc, hdigit⟩ => hrest ⟨c, hc, Or.inl hdigit⟩
  rw [number?, skipWhile_between isDigit_iff before hwhole hstop]
  cases rest with
  | nil => rfl
  | cons c cs =>
      rw [startsIn_cons, not_or] at hrest
      have hpoint : ¬ isDecimalPoint c = true := fun h => hrest.2 ((isDecimalPoint_iff c).1 h)
      exact if_neg hpoint

theorem number?_of_float (hwhole : ∀ c ∈ whole, c ∈ digits) (hpoint : point ∈ decimalPoints)
    (hdec : decimals ≠ []) (hdecimals : ∀ c ∈ decimals, c ∈ digits)
    (hrest : ¬ StartsIn (· ∈ digits) rest) :
    (between before (whole ++ point :: (decimals ++ rest))).number? (.after before) =
      (between (before ++ (whole ++ point :: decimals)) rest).cutToken? (.after before)
        fun _ => .float := by
  have hstop : ¬ StartsIn (· ∈ digits) (point :: (decimals ++ rest)) := by
    rw [startsIn_cons]
    exact Lexeme.not_mem_digits_of_mem_decimalPoints point hpoint
  have hnext : (between (before ++ whole) (point :: (decimals ++ rest))).peekNext.any isDigit =
      true := by
    obtain ⟨d, ds, rfl⟩ := List.exists_cons_of_ne_nil hdec
    exact (isDigit_iff d).2 (hdecimals d (by simp))
  have hbehind : before ++ whole ++ [point] ++ decimals =
      before ++ (whole ++ point :: decimals) := by simp
  rw [number?, skipWhile_between isDigit_iff before hwhole hstop]
  change (if isDecimalPoint point = true then _ else _) = _
  rw [if_pos ((isDecimalPoint_iff point).2 hpoint), if_pos hnext, advance_between,
    skipWhile_between isDigit_iff _ hdecimals hrest, hbehind]

theorem number?_of_point (hwhole : ∀ c ∈ whole, c ∈ digits) (hpoint : point ∈ decimalPoints)
    (hafter : ¬ StartsIn (· ∈ digits) after) :
    (between before (whole ++ point :: after)).number? (.after before) =
      some (.error (.ofFault (.malformedFloat whole point) (.after before)),
        between (before ++ whole) (point :: after)) := by
  have hstop : ¬ StartsIn (· ∈ digits) (point :: after) := by
    rw [startsIn_cons]
    exact Lexeme.not_mem_digits_of_mem_decimalPoints point hpoint
  have hnext : ¬ (between (before ++ whole) (point :: after)).peekNext.any isDigit = true := by
    cases after with
    | nil => exact Bool.false_ne_true
    | cons d ds =>
        rw [startsIn_cons, ← isDigit_iff] at hafter
        exact hafter
  -- the error lies at the point, which is where the digits end
  have hplace : LexError.ofFault (.malformedFloat whole point) (.after before) =
      .ofFault (.malformedFloat [] point) (.after (before ++ whole)) := by
    simp only [LexError.ofFault, Fault.lead, Mark.past_after, Mark.past_nil]
    rfl
  rw [number?, skipWhile_between isDigit_iff before hwhole hstop, hplace]
  change (if isDecimalPoint point = true then _ else _) = _
  rw [if_pos ((isDecimalPoint_iff point).2 hpoint), if_neg hnext]
  rfl

theorem lexeme?_of_digits (hne : whole ≠ []) (hwhole : ∀ c ∈ whole, c ∈ digits)
    (rest : List Char) :
    ∃ first, (whole ++ rest).head? = some first ∧
      (between before (whole ++ rest)).lexeme? (.after before) first =
        (between before (whole ++ rest)).number? (.after before) := by
  obtain ⟨c, cs, rfl⟩ := List.exists_cons_of_ne_nil hne
  have hlead := (Lead.ofChar?_digit_iff c).2 (hwhole c (by simp))
  exact ⟨c, rfl, by simp only [lexeme?, hlead]⟩

end Numbers

section Literals

variable {quote : Char} {body value slash rest : List Char}

theorem closeLiteral_plain (before : List Char) {c : Char} (hquote : c ≠ quote) (hslash : c ≠ '\\')
    (hline : c ≠ '\n') (sofar rest : List Char) :
    (between before (c :: rest)).closeLiteral quote sofar =
      (between (before ++ [c]) rest).closeLiteral quote (sofar ++ [c]) := by
  rw [closeLiteral]
  simp only [rest_between, if_neg hquote, if_neg hslash, if_neg hline, advance_between]

theorem closeLiteral_escaped (before : List Char) (hquote : quote ∈ quotes) {c : Char}
    (hline : c ≠ '\n') (sofar rest : List Char) :
    (between before ('\\' :: c :: rest)).closeLiteral quote sofar =
      (between (before ++ ['\\', c]) rest).closeLiteral quote (sofar ++ [c]) := by
  have hslash : '\\' ≠ quote := (quote_ne quote hquote).1.symm
  rw [closeLiteral]
  simp only [rest_between, if_neg hslash, if_neg hline, if_true, advance_between,
    List.append_assoc, List.singleton_append]

theorem closeLiteral_contents (before : List Char) (hquote : quote ∈ quotes)
    (h : Contents quote body value) (sofar rest : List Char) :
    (between before (body ++ rest)).closeLiteral quote sofar =
      (between (before ++ body) rest).closeLiteral quote (sofar ++ value) := by
  induction h generalizing before sofar with
  | nil => simp
  | plain hc hslash hline h ih =>
      rw [List.cons_append, closeLiteral_plain before hc hslash hline, ih, List.append_assoc,
        List.append_assoc, List.singleton_append, List.singleton_append]
  | escaped hline h ih =>
      rw [List.cons_append, List.cons_append, closeLiteral_escaped before hquote hline, ih,
        List.append_assoc, List.append_assoc, List.singleton_append]
      rfl

theorem literal?_of_closed (before : List Char) (hquote : quote ∈ quotes)
    (hbody : Contents quote body value) (rest : List Char) :
    (between before (quote :: (body ++ quote :: rest))).literal? (.after before) quote =
      some (.ok (Lexeme.token ⟨.string, quote :: (body ++ [quote]), value⟩ (.after before)
          (.after (before ++ quote :: (body ++ [quote])))),
        between (before ++ quote :: (body ++ [quote])) rest) := by
  have hclose : (between (before ++ [quote] ++ body) (quote :: rest)).closeLiteral quote value =
      (some value, between (before ++ quote :: (body ++ [quote])) rest) := by
    rw [closeLiteral]
    simp [advance_between]
  rw [literal?, advance_between, closeLiteral_contents _ hquote hbody, List.nil_append, hclose]
  rfl

theorem closeLiteral_newline (before : List Char) (hquote : quote ∈ quotes)
    (hslash : Dangling slash) (sofar rest : List Char) :
    (between before (slash ++ ['\n'] ++ rest)).closeLiteral quote sofar =
      (none, between (before ++ (slash ++ ['\n'])) rest) := by
  obtain ⟨hback, hline⟩ := quote_ne quote hquote
  rcases hslash with rfl | rfl <;>
    rw [closeLiteral] <;>
    simp [hback.symm, hline.symm, advance_between]

theorem closeLiteral_end (before : List Char) (hquote : quote ∈ quotes) (hslash : Dangling slash)
    (sofar : List Char) :
    (between before (slash ++ [])).closeLiteral quote sofar =
      (none, between (before ++ slash) []) := by
  obtain ⟨hback, hline⟩ := quote_ne quote hquote
  rcases hslash with rfl | rfl <;>
    rw [closeLiteral] <;>
    simp [hback.symm, advance_between]

theorem literal?_of_open (before : List Char) (hquote : quote ∈ quotes)
    (hbody : Contents quote body value) {stop rest : List Char}
    (hclose : ∀ front, (between front (stop ++ rest)).closeLiteral quote value =
      (none, between (front ++ stop) rest)) :
    (between before (quote :: (body ++ (stop ++ rest)))).literal? (.after before) quote =
      some (.error (.ofFault (.unterminatedString (quote :: (body ++ stop))) (.after before)),
        between (before ++ quote :: (body ++ stop)) rest) := by
  have hfinish : before ++ [quote] ++ body ++ stop = before ++ quote :: (body ++ stop) := by simp
  have hbytes : (between (before ++ quote :: (body ++ stop)) rest).bytesFrom?
      (Mark.after before).offset = some (byteSize (quote :: (body ++ stop))) :=
    bytesFrom?_between before (quote :: (body ++ stop)) rest
  rw [literal?, advance_between, closeLiteral_contents _ hquote hbody, List.nil_append, hclose,
    hfinish]
  simp only [hbytes, Option.map_some]
  rfl

end Literals

/-- On a lexeme of the grammar the scanner cuts out the token of that lexeme. -/
theorem lexeme?_of_stands {lexeme : Lexeme} {rest : List Char} (h : lexeme.Stands rest)
    (before : List Char) :
    ∃ first, (lexeme.text ++ rest).head? = some first ∧
      (between before (lexeme.text ++ rest)).lexeme? (.after before) first =
        some (.ok (lexeme.token (.after before) (.after (before ++ lexeme.text))),
          between (before ++ lexeme.text) rest) := by
  cases h with
  | @punctuation c kind _ hc =>
      have hlead := (Lead.ofChar?_single_iff c kind).2 (Or.inl hc)
      refine ⟨c, rfl, ?_⟩
      simp only [lexeme?, hlead]
      exact cutToken?_advance before c rest _
  | @arithmetic c _ hc =>
      have hlead := (Lead.ofChar?_single_iff c .binOp).2 (Or.inr ⟨hc, rfl⟩)
      refine ⟨c, rfl, ?_⟩
      simp only [lexeme?, hlead]
      exact cutToken?_advance before c rest _
  | @pair c d alone _ hc hd =>
      have hlead := (Lead.ofChar?_pair_iff c alone).2 hc
      have hnext : (between before (c :: d :: rest)).peekNext.any isEqualsSign = true :=
        (isEqualsSign_iff d).2 hd
      refine ⟨c, rfl, ?_⟩
      simp only [lexeme?, hlead]
      exact (if_pos hnext).trans (cutToken?_advance_advance before c d rest _)
  | @alone c alone _ hc hrest =>
      have hlead := (Lead.ofChar?_pair_iff c alone).2 hc
      have hnext : ¬ (between before (c :: rest)).peekNext.any isEqualsSign = true := by
        cases rest with
        | nil => exact Bool.false_ne_true
        | cons d ds =>
            rw [startsIn_cons, ← isEqualsSign_iff] at hrest
            exact hrest
      refine ⟨c, rfl, ?_⟩
      simp only [lexeme?, hlead]
      exact (if_neg hnext).trans (cutToken?_advance before c rest _)
  | @double c _ hc =>
      have hlead := (Lead.ofChar?_double_iff c).2 hc
      refine ⟨c, rfl, ?_⟩
      simp only [lexeme?, hlead]
      exact (if_pos rfl).trans (cutToken?_advance_advance before c c rest _)
  | @string quote body value _ hquote hbody =>
      have hlead := (Lead.ofChar?_quote_iff quote).2 hquote
      have htext : quote :: (body ++ [quote]) ++ rest = quote :: (body ++ quote :: rest) := by simp
      refine ⟨quote, rfl, ?_⟩
      simp only [lexeme?, hlead, htext]
      exact literal?_of_closed before hquote hbody rest
  | @int whole _ hne hwhole hrest =>
      obtain ⟨first, hfirst, hscan⟩ := lexeme?_of_digits before hne hwhole rest
      refine ⟨first, hfirst, hscan.trans ?_⟩
      rw [number?_of_int before hwhole hrest]
      exact cutToken?_between before whole rest _
  | @float whole decimals _ point hne hwhole hpoint hdec hdecimals hrest =>
      have htext : whole ++ point :: decimals ++ rest = whole ++ point :: (decimals ++ rest) := by
        simp
      obtain ⟨first, hfirst, hscan⟩ :=
        lexeme?_of_digits before hne hwhole (point :: (decimals ++ rest))
      dsimp only
      rw [htext]
      refine ⟨first, hfirst, hscan.trans ?_⟩
      rw [number?_of_float before hwhole hpoint hdec hdecimals hrest]
      exact cutToken?_between before (whole ++ point :: decimals) rest _
  | @word c letters _ hc hletters hrest =>
      have hlead := (Lead.ofChar?_word_iff c).2 hc
      have hall : ∀ d ∈ c :: letters, WordPart d := List.forall_mem_cons.2 ⟨Or.inl hc, hletters⟩
      have hskip := skipWhile_between isWordPart_iff before hall hrest
      refine ⟨c, rfl, ?_⟩
      simp only [lexeme?, hlead]
      rw [hskip]
      exact cutToken?_between before (c :: letters) rest _

theorem lexeme?_of_fault {fault : Fault} {rest : List Char}
    (h : fault.Stands (fault.passed ++ rest)) (before : List Char) :
    ∃ first, (fault.passed ++ rest).head? = some first ∧
      (between before (fault.passed ++ rest)).lexeme? (.after before) first =
        some (.error (.ofFault fault (.after before)), between (before ++ fault.passed) rest) := by
  generalize htext : fault.passed ++ rest = text at h
  cases h with
  | @stray c after hc =>
      obtain rfl : rest = c :: after := htext
      have hlead := (Lead.ofChar?_eq_none_iff c).2 hc.2
      refine ⟨c, rfl, ?_⟩
      simp only [lexeme?, hlead, Fault.passed, List.append_nil]
  | @half c after hc hafter =>
      obtain rfl : rest = c :: after := htext
      have hlead := (Lead.ofChar?_double_iff c).2 hc
      have hnext : ¬ (between before (c :: after)).peekNext = some c := fun heq =>
        hafter ⟨c, heq, rfl⟩
      refine ⟨c, rfl, ?_⟩
      simp only [lexeme?, hlead, if_neg hnext, Fault.passed, List.append_nil]
  | @point whole after point hne hwhole hpoint hafter =>
      obtain rfl : rest = point :: after := List.append_cancel_left htext
      obtain ⟨first, hfirst, hscan⟩ := lexeme?_of_digits before hne hwhole (point :: after)
      exact ⟨first, hfirst, hscan.trans (number?_of_point before hwhole hpoint hafter)⟩
  | @atNewline quote body value slash after hquote hbody hslash =>
      obtain rfl : rest = after := by simpa [Fault.passed] using htext
      have hlead := (Lead.ofChar?_quote_iff quote).2 hquote
      have hscan := literal?_of_open before hquote hbody fun front =>
        closeLiteral_newline front hquote hslash value rest
      refine ⟨quote, rfl, ?_⟩
      simp only [lexeme?, hlead, Fault.passed]
      simpa only [List.append_assoc, List.singleton_append] using hscan
  | @atEnd quote body value slash hquote hbody hslash =>
      obtain rfl : rest = [] := by simpa [Fault.passed] using htext
      have hlead := (Lead.ofChar?_quote_iff quote).2 hquote
      have hscan := literal?_of_open before hquote hbody fun front =>
        closeLiteral_end front hquote hslash value
      refine ⟨quote, rfl, ?_⟩
      simp only [lexeme?, hlead, Fault.passed]
      simpa only [List.append_nil] using hscan

end Cursor

namespace Reader

variable {before rest : List Char} {finished : Bool} {result : Except LexError Token} {r : Reader}

theorem Step.scan?_eq (h : Step before finished rest result r) :
    (between before rest finished).scan? = some (result, r) := by
  cases h with
  | @token gap rest lexeme hgap h =>
      have hskip := Cursor.skipGap_between before gap _ hgap h.not_startsIn_part
      obtain ⟨first, hfirst, hscan⟩ := Cursor.lexeme?_of_stands h (before ++ gap)
      simp only [scan?, between, hskip, Cursor.peek, Cursor.rest_between, hfirst,
        Cursor.mark_between, hscan, Option.map_some]
  | @fault gap rest fault hgap h =>
      have hskip := Cursor.skipGap_between before gap _ hgap h.not_startsIn_part
      obtain ⟨first, hfirst, hscan⟩ := Cursor.lexeme?_of_fault h (before ++ gap)
      simp only [scan?, between, hskip, Cursor.peek, Cursor.rest_between, hfirst,
        Cursor.mark_between, hscan, Option.map_some]
  | endOfInput hgap hfinished =>
      have hskip := Cursor.skipGap_between before rest [] hgap (not_startsIn_nil _)
      rw [List.append_nil] at hskip
      simp [scan?, between, hskip, Cursor.peek, hfinished]
  | pastEnd hgap hfinished =>
      have hskip := Cursor.skipGap_between before rest [] hgap (not_startsIn_nil _)
      rw [List.append_nil] at hskip
      simp [scan?, between, hskip, Cursor.peek, hfinished]

/-- Wherever a reader stands in its source, scanning is reading. -/
theorem Within.scan?_eq_read {source : List Char} (h : Within source r) :
    r.scan? = some r.read := by
  obtain ⟨before, rest, finished, -, -⟩ := h
  exact (read_eq_iff_step.1 rfl).scan?_eq

end Reader
end TwinScript
