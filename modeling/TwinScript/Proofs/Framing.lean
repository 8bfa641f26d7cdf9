import TwinScript.Proofs.FirstError
import TwinScript.Proofs.Literals
import TwinScript.Proofs.Printing

/-!
# Lines of a listing

Every line of a listing ends with a newline and has no other newline in it, because no value has
one: a literal ends on its line, and nothing escaped in it stands for a newline. So the text that a
listing writes can be cut into the lines of its tokens. A plain line shows the value of a token
between quotes as it is. Nothing before the value has a quote, and after it come only two numbers,
so the value lies between the first and the last quote of the line, whatever quotes it has itself.
-/
namespace TwinScript
open Script Text

namespace Transcript

theorem splitOn_unlines {lines : List String} (h : ∀ line ∈ lines, '\n' ∉ line.toList) :
    (unlines lines).toList.splitOn '\n' = lines.map String.toList ++ [[]] := by
  induction lines with
  | nil => simp [unlines]
  | cons line lines ih =>
      rw [List.forall_mem_cons] at h
      have htext : (unlines (line :: lines)).toList =
          line.toList ++ '\n' :: (unlines lines).toList := by simp [unlines]
      have hline : ∀ c ∈ line.toList, (c == '\n') = false := by
        rintro c hc
        rw [beq_eq_false_iff_ne]
        rintro rfl
        exact h.1 hc
      rw [List.splitOn_eq_splitOnP] at ih ⊢
      rw [htext, List.splitOnP_append_cons_of_forall_mem hline _ (beq_self_eq_true _), ih h.2]
      rfl

end Transcript

/-- A value never has a newline: it would have ended the lexeme. -/
theorem Lexeme.Stands.newline_not_mem_value {lexeme : Lexeme} {rest : List Char}
    (h : lexeme.Stands rest) : '\n' ∉ lexeme.value := by
  have hpunctuation : ∀ p ∈ Script.punctuation, '\n' ≠ p.1 := by decide
  have hcomparisons : ∀ p ∈ comparisons, '\n' ≠ p.1 := by decide
  cases h with
  | punctuation hc => simpa [plain] using hpunctuation _ hc
  | @arithmetic c _ hc =>
      have hne : '\n' ≠ c := of_listed hc (by decide)
      simpa [plain] using hne
  | @pair c d _ _ hc hd =>
      have hne : '\n' ≠ d := of_listed hd (by decide)
      simpa [plain] using ⟨hcomparisons _ hc, hne⟩
  | alone hc hrest => simpa [plain] using hcomparisons _ hc
  | @double c _ hc =>
      have hne : '\n' ≠ c := of_listed hc (by decide)
      simpa [plain] using hne
  | string hquote hbody => exact (Literal.contents_iff_encodes.1 hbody).1
  | int hne hwhole hrest => exact newline_not_mem_of_digits _ hwhole
  | @float whole decimals _ point hne hwhole hpoint hdec hdecimals hrest =>
      have hpoint' : '\n' ≠ point := of_listed hpoint (by decide)
      have hparts := newline_not_mem_of_digits _ hwhole
      have hmore := newline_not_mem_of_digits _ hdecimals
      intro hmem
      rcases List.mem_append.1 hmem with hmem | hmem
      · exact hparts hmem
      · exact (List.mem_cons.1 hmem).elim hpoint' hmore
  | word hc hletters hrest =>
      have hpart : ¬ WordPart '\n' := by decide
      have hall := List.forall_mem_cons.2 ⟨show WordPart _ from Or.inl hc, hletters⟩
      exact fun hmem => hpart (hall _ hmem)

namespace Reader

theorem Step.newline_not_mem_value {before rest : List Char} {finished : Bool}
    {result : Except LexError Token} {r : Reader} (h : Step before finished rest result r) :
    ∀ t, result = .ok t → '\n' ∉ t.value.toList := by
  cases h with
  | @token gap rest lexeme hgap h =>
      rintro t ⟨⟩
      change '\n' ∉ (String.ofList lexeme.value).toList
      rw [String.toList_ofList]
      exact h.newline_not_mem_value
  | fault hgap h => exact nofun
  | endOfInput hgap hfinished =>
      rintro t ⟨⟩
      change '\n' ∉ "EOF".toList
      decide
  | pastEnd hgap hfinished => exact nofun

theorem newline_not_mem_of_mem_run {source : List Char} {t : Token}
    (h : t ∈ (ofText source).run.tokens) : '\n' ∉ t.value.toList := by
  have hall := (reads_run (ofText source)).forall_mem
    (fun _ _ _ _ _ _ hstep => hstep.newline_not_mem_value) (within_ofText source)
  exact hall (.ok t) (List.mem_append_left _ (List.mem_map_of_mem h)) t rfl

end Reader

/-- What a plain line shows of a token: all but the bytes it covers. -/
structure Shown where
  kind : Token.Kind
  value : String
  line : Nat
  column : Nat
  deriving DecidableEq, Repr

def Token.shown (t : Token) : Shown := ⟨t.kind, t.value, t.line, t.column⟩

namespace Format

def shownValue (line : List Char) : List Char :=
  ((line.dropWhile (· != '"')).tail.reverse.dropWhile (· != '"')).tail.reverse

def shownPlace (line : List Char) : List Char :=
  (line.reverse.takeWhile (· != '"')).reverse.drop 2

/-- Reads a plain line: the kind before the first comma, the value between the outermost quotes, and
two numbers behind them. -/
def read? (line : String) : Option Shown := do
  let kind ← Token.Kind.ofName? (shownKind line)
  let place := shownPlace line.toList
  let column := (place.dropWhile Char.isDigit).tail
  return {
    kind
    value := String.ofList (shownValue line.toList)
    line := Nat.ofDigitChars 10 (place.takeWhile Char.isDigit) 0
    column := Nat.ofDigitChars 10 (column.takeWhile Char.isDigit) 0 }

def lineFront (t : Token) : List Char :=
  (rendition 93).toList ++ '\x7b' :: ' ' :: (t.kind.name.toList ++ [',', ' '])

def lineEnd : List Char := ' ' :: '\x7d' :: (rendition 39).toList

def linePlace (t : Token) : List Char :=
  t.line.repr.toList ++ ':' :: (t.column.repr.toList ++ lineEnd)

theorem toList_plain (t : Token) :
    (plain.line t).toList =
      lineFront t ++ '"' :: (t.value.toList ++ '"' :: ',' :: ' ' :: linePlace t) := by
  simp [line, Token.display, Colour.paint, Colour.code, lineFront, linePlace, lineEnd]

theorem quote_not_mem_lineFront (t : Token) : '"' ∉ lineFront t := by
  have hnames : ∀ kind ∈ Token.Kind.all, '"' ∉ kind.name.toList := by decide +kernel
  have hcolour : '"' ∉ (rendition 93).toList := by decide +kernel
  simp [lineFront, hnames t.kind t.kind.mem_all, hcolour]

theorem isDigit_or_mem_lineEnd {t : Token} {c : Char} (h : c ∈ linePlace t) :
    c.isDigit = true ∨ c = ':' ∨ c ∈ lineEnd := by
  rw [linePlace, List.mem_append, List.mem_cons, List.mem_append] at h
  rcases h with h | h | h | h
  · exact Or.inl (isDigit_of_mem_repr h)
  · exact Or.inr (Or.inl h)
  · exact Or.inl (isDigit_of_mem_repr h)
  · exact Or.inr (Or.inr h)

theorem quote_not_mem_linePlace (t : Token) : '"' ∉ ',' :: ' ' :: linePlace t := by
  have hend : '"' ∉ lineEnd := by decide +kernel
  intro hmem
  rcases List.mem_cons.1 hmem with hcomma | hmem
  · exact absurd hcomma (by decide)
  rcases List.mem_cons.1 hmem with hspace | hmem
  · exact absurd hspace (by decide)
  rcases isDigit_or_mem_lineEnd hmem with hdigit | hcolon | hmem
  · exact absurd hdigit (by decide)
  · exact absurd hcolon (by decide)
  · exact hend hmem

theorem shownValue_plain (t : Token) : shownValue (plain.line t).toList = t.value.toList := by
  have hfront : ∀ c ∈ lineFront t, c ≠ '"' := fun c hc heq =>
    quote_not_mem_lineFront t (heq ▸ hc)
  have hback : ∀ c ∈ (',' :: ' ' :: linePlace t).reverse, c ≠ '"' := fun c hc heq =>
    quote_not_mem_linePlace t (heq ▸ List.mem_reverse.1 hc)
  obtain ⟨-, hdrop⟩ := span_of_stop (p := (· != '"')) (fun c => bne_iff_ne) (lineFront t)
    ('"' :: (t.value.toList ++ '"' :: ',' :: ' ' :: linePlace t)) hfront (by simp)
  obtain ⟨-, hdrop'⟩ := span_of_stop (p := (· != '"')) (fun c => bne_iff_ne)
    (',' :: ' ' :: linePlace t).reverse ('"' :: t.value.toList.reverse) hback (by simp)
  have hreverse : (t.value.toList ++ '"' :: ',' :: ' ' :: linePlace t).reverse =
      (',' :: ' ' :: linePlace t).reverse ++ '"' :: t.value.toList.reverse := by simp
  rw [shownValue, toList_plain, hdrop, List.tail_cons, hreverse, hdrop', List.tail_cons,
    List.reverse_reverse]

theorem shownPlace_plain (t : Token) : shownPlace (plain.line t).toList = linePlace t := by
  have hback : ∀ c ∈ (',' :: ' ' :: linePlace t).reverse, c ≠ '"' := fun c hc heq =>
    quote_not_mem_linePlace t (heq ▸ List.mem_reverse.1 hc)
  have hreverse : (plain.line t).toList.reverse = (',' :: ' ' :: linePlace t).reverse ++
      '"' :: (t.value.toList.reverse ++ '"' :: (lineFront t).reverse) := by simp [toList_plain]
  obtain ⟨htake, -⟩ := span_of_stop (p := (· != '"')) (fun c => bne_iff_ne)
    (',' :: ' ' :: linePlace t).reverse
    ('"' :: (t.value.toList.reverse ++ '"' :: (lineFront t).reverse)) hback (by simp)
  rw [shownPlace, hreverse, htake, List.reverse_reverse]
  rfl

/-- A plain line shows what it shows unambiguously. -/
theorem read?_plain (t : Token) : read? (plain.line t) = some t.shown := by
  obtain ⟨hline, hbehind⟩ := span_of_stop (p := Char.isDigit) (fun c => Iff.rfl)
    t.line.repr.toList (':' :: (t.column.repr.toList ++ lineEnd))
    (fun c hc => isDigit_of_mem_repr hc) (by simp)
  obtain ⟨hcolumn, -⟩ := span_of_stop (p := Char.isDigit) (fun c => Iff.rfl)
    t.column.repr.toList lineEnd (fun c hc => isDigit_of_mem_repr hc) (by simp [lineEnd])
  simp only [read?, shownKind_plain, Token.Kind.ofName?_name, shownValue_plain, shownPlace_plain,
    linePlace, hline, hbehind, List.tail_cons, hcolumn, ofDigitChars_repr, String.ofList_toList,
    Option.bind_eq_bind, Option.bind_some, Option.pure_def]
  rfl

-- A value that looks like the end of its line.
example :
    read? (plain.line ⟨.string, "a\", 9:9 \x7d", 1, 2, ⟨3, 15⟩⟩) =
      some ⟨.string, "a\", 9:9 \x7d", 1, 2⟩ := by
  decide +kernel

theorem plain_eq_plain_iff (t u : Token) : plain.line t = plain.line u ↔ t.shown = u.shown := by
  constructor
  · intro h
    have hread := read?_plain t
    rw [h, read?_plain] at hread
    exact (Option.some.inj hread).symm
  · intro h
    obtain ⟨hkind, hvalue, hline, hcolumn⟩ := Shown.mk.inj h
    simp only [line, Token.display, hkind, hvalue, hline, hcolumn]

theorem newline_not_mem_plain {t : Token} (h : '\n' ∉ t.value.toList) :
    '\n' ∉ (plain.line t).toList := by
  have hnames : ∀ kind ∈ Token.Kind.all, '\n' ∉ kind.name.toList := by decide +kernel
  have hcolour : '\n' ∉ (rendition 93).toList := by decide +kernel
  have hend : '\n' ∉ lineEnd := by decide +kernel
  have hfront : '\n' ∉ lineFront t := by
    simp [lineFront, hnames t.kind t.kind.mem_all, hcolour]
  have hplace : '\n' ∉ linePlace t := by
    intro hmem
    rcases isDigit_or_mem_lineEnd hmem with hdigit | hcolon | hmem
    · exact absurd hdigit (by decide)
    · exact absurd hcolon (by decide)
    · exact hend hmem
  simp [toList_plain, hfront, h, hplace]

end Format

namespace Listing

theorem splitOn_stdout_ofSource (format : Format) (s : String)
    (h : ∀ t ∈ (Reader.ofText s.toList).run.tokens, '\n' ∉ (format.line t).toList) :
    (ofSource format s).entries.stdout.toList.splitOn '\n' =
      (Reader.ofText s.toList).run.tokens.map (fun t => (format.line t).toList) ++ [[]] := by
  have hlines : ∀ line ∈ (Reader.ofText s.toList).run.tokens.map format.line,
      '\n' ∉ line.toList := by
    intro line hline
    obtain ⟨t, ht, rfl⟩ := List.mem_map.1 hline
    exact h t ht
  have hsplit := Transcript.splitOn_unlines hlines
  rw [List.map_map] at hsplit
  rw [stdout_ofSource]
  exact hsplit

end Listing

/-- A plain listing is cut by its newlines into one line for each token that is read, in order, and
each line gives back the kind, the value, the line and the column of its token. Two tokens have the
same line only if they agree in all four. -/
theorem plain_listing_decodes (s : String) :
    (Listing.ofSource .plain s).entries.stdout.toList.splitOn '\n' =
        (Reader.ofText s.toList).run.tokens.map (fun t => (Format.plain.line t).toList) ++ [[]] ∧
      (∀ t : Token, Format.read? (Format.plain.line t) = some ⟨t.kind, t.value, t.line, t.column⟩) ∧
      ∀ t u : Token, Format.plain.line t = Format.plain.line u ↔
        t.kind = u.kind ∧ t.value = u.value ∧ t.line = u.line ∧ t.column = u.column := by
  refine ⟨?_, Format.read?_plain, ?_⟩
  · apply Listing.splitOn_stdout_ofSource
    intro t ht
    exact Format.newline_not_mem_plain (Reader.newline_not_mem_of_mem_run ht)
  · intro t u
    rw [Format.plain_eq_plain_iff, Token.shown, Token.shown, Shown.mk.injEq]

end TwinScript
