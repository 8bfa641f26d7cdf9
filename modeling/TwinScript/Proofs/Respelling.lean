import Mathlib.Data.List.Find
import Mathlib.Data.List.Forall2
import TwinScript.Proofs.Runs

/-!
# Texts respelled in the other script

A respelling exchanges characters for others with the same narrow form. Every class of characters is
a class of narrow forms, so a respelled text has the layout of the text it comes from, piece by
piece. Only a sign that must be written twice is compared with itself and not with its twin: a pair
of unlike twins is an error that a respelling can remove.
-/
namespace TwinScript
open Script Text
open Token (Kind)

namespace Script

def Lone (c : Char) : Prop := narrow c = c ∧ ∀ p ∈ twins, p.2 ≠ c

instance (c : Char) : Decidable (Lone c) := inferInstanceAs (Decidable (_ ∧ _))

theorem Lone.narrow_eq_iff {d : Char} (hd : Lone d) (c : Char) : narrow c = d ↔ c = d := by
  rw [Script.narrow_eq_iff c d hd.1]
  constructor
  · rintro (heq | hmem)
    · exact heq
    · exact absurd rfl (hd.2 _ hmem)
  · exact Or.inl

theorem lone_of_isWordStart {c : Char} (h : isWordStart c = true) : Lone c := by
  have hfirst : ∀ p ∈ twins, ¬ isWordStart p.1 = true := by decide
  have hsecond : ∀ p ∈ twins, ¬ isWordStart p.2 = true := by decide
  constructor
  · rcases narrow_eq_self_or_twin c with hself | htwin
    · exact hself
    · exact absurd h (hfirst _ htwin)
  · rintro p hp rfl
    exact hsecond p hp h

theorem lone_of_mem_quotes {quote : Char} (h : quote ∈ quotes) : Lone quote := by
  exact of_listed h (by decide)

section Classes

variable {c d : Char}

theorem isWordStart_of_narrow_eq (h : narrow d = narrow c) (hc : isWordStart c = true) :
    isWordStart d = true := by
  have hlone := lone_of_isWordStart hc
  rw [hlone.1, hlone.narrow_eq_iff] at h
  rwa [h]

theorem isWordStart_congr (h : narrow d = narrow c) : isWordStart d = isWordStart c := by
  rw [Bool.eq_iff_iff]
  exact ⟨isWordStart_of_narrow_eq h.symm, isWordStart_of_narrow_eq h⟩

theorem ofChar?_congr (h : narrow d = narrow c) : Lead.ofChar? d = Lead.ofChar? c := by
  unfold Lead.ofChar?
  rw [isWordStart_congr h, isDigit, isDigit, h]

theorem comparisons_congr (h : narrow d = narrow c) (alone : Kind) :
    (d, alone) ∈ comparisons ↔ (c, alone) ∈ comparisons := by
  rw [← Lead.ofChar?_pair_iff, ← Lead.ofChar?_pair_iff, ofChar?_congr h]

/-- Whether a list of characters holds every spelling of each of them. -/
def hasTwins (as : List Char) : Bool :=
  as.all fun c => as.contains (narrow c) && twins.all fun p => p.2 != narrow c || as.contains p.1

theorem mem_of_narrow_eq {as : List Char} (has : hasTwins as = true) (h : narrow d = narrow c)
    (hc : c ∈ as) : d ∈ as := by
  have hall := List.all_eq_true.1 has c hc
  rw [Bool.and_eq_true, List.contains_iff_mem, List.all_eq_true] at hall
  rcases (Script.narrow_eq_iff d (narrow c) (narrow_narrow c)).1 h with hself | htwin
  · rw [hself]
    exact hall.1
  · have hmem := hall.2 _ htwin
    simpa using hmem

theorem mem_congr (as : List Char) (has : hasTwins as = true) (h : narrow d = narrow c) :
    d ∈ as ↔ c ∈ as :=
  ⟨mem_of_narrow_eq has h.symm, mem_of_narrow_eq has h⟩

theorem wordPart_congr (h : narrow d = narrow c) : WordPart d ↔ WordPart c := by
  rw [WordPart, WordPart, isWordStart_congr h, mem_congr digits (by decide) h,
    mem_congr underscores (by decide) h]

theorem part_congr (h : narrow d = narrow c) : Gap.Part d ↔ Gap.Part c := by
  rw [Gap.Part, Gap.Part, mem_congr spaces (by decide) h, mem_congr commentMarks (by decide) h]

theorem stray_congr (h : narrow d = narrow c) : Stray d ↔ Stray c := by
  rw [Stray, Stray, part_congr h, ← Lead.ofChar?_eq_none_iff, ← Lead.ofChar?_eq_none_iff,
    ofChar?_congr h]

theorem twins_of_mem_doubled (hc : c ∈ doubled) (h : narrow d = narrow c) (hne : d ≠ c) :
    (c, d) ∈ twins ∨ (d, c) ∈ twins := by
  have honly : ∀ p ∈ twins, ∀ q ∈ twins, p.1 ∈ doubled → q.2 = p.2 → q.1 = p.1 := by decide
  rcases narrow_eq_self_or_twin c with hself | htwin <;>
    rcases narrow_eq_self_or_twin d with hself' | htwin'
  · exact absurd (hself'.symm.trans (h.trans hself)) hne
  · exact Or.inr (by rwa [h, hself] at htwin')
  · exact Or.inl (by rwa [← h, hself'] at htwin)
  · exact absurd (honly _ htwin _ htwin' hc h) hne

end Classes
end Script

theorem Lexeme.Stands.single {c : Char} {kind : Kind} (rest : List Char)
    (h : Lead.ofChar? c = some (.single kind)) : (plain kind [c]).Stands rest := by
  rcases (Lead.ofChar?_single_iff c kind).1 h with hc | ⟨hc, rfl⟩
  · exact .punctuation hc
  · exact .arithmetic hc

def Lexeme.map (ρ : Char → Char) (lexeme : Lexeme) : Lexeme :=
  ⟨lexeme.kind, lexeme.text.map ρ, lexeme.value.map ρ⟩

def Fault.map (ρ : Char → Char) : Fault → Fault
  | unrecognized c => unrecognized (ρ c)
  | unterminatedString text => unterminatedString (text.map ρ)
  | malformedFloat digits point => malformedFloat (digits.map ρ) (ρ point)

def Piece.map (ρ : Char → Char) (p : Piece) : Piece := ⟨p.gap.map ρ, p.lexeme.map ρ⟩

theorem Piece.textOf_map (ρ : Char → Char) (pieces : List Piece) :
    textOf (pieces.map (Piece.map ρ)) = (textOf pieces).map ρ := by
  induction pieces with
  | nil => rfl
  | cons p ps ih => simp only [List.map_cons, textOf, ih, text, map, Lexeme.map, List.map_append]

theorem Text.not_startsIn_map {ρ : Char → Char} {P : Char → Prop} {text : List Char}
    (hP : ∀ c, P (ρ c) ↔ P c) (h : ¬ StartsIn P text) : ¬ StartsIn P (text.map ρ) := by
  cases text with
  | nil => exact h
  | cons c cs => rwa [List.map_cons, startsIn_cons, hP, ← startsIn_cons P c cs]

/-- A map of characters that keeps their narrow forms. -/
def Respells (ρ : Char → Char) : Prop := ∀ c, narrow (ρ c) = narrow c

namespace Respells

variable {ρ : Char → Char} (hρ : Respells ρ)
include hρ

theorem eq_iff {d : Char} (hd : Lone d) (c : Char) : ρ c = d ↔ c = d := by
  rw [← hd.narrow_eq_iff, hρ, hd.narrow_eq_iff]

theorem map_eq_iff (word : List Char) (hword : ∀ c ∈ word, Lone c) (text : List Char) :
    text.map ρ = word ↔ text = word := by
  induction word generalizing text with
  | nil => exact List.map_eq_nil_iff
  | cons w ws ih =>
      obtain ⟨hw, hws⟩ := List.forall_mem_cons.1 hword
      cases text with
      | nil => simp
      | cons c cs => rw [List.map_cons, List.cons.injEq, List.cons.injEq, hρ.eq_iff hw, ih hws]

theorem newline_not_mem {text : List Char} (h : '\n' ∉ text) : '\n' ∉ text.map ρ := by
  intro hmem
  obtain ⟨c, hc, heq⟩ := List.mem_map.1 hmem
  rw [hρ.eq_iff (by decide)] at heq
  rw [heq] at hc
  exact h hc

theorem forall_mem_digits {whole : List Char} (h : ∀ c ∈ whole, c ∈ digits) :
    ∀ c ∈ whole.map ρ, c ∈ digits := by
  intro d hd
  obtain ⟨c, hc, rfl⟩ := List.mem_map.1 hd
  exact (mem_congr digits (by decide) (hρ c)).2 (h c hc)

theorem wordKind_map (letters : List Char) : wordKind (letters.map ρ) = wordKind letters := by
  have hletters : ∀ keyword ∈ Keyword.all,
      (keyword.latin.toList ++ keyword.japanese.toList).all isWordStart = true := by
    decide +kernel
  have hspells : ∀ spelling : String, (∀ c ∈ spelling.toList, isWordStart c = true) →
      (String.ofList (letters.map ρ) == spelling) = (String.ofList letters == spelling) := by
    intro spelling hspelling
    have hmap := hρ.map_eq_iff spelling.toList
      (fun c hc => lone_of_isWordStart (hspelling c hc)) letters
    rw [Bool.eq_iff_iff, beq_iff_eq, beq_iff_eq, ← String.toList_inj, ← String.toList_inj,
      String.toList_ofList, String.toList_ofList]
    exact hmap
  have hfind : Keyword.all.find? (·.spells (String.ofList (letters.map ρ))) =
      Keyword.all.find? (·.spells (String.ofList letters)) := by
    apply List.find?_congr
    intro keyword hkeyword
    have hall := List.forall_mem_append.1 (List.all_eq_true.1 (hletters keyword hkeyword))
    rw [Keyword.spells, Keyword.spells, hspells _ hall.1, hspells _ hall.2]
  rw [wordKind, wordKind, Keyword.kindOf?, Keyword.kindOf?, hfind]

theorem gap_stands {gap rest : List Char} (h : Gap.Stands gap rest) :
    Gap.Stands (gap.map ρ) (rest.map ρ) := by
  induction h with
  | nil rest => exact .nil _
  | space hc h ih => exact .space ((mem_congr spaces (by decide) (hρ _)).2 hc) ih
  | comment hmark hbody hend h ih =>
      rw [List.map_cons, List.map_append]
      refine .comment ((mem_congr commentMarks (by decide) (hρ _)).2 hmark)
        (hρ.newline_not_mem hbody) ?_ ih
      rw [← List.map_append]
      exact not_startsIn_map (fun c => not_congr (hρ.eq_iff (by decide) c)) hend

theorem contents {quote : Char} {body value : List Char} (hquote : Lone quote)
    (h : Contents quote body value) : Contents quote (body.map ρ) (value.map ρ) := by
  have hslash : Lone '\\' := by decide
  have hline : Lone '\n' := by decide
  induction h with
  | nil => exact .nil
  | plain hc hs hn h ih =>
      refine .plain ?_ ?_ ?_ ih
      · exact mt (hρ.eq_iff hquote _).1 hc
      · exact mt (hρ.eq_iff hslash _).1 hs
      · exact mt (hρ.eq_iff hline _).1 hn
  | escaped hn h ih =>
      rw [List.map_cons, List.map_cons, List.map_cons, (hρ.eq_iff hslash _).2 rfl]
      exact .escaped (mt (hρ.eq_iff hline _).1 hn) ih

theorem lexeme_stands {lexeme : Lexeme} {rest : List Char} (h : lexeme.Stands rest) :
    (lexeme.map ρ).Stands (rest.map ρ) := by
  cases h with
  | @punctuation c kind _ hc =>
      have hlead := (Lead.ofChar?_single_iff c kind).2 (Or.inl hc)
      exact .single _ ((ofChar?_congr (hρ c)).trans hlead)
  | @arithmetic c _ hc =>
      have hlead := (Lead.ofChar?_single_iff c .binOp).2 (Or.inr ⟨hc, rfl⟩)
      exact .single _ ((ofChar?_congr (hρ c)).trans hlead)
  | @pair c d alone _ hc hd =>
      exact .pair ((comparisons_congr (hρ c) alone).2 hc)
        ((mem_congr equalsSigns (by decide) (hρ d)).2 hd)
  | @alone c alone _ hc hrest =>
      refine .alone ((comparisons_congr (hρ c) alone).2 hc) (not_startsIn_map ?_ hrest)
      exact fun d => mem_congr equalsSigns (by decide) (hρ d)
  | @double c _ hc => exact .double ((mem_congr doubled (by decide) (hρ c)).2 hc)
  | @string quote body value _ hquote hbody =>
      have hlone := lone_of_mem_quotes hquote
      have hfix := (hρ.eq_iff hlone _).2 rfl
      have hstands := @Lexeme.Stands.string _ _ _ (rest.map ρ) hquote (hρ.contents hlone hbody)
      simpa only [Lexeme.map, List.map_cons, List.map_append, List.map_nil, hfix] using hstands
  | @int whole _ hne hwhole hrest =>
      have hne' : whole.map ρ ≠ [] := mt List.map_eq_nil_iff.1 hne
      refine .int hne' (hρ.forall_mem_digits hwhole) (not_startsIn_map ?_ hrest)
      intro c
      rw [mem_congr digits (by decide) (hρ c), mem_congr decimalPoints (by decide) (hρ c)]
  | @float whole decimals _ point hne hwhole hpoint hdec hdecimals hrest =>
      have hstands := @Lexeme.Stands.float (whole.map ρ) (decimals.map ρ) (rest.map ρ) (ρ point)
        (by simpa using hne) (hρ.forall_mem_digits hwhole)
        ((mem_congr decimalPoints (by decide) (hρ point)).2 hpoint) (by simpa using hdec)
        (hρ.forall_mem_digits hdecimals)
        (not_startsIn_map (fun c => mem_congr digits (by decide) (hρ c)) hrest)
      simpa only [Lexeme.map, Lexeme.plain, List.map_append, List.map_cons] using hstands
  | @word c letters _ hc hletters hrest =>
      have hall : ∀ d ∈ letters.map ρ, WordPart d := by
        intro d hd
        obtain ⟨b, hb, rfl⟩ := List.mem_map.1 hd
        exact (wordPart_congr (hρ b)).2 (hletters b hb)
      have hstands := Lexeme.Stands.word ((isWordStart_congr (hρ c)).trans hc) hall
        (not_startsIn_map (fun d => wordPart_congr (hρ d)) hrest)
      rw [← List.map_cons, hρ.wordKind_map] at hstands
      exact hstands

/-- A fault stays where it is, but for half of a double sign in front of the twin of that half. -/
theorem fault_stands {fault : Fault} {text : List Char} (h : fault.Stands text) :
    (fault.map ρ).Stands (text.map ρ) ∨
      ∃ c d after, fault = .unrecognized c ∧ text = c :: d :: after ∧ c ∈ doubled ∧
        ((c, d) ∈ twins ∨ (d, c) ∈ twins) := by
  have hslashes : ∀ {slash : List Char}, Dangling slash → slash.map ρ = slash := by
    intro slash hslash
    refine (hρ.map_eq_iff slash ?_ slash).2 rfl
    intro c hc
    rcases hslash with rfl | rfl <;> exact of_listed hc (by decide)
  have hline := (hρ.eq_iff (d := '\n') (by decide) _).2 rfl
  cases h with
  | @stray c after hc => exact Or.inl (.stray ((stray_congr (hρ c)).2 hc))
  | @half c after hc hafter =>
      have hmap := (mem_congr doubled (by decide) (hρ c)).2 hc
      cases after with
      | nil => exact Or.inl (.half hmap (not_startsIn_nil _))
      | cons d after =>
          rw [startsIn_cons] at hafter
          -- the two halves are compared as they are written, so that twins count as unlike
          by_cases htwin : narrow d = narrow c
          · exact Or.inr ⟨c, d, after, rfl, rfl, hc, twins_of_mem_doubled hc htwin hafter⟩
          · refine Or.inl (.half hmap ?_)
            rw [List.map_cons, startsIn_cons]
            intro heq
            exact htwin ((hρ d).symm.trans ((congrArg narrow heq).trans (hρ c)))
  | @point whole after point hne hwhole hpoint hafter =>
      left
      rw [List.map_append, List.map_cons]
      exact .point (by simpa using hne) (hρ.forall_mem_digits hwhole)
        ((mem_congr decimalPoints (by decide) (hρ point)).2 hpoint)
        (not_startsIn_map (fun c => mem_congr digits (by decide) (hρ c)) hafter)
  | @atNewline quote body value slash after hquote hbody hslash =>
      have hlone := lone_of_mem_quotes hquote
      have hfix := (hρ.eq_iff hlone _).2 rfl
      have hstands := @Fault.Stands.atNewline _ _ _ _ (after.map ρ) hquote (hρ.contents hlone hbody)
        hslash
      left
      simpa only [Fault.map, List.map_cons, List.map_append, List.map_nil, hfix, hline,
        hslashes hslash] using hstands
  | @atEnd quote body value slash hquote hbody hslash =>
      have hlone := lone_of_mem_quotes hquote
      have hfix := (hρ.eq_iff hlone _).2 rfl
      have hstands := Fault.Stands.atEnd hquote (hρ.contents hlone hbody) hslash
      left
      simpa only [Fault.map, List.map_cons, List.map_append, hfix, hslashes hslash] using hstands

theorem pieces_stand {pieces : List Piece} {rest : List Char} (h : Piece.Stand pieces rest) :
    Piece.Stand (pieces.map (Piece.map ρ)) (rest.map ρ) := by
  induction pieces with
  | nil => trivial
  | cons p ps ih =>
      obtain ⟨hgap, hlexeme, hps⟩ := h
      have hgap' := hρ.gap_stands hgap
      have hlexeme' := hρ.lexeme_stands hlexeme
      rw [List.map_append] at hlexeme'
      rw [List.map_append, List.map_append] at hgap'
      refine ⟨?_, ?_, ih hps⟩
      · rwa [Piece.textOf_map]
      · rwa [Piece.textOf_map]

def layout {source : List Char} (layout : Layout source) : Layout (source.map ρ) where
  pieces := layout.pieces.map (Piece.map ρ)
  gap := layout.gap.map ρ
  rest := layout.rest.map ρ
  pieces_stand := by
    rw [← List.map_append]
    exact hρ.pieces_stand layout.pieces_stand
  gap_stands := hρ.gap_stands layout.gap_stands
  text_eq := by rw [Piece.textOf_map, ← List.map_append, ← List.map_append, layout.text_eq]

theorem after_map (before : List Char) :
    (Mark.after (before.map ρ)).line = (Mark.after before).line ∧
      (Mark.after (before.map ρ)).column = (Mark.after before).column := by
  have hline : ∀ c, ρ c = '\n' ↔ c = '\n' := hρ.eq_iff (by decide)
  have heq : (fun c => c == '\n') ∘ ρ = fun c => c == '\n' := by
    funext c
    rw [Function.comp_apply, Bool.eq_iff_iff, beq_iff_eq, beq_iff_eq, hline]
  have hne : (fun c => c != '\n') ∘ ρ = fun c => c != '\n' := by
    funext c
    rw [Function.comp_apply, Bool.eq_iff_iff, bne_iff_ne, bne_iff_ne, Ne, hline]
  simp only [Mark.after, List.count, List.countP_map, heq, lastLine, ← List.map_reverse,
    List.takeWhile_map, hne, List.length_map, and_self]

end Respells

/-- The tokens differ only in their spelling and in the bytes they cover. -/
structure Token.Respelled (ρ : Char → Char) (t u : Token) : Prop where
  kind_eq : u.kind = t.kind
  line_eq : u.line = t.line
  column_eq : u.column = t.column
  value_eq : t.kind ≠ .endOfInput → u.value = t.value.map ρ

/-- The error is half of a double sign, with the twin of that half after it. -/
def LexError.AtTwins (source : List Char) (e : LexError) : Prop :=
  e.kind = .unrecognized ∧ ∃ before c d after,
    cut? e.offset source = some (before, c :: d :: after) ∧ c ∈ doubled ∧
      ((c, d) ∈ twins ∨ (d, c) ∈ twins)

namespace Respells

variable {ρ : Char → Char} (hρ : Respells ρ)
include hρ

theorem token (lexeme : Lexeme) (before : List Char) :
    Token.Respelled ρ (lexeme.written before) ((lexeme.map ρ).written (before.map ρ)) := by
  obtain ⟨hline, hcolumn⟩ := hρ.after_map before
  refine ⟨rfl, hline, hcolumn, fun _ => ?_⟩
  simp only [Lexeme.written, Lexeme.map, ← String.toList_inj, String.toList_map,
    String.toList_ofList]

theorem tokens (before : List Char) (pieces : List Piece) :
    List.Forall₂ (Token.Respelled ρ) (Piece.tokens before pieces)
      (Piece.tokens (before.map ρ) (pieces.map (Piece.map ρ))) := by
  induction pieces generalizing before with
  | nil => exact .nil
  | cons p ps ih =>
      have htoken := hρ.token p.lexeme (before ++ p.gap)
      have htext : (p.map ρ).text = p.text.map ρ := by
        simp only [Piece.text, Piece.map, Lexeme.map, List.map_append]
      have hmore := ih (before ++ p.text)
      rw [List.map_append] at htoken hmore
      rw [← htext] at hmore
      exact .cons htoken hmore

theorem lex_of_complete (s : String) (layout : Layout s.toList) (h : layout.rest = []) :
    ∃ tokens, lex (s.map ρ) = .ok tokens ∧ List.Forall₂ (Token.Respelled ρ)
      (layout.tokens ++ [.endOfInput (.after s.toList)]) tokens := by
  have hlex := TwinScript.lex_of_complete (s.map ρ)
  rw [String.toList_map] at hlex
  obtain ⟨hline, hcolumn⟩ := hρ.after_map s.toList
  have hrest : (hρ.layout layout).rest = [] := List.map_eq_nil_iff.2 h
  refine ⟨_, hlex (hρ.layout layout) hrest, ?_⟩
  have hend : Token.Respelled ρ (.endOfInput (.after s.toList))
      (.endOfInput (.after (s.toList.map ρ))) :=
    ⟨rfl, hline, hcolumn, fun hkind => absurd rfl hkind⟩
  exact List.rel_append (hρ.tokens [] layout.pieces) (.cons hend .nil)

theorem ofFault_map (fault : Fault) (front : List Char) :
    let e := LexError.ofFault fault (.after front)
    let e' := LexError.ofFault (fault.map ρ) (.after (front.map ρ))
    e'.kind = e.kind ∧ e'.line = e.line ∧ e'.column = e.column := by
  have hlead : (fault.map ρ).lead = fault.lead.map ρ := by
    cases fault <;> rfl
  have hplace := hρ.after_map (front ++ fault.lead)
  rw [List.map_append, ← hlead, ← Mark.past_after, ← Mark.past_after] at hplace
  refine ⟨?_, hplace⟩
  cases fault <;> rfl

theorem lex_of_fault (s : String) (layout : Layout s.toList) (fault : Fault)
    (h : fault.Stands layout.rest)
    (htwins : ¬ (LexError.ofFault fault layout.place).AtTwins s.toList) :
    let e := LexError.ofFault fault layout.place
    ∃ e', lex (s.map ρ) = .error e' ∧ e'.kind = e.kind ∧ e'.line = e.line ∧
      e'.column = e.column := by
  have hlex := TwinScript.lex_of_fault (s.map ρ)
  rw [String.toList_map] at hlex
  rcases hρ.fault_stands h with hfault | ⟨c, d, after, rfl, hrest, hc, hd⟩
  · have hplace : (hρ.layout layout).place =
        .after ((Piece.textOf layout.pieces ++ layout.gap).map ρ) := by
      rw [List.map_append, ← Piece.textOf_map]
      rfl
    have herror := hlex (hρ.layout layout) (fault.map ρ) hfault
    rw [hplace] at herror
    exact ⟨_, herror, hρ.ofFault_map fault _⟩
  · refine absurd ⟨rfl, Piece.textOf layout.pieces ++ layout.gap, c, d, after, ?_, hc, hd⟩ htwins
    rw [← hrest, cut?_eq_some_iff]
    exact ⟨by rw [List.append_assoc, layout.text_eq], rfl⟩

end Respells

/-- Neither the narrow nor the wide spelling of a text changes what is read: the tokens are the same
but for their spelling, and an error is the same, unless it is half of a double sign in front of its
twin. -/
theorem lex_map_script (ρ : Char → Char) (hρ : ρ = narrow ∨ ρ = widen) (s : String) :
    (∀ tokens, lex s = .ok tokens → ∃ tokens', lex (s.map ρ) = .ok tokens' ∧
        List.Forall₂ (Token.Respelled ρ) tokens tokens') ∧
      ∀ e, lex s = .error e → ¬ e.AtTwins s.toList → ∃ e', lex (s.map ρ) = .error e' ∧
        e'.kind = e.kind ∧ e'.line = e.line ∧ e'.column = e.column := by
  have hrespells : Respells ρ := by
    rcases hρ with rfl | rfl
    · exact narrow_narrow
    · exact narrow_widen
  constructor
  · intro tokens htokens
    obtain ⟨layout, hrest, rfl⟩ := exists_layout_of_lex_ok htokens
    exact hrespells.lex_of_complete s layout hrest
  · intro e he htwins
    obtain ⟨layout, fault, hfault, rfl⟩ := exists_layout_of_lex_error he
    exact hrespells.lex_of_fault s layout fault hfault htwins

/-- A declaration with signs of both scripts, made narrow, and half of a double sign in front of
another sign, made wide. -/
theorem lex_map_script_sample :
    (∃ tokens tokens', lex "宣言　x_１＝'（'#，" = .ok tokens ∧
        lex ("宣言　x_１＝'（'#，".map narrow) = .ok tokens' ∧
        List.Forall₂ (Token.Respelled narrow) tokens tokens') ∧
      ∃ e e', lex "a ｜&" = .error e ∧ ¬ e.AtTwins "a ｜&".toList ∧
        lex ("a ｜&".map widen) = .error e' ∧ e'.kind = .unrecognized ∧ e'.line = 1 ∧
        e'.column = 3 := by
  constructor
  · have hlex : lex "宣言　x_１＝'（'#，" = .ok [⟨.letWord, "宣言", 1, 1, ⟨0, 6⟩⟩,
        ⟨.identifier, "x_１", 1, 4, ⟨9, 14⟩⟩, ⟨.equals, "＝", 1, 7, ⟨14, 17⟩⟩,
        ⟨.string, "（", 1, 8, ⟨17, 22⟩⟩, ⟨.endOfInput, "EOF", 1, 13, ⟨26, 26⟩⟩] := by
      decide +kernel
    obtain ⟨tokens', hmap, hrespelled⟩ := (lex_map_script narrow (Or.inl rfl) _).1 _ hlex
    exact ⟨_, tokens', hlex, hmap, hrespelled⟩
  · have hlex : lex "a ｜&" = .error ⟨.unrecognized, "unrecognized token '｜'", 1, 3, 2, 3⟩ := by
      decide +kernel
    have hcut : cut? 2 "a ｜&".toList = some (['a', ' '], ['｜', '&']) := by decide +kernel
    have htwins : ¬ LexError.AtTwins "a ｜&".toList
        ⟨.unrecognized, "unrecognized token '｜'", 1, 3, 2, 3⟩ := by
      rintro ⟨-, before, c, d, after, hcut', -, htwins⟩
      change cut? 2 _ = _ at hcut'
      rw [hcut] at hcut'
      cases hcut'
      exact absurd htwins (by decide)
    obtain ⟨e', hmap, hkind, hline, hcolumn⟩ :=
      (lex_map_script widen (Or.inr rfl) _).2 _ hlex htwins
    exact ⟨_, e', hlex, htwins, hmap, hkind, hline, hcolumn⟩

end TwinScript
