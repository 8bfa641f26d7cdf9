import TwinScript.Log
import TwinScript.Text.Alphanumeric

/-!
# Log directives

A directive has parts with commas between them, and each part is a level, a target, or both. A
target stands for all that begin with it; of the parts that cover a target the most specific
decides, and of two alike the later. Parts about spans or named values are not among those read
here.
-/
namespace TwinScript.Log

/-- Targets that begin with this text are shown up to the level, or not at all. -/
structure Directive where
  target : String
  level : Option Level
  deriving DecidableEq, Repr

def Level.word : Level → String
  | error => "error"
  | warn => "warn"
  | info => "info"
  | debug => "debug"
  | trace => "trace"

namespace Directive

def levels : List (String × Option Level) :=
  ("off", none) ::
    [Level.error, .warn, .info, .debug, .trace].map fun level => (level.word, some level)

/-- A level is given by its word, in letters of either case, or by its number. -/
def level? (text : List Char) : Option (Option Level) :=
  (levels.zipIdx.find? fun ((word, _), n) =>
    text.map Char.toLower == word.toList || text == n.repr.toList).map (·.1.2)

def isTargetChar (c : Char) : Bool := Text.isAlphanumeric c || c == '_' || c == ':' || c == '-'

/-- A level alone is for all targets, and a target alone for all levels. -/
def ofText? (text : List Char) : Option Directive :=
  match level? text with
  | some level => some ⟨"", level⟩
  | none =>
    let target := text.takeWhile isTargetChar
    if target.isEmpty then none
    else
      match text.dropWhile isTargetChar with
      | [] | ['='] => some ⟨String.ofList target, some .trace⟩
      | '=' :: word => (level? word).map fun level => ⟨String.ofList target, level⟩
      | _ => none

def parts (text : String) : List (List Char) := (text.toList.splitOn ',').filter (!·.isEmpty)

def covers (d : Directive) (target : String) : Bool := d.target.toList.isPrefixOf target.toList

def deciding (target : String) : List Directive → Option Directive
  | [] => none
  | d :: more =>
    let later := deciding target more
    if d.covers target && later.all fun d' => d'.target.length < d.target.length then some d
    else later

theorem deciding_eq_none {target : String} {directives : List Directive}
    (h : deciding target directives = none) : ∀ d ∈ directives, d.covers target = false := by
  induction directives with
  | nil => exact nofun
  | cons d more ih =>
    rw [deciding] at h
    split at h
    · cases h
    · next hd =>
      rw [h, Option.all_none, Bool.and_true, Bool.not_eq_true] at hd
      exact List.forall_mem_cons.2 ⟨hd, ih h⟩

/-- No part that covers the target is more specific than the one that decides. -/
theorem deciding_eq_some {target : String} {directives : List Directive} {d : Directive}
    (h : deciding target directives = some d) :
    d ∈ directives ∧ d.covers target = true ∧
      ∀ d' ∈ directives, d'.covers target = true → d'.target.length ≤ d.target.length := by
  induction directives generalizing d with
  | nil => cases h
  | cons first more ih =>
    rw [deciding] at h
    split at h
    · next hfirst =>
      obtain rfl := Option.some.inj h
      rw [Bool.and_eq_true] at hfirst
      refine ⟨List.mem_cons_self, hfirst.1, List.forall_mem_cons.2 ⟨fun _ => Nat.le_refl _, ?_⟩⟩
      intro d' hd' hcovers
      cases hlater : deciding target more with
      | none => exact absurd hcovers (by rw [deciding_eq_none hlater d' hd']; exact nofun)
      | some best =>
        have hlt := hfirst.2
        rw [hlater, Option.all_some, decide_eq_true_eq] at hlt
        have hle := (ih hlater).2.2 d' hd' hcovers
        omega
    · next hfirst =>
      obtain ⟨hmem, hcovers, hmax⟩ := ih h
      refine ⟨List.mem_cons_of_mem _ hmem, hcovers, List.forall_mem_cons.2 ⟨?_, hmax⟩⟩
      intro hcover
      rw [h, hcover, Bool.true_and, Option.all_some, decide_eq_true_eq] at hfirst
      omega

def filter (directives : List Directive) : Filter :=
  ⟨fun r => (deciding r.target directives).any fun d =>
    d.level.any fun level => r.level.detail ≤ level.detail⟩

def complaint (part : List Char) : String :=
  "ignoring `" ++ String.ofList part ++ "`: invalid filter directive"

/-- A directive of which nothing is understood asks for errors only. -/
def read (text : String) : Setting :=
  let directives := (parts text).filterMap ofText?
  { filter := filter (if directives.isEmpty then [⟨"", some .error⟩] else directives)
    complaints := ((parts text).filter fun part => (ofText? part).isNone).map complaint }

-- One part is not understood, and the one for the scanner is more specific than the other.
example :
    let setting := read "debug,gomi::lexer=off,x=y"
    setting.complaints = ["ignoring `x=y`: invalid filter directive"] ∧
      setting.filter.admits ⟨.error, "gomi::lexer::scanner", "", []⟩ = false := by
  decide +kernel

/-- What users are told about directives for this program, at any level, and about the one that
turns the log off. -/
structure Documented (read : String → Setting) : Prop where
  admits_level : ∀ (level : Level) (r : Record), "gomi".toList <+: r.target.toList →
    (read ("gomi=" ++ level.word)).filter.admits r = decide (r.level.detail ≤ level.detail)
  admits_off : ∀ r, (read "off").filter.admits r = false
  complaints_level : ∀ level : Level, (read ("gomi=" ++ level.word)).complaints = []
  complaints_off : (read "off").complaints = []

theorem filterMap_parts_level (level : Level) :
    (parts ("gomi=" ++ level.word)).filterMap ofText? = [⟨"gomi", some level⟩] := by
  cases level <;> decide +kernel

theorem documented_read : Documented read where
  admits_level level r htarget := by
    have hcovers : covers ⟨"gomi", some level⟩ r.target = true :=
      List.isPrefixOf_iff_prefix.2 htarget
    simp only [read, filterMap_parts_level, List.isEmpty_cons, Bool.false_eq_true, if_false,
      filter, deciding, hcovers, Option.all_none, Bool.and_self, if_true, Option.any_some]
  admits_off r := by
    have hparts : (parts "off").filterMap ofText? = [⟨"", none⟩] := by decide +kernel
    simp only [read, hparts]
    rfl
  complaints_level level := by
    cases level <;> decide +kernel
  complaints_off := by decide +kernel

end Directive
end TwinScript.Log
