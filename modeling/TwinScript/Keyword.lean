import TwinScript.Token.Kind

/-!
# Reserved words

A reserved word has a Latin and a Japanese spelling of the same kind. A word is reserved only as a
whole.
-/
namespace TwinScript
open Token (Kind)

structure Keyword where
  kind : Kind
  latin : String
  japanese : String
  deriving DecidableEq, Repr

namespace Keyword

def all : List Keyword :=
  [⟨.moduleWord, "module", "モジュール"⟩,
    ⟨.importWord, "import", "インポート"⟩,
    ⟨.letWord, "let", "宣言"⟩,
    ⟨.constWord, "const", "定数"⟩,
    ⟨.nil, "nil", "無"⟩,
    ⟨.boolean, "true", "本当"⟩,
    ⟨.boolean, "false", "嘘"⟩,
    ⟨.ifWord, "if", "もし"⟩,
    ⟨.whileWord, "while", "繰り返す"⟩,
    ⟨.funcWord, "func", "関数"⟩]

def spells (keyword : Keyword) (text : String) : Bool :=
  text == keyword.latin || text == keyword.japanese

def kindOf? (text : String) : Option Kind := (all.find? (·.spells text)).map kind

/-- A text exchanged for its spelling in the other script, if it is a reserved word. -/
def twin (text : String) : String :=
  match all.find? (·.spells text) with
  | some keyword => if text == keyword.latin then keyword.japanese else keyword.latin
  | none => text

/-- Every spelling, in increasing order of code points. -/
def spellings : List String :=
  (all.flatMap fun keyword => [keyword.latin, keyword.japanese]).mergeSort (· ≤ ·)

theorem kindOf?_latin {keyword : Keyword} (h : keyword ∈ all) :
    kindOf? keyword.latin = some keyword.kind := by
  revert keyword
  decide +kernel

theorem kindOf?_japanese {keyword : Keyword} (h : keyword ∈ all) :
    kindOf? keyword.japanese = some keyword.kind := by
  revert keyword
  decide +kernel

theorem isKeyword_of_kindOf? {text : String} {kind : Kind} (h : kindOf? text = some kind) :
    kind.isKeyword = true := by
  have hall : ∀ keyword ∈ all, keyword.kind.isKeyword = true := by decide
  obtain ⟨keyword, hfind, rfl⟩ := Option.map_eq_some_iff.1 h
  exact hall keyword (List.mem_of_find?_eq_some hfind)

end Keyword
end TwinScript
