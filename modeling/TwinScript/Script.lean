/-!
# Two scripts

Every symbol has a full-width twin beside its ASCII form, and both are read alike: each class of
symbols is a class of `narrow` forms. Letters have no twin. Words are spelled in ASCII letters, in
kana or in kanji.
-/
namespace TwinScript.Script

/-- The ASCII twin of a full-width symbol; the ideographic comma is one more comma. -/
def narrow : Char → Char
  | '（' => '('
  | '）' => ')'
  | '【' => '['
  | '】' => ']'
  | '｛' => '\x7b'
  | '｝' => '\x7d'
  | '：' => ':'
  | '．' => '.'
  | '；' => ';'
  | '，' | '、' => ','
  | '？' => '?'
  | '＋' => '+'
  | '－' => '-'
  | '＊' => '*'
  | '／' => '/'
  | '％' => '%'
  | '＾' => '^'
  | '！' => '!'
  | '＜' => '<'
  | '＞' => '>'
  | '＝' => '='
  | '｜' => '|'
  | '＆' => '&'
  | '＃' => '#'
  | '＿' => '_'
  | '\u3000' => ' '
  | '０' => '0'
  | '１' => '1'
  | '２' => '2'
  | '３' => '3'
  | '４' => '4'
  | '５' => '5'
  | '６' => '6'
  | '７' => '7'
  | '８' => '8'
  | '９' => '9'
  | c => c

def widen : Char → Char
  | '(' => '（'
  | ')' => '）'
  | '[' => '【'
  | ']' => '】'
  | '\x7b' => '｛'
  | '\x7d' => '｝'
  | ':' => '：'
  | '.' => '．'
  | ';' => '；'
  | ',' => '，'
  | '?' => '？'
  | '+' => '＋'
  | '-' => '－'
  | '*' => '＊'
  | '/' => '／'
  | '%' => '％'
  | '^' => '＾'
  | '!' => '！'
  | '<' => '＜'
  | '>' => '＞'
  | '=' => '＝'
  | '|' => '｜'
  | '&' => '＆'
  | '#' => '＃'
  | '_' => '＿'
  | ' ' => '\u3000'
  | '0' => '０'
  | '1' => '１'
  | '2' => '２'
  | '3' => '３'
  | '4' => '４'
  | '5' => '５'
  | '6' => '６'
  | '7' => '７'
  | '8' => '８'
  | '9' => '９'
  | c => c

theorem narrow_widen (c : Char) : narrow (widen c) = narrow c := by
  unfold widen
  split <;> rfl

theorem narrow_narrow (c : Char) : narrow (narrow c) = narrow c := by
  fun_cases narrow c
  any_goals rfl
  rw [narrow] <;> assumption

/-- Space in both scripts, tab, carriage return and newline separate lexemes. -/
def isSpacing (c : Char) : Bool :=
  narrow c == ' ' || c == '\t' || c == '\r' || c == '\n'

def isCommentMark (c : Char) : Bool := narrow c == '#'

def isDigit (c : Char) : Bool := (narrow c).isDigit

/-- The point inside a number; the ideographic full stop is not one. -/
def isDecimalPoint (c : Char) : Bool := narrow c == '.'

def isEqualsSign (c : Char) : Bool := narrow c == '='

/-- Hiragana and katakana with their marks, and the common block of kanji. -/
def isJapanese (c : Char) : Bool :=
  (0x3040 ≤ c.toNat && c.toNat ≤ 0x30FF) || (0x4E00 ≤ c.toNat && c.toNat ≤ 0x9FFF)

def isWordStart (c : Char) : Bool := c.isAlpha || isJapanese c

def isWordPart (c : Char) : Bool := isWordStart c || isDigit c || narrow c == '_'

theorem isWordPart_of_isWordStart {c : Char} (h : isWordStart c = true) : isWordPart c = true := by
  simp [isWordPart, h]

end TwinScript.Script
