/-!
# Kinds of tokens

The kinds have fixed names, which are what every printed form of a token shows.
-/
namespace TwinScript.Token

inductive Kind
  | moduleWord | importWord | letWord | constWord | funcWord | ifWord | whileWord
  | int | float | boolean | string | nil
  | identifier
  | equals | binOp | bang
  | openParen | closeParen | openBracket | closeBracket | openBrace | closeBrace
  | colon | period | semicolon | comma | question
  | endOfInput
  deriving DecidableEq, Repr

namespace Kind

def name : Kind → String
  | moduleWord => "Module"
  | importWord => "Import"
  | letWord => "Let"
  | constWord => "Const"
  | funcWord => "Func"
  | ifWord => "If"
  | whileWord => "While"
  | int => "Int"
  | float => "Float"
  | boolean => "Boolean"
  | string => "String"
  | nil => "Nil"
  | identifier => "Identifier"
  | equals => "Equals"
  | binOp => "BinOp"
  | bang => "Bang"
  | openParen => "OpenParen"
  | closeParen => "CloseParen"
  | openBracket => "OpenBracket"
  | closeBracket => "CloseBracket"
  | openBrace => "OpenBrace"
  | closeBrace => "CloseBrace"
  | colon => "Colon"
  | period => "Period"
  | semicolon => "Semicolon"
  | comma => "Comma"
  | question => "Question"
  | endOfInput => "EndOfInput"

def all : List Kind :=
  [moduleWord, importWord, letWord, constWord, funcWord, ifWord, whileWord,
    int, float, boolean, string, nil, identifier, equals, binOp, bang,
    openParen, closeParen, openBracket, closeBracket, openBrace, closeBrace,
    colon, period, semicolon, comma, question, endOfInput]

theorem mem_all (kind : Kind) : kind ∈ all := by
  cases kind <;> decide

def ofName? (name : String) : Option Kind := all.find? (·.name == name)

theorem ofName?_name (kind : Kind) : ofName? kind.name = some kind := by
  cases kind <;> decide +kernel

def isKeyword : Kind → Bool
  | moduleWord | importWord | letWord | constWord | funcWord | ifWord | whileWord => true
  | boolean | nil => true
  | _ => false

end Kind

end TwinScript.Token
