import LoxLang.Number.Basic

set_option autoImplicit false

namespace LoxLang

inductive Mark where
  | leftParen | rightParen | leftBrace | rightBrace | comma | dot | minus | plus | semicolon | slash
  | star | question | colon | bang | bangEqual | equal | equalEqual | greater | greaterEqual | less
  | lessEqual
  deriving DecidableEq, Repr

inductive Keyword where
  | andWord | breakWord | classWord | continueWord | elseWord | falseWord | funWord | forWord
  | ifWord | nilWord | orWord | printWord | returnWord | superWord | thisWord | trueWord | varWord
  | whileWord
  deriving DecidableEq, Repr

inductive Kind where
  | mark (mark : Mark)
  | identifier
  | string (contents : String)
  | number (value : Number)
  | keyword (word : Keyword)
  | endOfInput
  deriving DecidableEq, Repr

/-- A piece of source text with what it stands for and the line on which it ends. -/
structure Token where
  kind : Kind
  lexeme : String
  line : Nat
  deriving DecidableEq, Repr

namespace Mark

def ofChars? : List Char → Option Mark
  | ['('] => some .leftParen
  | [')'] => some .rightParen
  | ['{'] => some .leftBrace
  | ['}'] => some .rightBrace
  | [','] => some .comma
  | ['.'] => some .dot
  | ['-'] => some .minus
  | ['+'] => some .plus
  | [';'] => some .semicolon
  | ['/'] => some .slash
  | ['*'] => some .star
  | ['?'] => some .question
  | [':'] => some .colon
  | ['!'] => some .bang
  | ['!', '='] => some .bangEqual
  | ['='] => some .equal
  | ['=', '='] => some .equalEqual
  | ['>'] => some .greater
  | ['>', '='] => some .greaterEqual
  | ['<'] => some .less
  | ['<', '='] => some .lessEqual
  | _ => none

def name : Mark → String
  | .leftParen => "LEFT_PAREN"
  | .rightParen => "RIGHT_PAREN"
  | .leftBrace => "LEFT_BRACE"
  | .rightBrace => "RIGHT_BRACE"
  | .comma => "COMMA"
  | .dot => "DOT"
  | .minus => "MINUS"
  | .plus => "PLUS"
  | .semicolon => "SEMICOLON"
  | .slash => "SLASH"
  | .star => "STAR"
  | .question => "QUESTION"
  | .colon => "COLON"
  | .bang => "BANG"
  | .bangEqual => "BANG_EQUAL"
  | .equal => "EQUAL"
  | .equalEqual => "EQUAL_EQUAL"
  | .greater => "GREATER"
  | .greaterEqual => "GREATER_EQUAL"
  | .less => "LESS"
  | .lessEqual => "LESS_EQUAL"

def all : List Mark :=
  [.leftParen, .rightParen, .leftBrace, .rightBrace, .comma, .dot, .minus, .plus, .semicolon,
   .slash, .star, .question, .colon, .bang, .bangEqual, .equal, .equalEqual, .greater,
   .greaterEqual, .less, .lessEqual]

end Mark

namespace Keyword

def spelling : Keyword → String
  | .andWord => "and"
  | .breakWord => "break"
  | .classWord => "class"
  | .continueWord => "continue"
  | .elseWord => "else"
  | .falseWord => "false"
  | .funWord => "fun"
  | .forWord => "for"
  | .ifWord => "if"
  | .nilWord => "nil"
  | .orWord => "or"
  | .printWord => "print"
  | .returnWord => "return"
  | .superWord => "super"
  | .thisWord => "this"
  | .trueWord => "true"
  | .varWord => "var"
  | .whileWord => "while"

def name : Keyword → String
  | .andWord => "AND"
  | .breakWord => "BREAK"
  | .classWord => "CLASS"
  | .continueWord => "CONTINUE"
  | .elseWord => "ELSE"
  | .falseWord => "FALSE"
  | .funWord => "FUN"
  | .forWord => "FOR"
  | .ifWord => "IF"
  | .nilWord => "NIL"
  | .orWord => "OR"
  | .printWord => "PRINT"
  | .returnWord => "RETURN"
  | .superWord => "SUPER"
  | .thisWord => "THIS"
  | .trueWord => "TRUE"
  | .varWord => "VAR"
  | .whileWord => "WHILE"

def all : List Keyword :=
  [.andWord, .breakWord, .classWord, .continueWord, .elseWord, .falseWord, .funWord, .forWord,
   .ifWord, .nilWord, .orWord, .printWord, .returnWord, .superWord, .thisWord, .trueWord, .varWord,
   .whileWord]

def ofSpelling? (word : String) : Option Keyword := all.find? fun k => k.spelling = word

theorem ofSpelling?_spelling (k : Keyword) : ofSpelling? k.spelling = some k := by
  cases k <;> decide

end Keyword

namespace Kind

def name : Kind → String
  | .mark m => m.name
  | .identifier => "IDENTIFIER"
  | .string _ => "STRING"
  | .number _ => "NUMBER"
  | .keyword k => k.name
  | .endOfInput => "EOF"

/-- The kinds that carry no value, by name. -/
def ofName? (name : String) : Option Kind :=
  (Mark.all.map Kind.mark ++ Keyword.all.map Kind.keyword ++
      [Kind.identifier, Kind.endOfInput]).find?
    fun k => k.name = name

end Kind

end LoxLang
