import Lox.Ident
import Lox.Number

set_option autoImplicit false

namespace Lox

inductive Mark where
  | leftParen | rightParen | leftBrace | rightBrace | comma | dot | semicolon
  | minus | plus | slash | star | bang | bangEqual | equal | equalEqual
  | greater | greaterEqual | less | lessEqual
  | andWord | classWord | elseWord | falseWord | forWord | funWord | ifWord | nilWord
  | orWord | printWord | returnWord | trueWord | varWord | whileWord
  deriving DecidableEq, Repr

namespace Mark

def punctuation : List Mark :=
  [.leftParen, .rightParen, .leftBrace, .rightBrace, .comma, .dot, .semicolon, .minus, .plus,
   .slash, .star, .bang, .bangEqual, .equal, .equalEqual, .greater, .greaterEqual, .less, .lessEqual]

def keywords : List Mark :=
  [.andWord, .classWord, .elseWord, .falseWord, .forWord, .funWord, .ifWord, .nilWord,
   .orWord, .printWord, .returnWord, .trueWord, .varWord, .whileWord]

def glyph : Mark → String
  | leftParen => "(" | rightParen => ")" | leftBrace => "\x7b" | rightBrace => "\x7d"
  | comma => "," | dot => "." | semicolon => ";" | minus => "-" | plus => "+" | slash => "/"
  | star => "*" | bang => "!" | bangEqual => "!=" | equal => "=" | equalEqual => "=="
  | greater => ">" | greaterEqual => ">=" | less => "<" | lessEqual => "<="
  | andWord => "and" | classWord => "class" | elseWord => "else" | falseWord => "false"
  | forWord => "for" | funWord => "fun" | ifWord => "if" | nilWord => "nil" | orWord => "or"
  | printWord => "print" | returnWord => "return" | trueWord => "true" | varWord => "var"
  | whileWord => "while"

def label : Mark → String
  | leftParen => "LEFT_PAREN" | rightParen => "RIGHT_PAREN" | leftBrace => "LEFT_BRACE"
  | rightBrace => "RIGHT_BRACE" | comma => "COMMA" | dot => "DOT" | semicolon => "SEMICOLON"
  | minus => "MINUS" | plus => "PLUS" | slash => "SLASH" | star => "STAR" | bang => "BANG"
  | bangEqual => "BANG_EQUAL" | equal => "EQUAL" | equalEqual => "EQUAL_EQUAL"
  | greater => "GREATER" | greaterEqual => "GREATER_EQUAL" | less => "LESS"
  | lessEqual => "LESS_EQUAL" | andWord => "AND" | classWord => "CLASS" | elseWord => "ELSE"
  | falseWord => "FALSE" | forWord => "FOR" | funWord => "FUN" | ifWord => "IF" | nilWord => "NIL"
  | orWord => "OR" | printWord => "PRINT" | returnWord => "RETURN" | trueWord => "TRUE"
  | varWord => "VAR" | whileWord => "WHILE"

end Mark

inductive Kind where
  | mark (m : Mark)
  | identifier
  | string
  | number
  deriving DecidableEq, Repr

namespace Kind

def label : Kind → String
  | .mark m => m.label
  | .identifier => "IDENTIFIER"
  | .string => "STRING"
  | .number => "NUMBER"

def all : List Kind :=
  (Mark.punctuation ++ Mark.keywords).map .mark ++ [.identifier, .string, .number]

def ofLabel? (s : String) : Option Kind :=
  all.find? (·.label == s)

end Kind

inductive Lexeme where
  | mark (m : Mark)
  | identifier (text : String)
  | string (text : String)
  | number (value : Float)
  deriving Repr

namespace Lexeme

def kind : Lexeme → Kind
  | .mark m => .mark m
  | .identifier _ => .identifier
  | .string _ => .string
  | .number _ => .number

def shown : Lexeme → String
  | .mark m => m.glyph
  | .identifier text => text
  | .string text => "\"" ++ text ++ "\""
  | .number value => Number.written value

def text : Lexeme → String
  | .mark m => m.glyph
  | .identifier text => text
  | .string text => text
  | .number value => Number.written value

end Lexeme

structure Token where
  lexeme : Lexeme
  span : Option Span
  deriving Repr

namespace Token

def kind (t : Token) : Kind := t.lexeme.kind

def shown (t : Token) : String := t.lexeme.shown

def name (t : Token) : Ident := .name t.lexeme.text t.span

end Token
end Lox
