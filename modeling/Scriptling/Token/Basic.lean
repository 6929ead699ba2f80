import Scriptling.Fault

namespace Scriptling

/-- A constant written in a program. Numbers are doubles. -/
inductive Literal where
  | nil
  | bool (b : Bool)
  | number (x : Float)
  | string (s : String)
deriving Repr, Inhabited

inductive Kind where
  | leftParen | rightParen | leftBrace | rightBrace
  | comma | dot | semicolon | question | colon
  | minus | minusEqual | minusMinus
  | plus | plusEqual | plusPlus
  | star | starEqual
  | slash | slashEqual | slashSlash
  | percent | percentEqual
  | bang | bangEqual
  | equal | equalEqual
  | greater | greaterEqual
  | less | lessEqual | leftArrow
  | identifier | string | number
  | and | break | classKeyword | else | false | for | func | if | next | nil | or
  | return | static | super | this | true | var | while
  | eof
deriving DecidableEq, Repr, Inhabited

namespace Kind

def name : Kind → String
  | .leftParen => "LEFT_PAREN"
  | .rightParen => "RIGHT_PAREN"
  | .leftBrace => "LEFT_BRACE"
  | .rightBrace => "RIGHT_BRACE"
  | .comma => "COMMA"
  | .dot => "DOT"
  | .semicolon => "SEMICOLON"
  | .question => "QUESTION"
  | .colon => "COLON"
  | .minus => "MINUS"
  | .minusEqual => "MINUS_EQUAL"
  | .minusMinus => "MINUS_MINUS"
  | .plus => "PLUS"
  | .plusEqual => "PLUS_EQUAL"
  | .plusPlus => "PLUS_PLUS"
  | .star => "STAR"
  | .starEqual => "STAR_EQUAL"
  | .slash => "SLASH"
  | .slashEqual => "SLASH_EQUAL"
  | .slashSlash => "SLASH_SLASH"
  | .percent => "PERCENT"
  | .percentEqual => "PERCENT_EQUAL"
  | .bang => "BANG"
  | .bangEqual => "BANG_EQUAL"
  | .equal => "EQUAL"
  | .equalEqual => "EQUAL_EQUAL"
  | .greater => "GREATER"
  | .greaterEqual => "GREATER_EQUAL"
  | .less => "LESS"
  | .lessEqual => "LESS_EQUAL"
  | .leftArrow => "LEFT_ARROW"
  | .identifier => "IDENTIFIER"
  | .string => "STRING"
  | .number => "NUMBER"
  | .and => "AND"
  | .break => "BREAK"
  | .classKeyword => "CLASS"
  | .else => "ELSE"
  | .false => "FALSE"
  | .for => "FOR"
  | .func => "FUNC"
  | .if => "IF"
  | .next => "NEXT"
  | .nil => "NIL"
  | .or => "OR"
  | .return => "RETURN"
  | .static => "STATIC"
  | .super => "SUPER"
  | .this => "THIS"
  | .true => "TRUE"
  | .var => "VAR"
  | .while => "WHILE"
  | .eof => "EOF"

def all : List Kind :=
  [.leftParen, .rightParen, .leftBrace, .rightBrace, .comma, .dot, .semicolon, .question, .colon,
   .minus, .minusEqual, .minusMinus, .plus, .plusEqual, .plusPlus, .star, .starEqual, .slash,
   .slashEqual, .slashSlash, .percent, .percentEqual, .bang, .bangEqual, .equal, .equalEqual,
   .greater, .greaterEqual, .less, .lessEqual, .leftArrow, .identifier, .string, .number, .and,
   .break, .classKeyword, .else, .false, .for, .func, .if, .next, .nil, .or, .return, .static, .super,
   .this, .true, .var, .while, .eof]

def ofName? (name : String) : Option Kind := all.find? (·.name == name)

/-- Reserved words; three constants have a second, capitalised spelling. -/
def keywords : List (String × Kind) :=
  [("and", .and), ("break", .break), ("class", .classKeyword), ("else", .else), ("false", .false),
   ("False", .false), ("for", .for), ("func", .func), ("if", .if), ("next", .next), ("nil", .nil),
   ("Null", .nil), ("or", .or), ("return", .return), ("static", .static), ("super", .super),
   ("this", .this), ("true", .true), ("True", .true), ("var", .var), ("while", .while)]

/-- A word is its keyword if it is reserved, and an identifier otherwise. -/
def ofWord (word : String) : Kind := (keywords.lookup word).getD .identifier

end Kind

/-- A token. `literal` is the constant of a string or number token, and nil for every other. -/
structure Token where
  kind : Kind
  lexeme : String
  literal : Literal
  place : Place
deriving Repr, Inhabited

/-- A token that no program text stands for. -/
def Token.synthetic (kind : Kind) (lexeme : String) : Token := ⟨kind, lexeme, .nil, .nowhere⟩

end Scriptling
