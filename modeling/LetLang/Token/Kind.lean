namespace LetLang

/-- The kinds of token, in the order by which they are numbered. -/
inductive TokenKind where
  | leftParen
  | rightParen
  | comma
  | dot
  | doubleDot
  | colon
  | semicolon
  | plus
  | minus
  | asterisk
  | slash
  | caret
  | bang
  | questionMark
  | equal
  | equalEqual
  | notEqual
  | greater
  | greaterEqual
  | less
  | lessEqual
  | kwLet
  | kwIf
  | kwThen
  | kwElse
  | kwTrue
  | kwFalse
  | kwAnd
  | kwOr
  | kwFor
  | kwIn
  | kwBegin
  | kwEnd
  | kwWhile
  | kwPrint
  | identifier
  | string
  | number
  | eof
deriving DecidableEq, Inhabited

namespace TokenKind

/-- Every kind, the first of them numbered 1. -/
def all : List TokenKind := [
  .leftParen, .rightParen, .comma, .dot, .doubleDot, .colon, .semicolon, .plus, .minus,
  .asterisk, .slash, .caret, .bang, .questionMark, .equal, .equalEqual, .notEqual, .greater,
  .greaterEqual, .less, .lessEqual, .kwLet, .kwIf, .kwThen, .kwElse, .kwTrue, .kwFalse, .kwAnd,
  .kwOr, .kwFor, .kwIn, .kwBegin, .kwEnd, .kwWhile, .kwPrint, .identifier, .string, .number, .eof]

def name : TokenKind → String
  | .leftParen => "LEFT_PAREN"
  | .rightParen => "RIGHT_PAREN"
  | .comma => "COMMA"
  | .dot => "DOT"
  | .doubleDot => "DOUBLE_DOT"
  | .colon => "COLON"
  | .semicolon => "SEMICOLON"
  | .plus => "PLUS"
  | .minus => "MINUS"
  | .asterisk => "ASTERISK"
  | .slash => "SLASH"
  | .caret => "CARET"
  | .bang => "BANG"
  | .questionMark => "QUESTION_MARK"
  | .equal => "EQUAL"
  | .equalEqual => "EQUAL_EQUAL"
  | .notEqual => "NOT_EQUAL"
  | .greater => "GREATER"
  | .greaterEqual => "GREATER_EQUAL"
  | .less => "LESS"
  | .lessEqual => "LESS_EQUAL"
  | .kwLet => "LET"
  | .kwIf => "IF"
  | .kwThen => "THEN"
  | .kwElse => "ELSE"
  | .kwTrue => "TRUE"
  | .kwFalse => "FALSE"
  | .kwAnd => "AND"
  | .kwOr => "OR"
  | .kwFor => "FOR"
  | .kwIn => "IN"
  | .kwBegin => "BEGIN"
  | .kwEnd => "END"
  | .kwWhile => "WHILE"
  | .kwPrint => "PRINT"
  | .identifier => "IDENTIFIER"
  | .string => "STRING"
  | .number => "NUMBER"
  | .eof => "EOF"

def position (kind : TokenKind) : Nat := all.idxOf kind + 1

def ofName? (name : String) : Option TokenKind := all.find? (·.name == name)

/-- The words that are no names, with the kinds they stand for. -/
def keywords : List (String × TokenKind) := [
  ("let", .kwLet), ("if", .kwIf), ("then", .kwThen), ("else", .kwElse), ("true", .kwTrue),
  ("false", .kwFalse), ("and", .kwAnd), ("or", .kwOr), ("for", .kwFor), ("in", .kwIn),
  ("begin", .kwBegin), ("end", .kwEnd), ("while", .kwWhile), ("print", .kwPrint)]

def ofWord (word : String) : TokenKind := (keywords.lookup word).getD .identifier

theorem mem_all (kind : TokenKind) : kind ∈ all := by
  cases kind <;> decide

theorem ofName?_name (kind : TokenKind) : ofName? kind.name = some kind := by
  cases kind <;> decide

end TokenKind

end LetLang
