import LetLang.Token.Basic

namespace LetLang.Strict

/-- What a terminal looks like. -/
inductive Shape where
  /-- This text. -/
  | spelled (text : List Char)
  /-- One character of the first class and then as many as there are of the second. -/
  | run (first more : Char → Bool)
  /-- Two slashes and the rest of the line. -/
  | comment
  /-- Text without a double quote between two of them. -/
  | string

def Shape.matchLength (cs : List Char) : Shape → Option Nat
  | .spelled text => if text.isPrefixOf cs then some text.length else none
  | .run first more =>
    match cs with
    | c :: rest => if first c then some (1 + (rest.takeWhile more).length) else none
    | [] => none
  | .comment =>
    match cs with
    | '/' :: '/' :: rest => some (2 + (rest.takeWhile (· != '\n')).length)
    | _ => none
  | .string =>
    match cs with
    | '\x22' :: rest =>
      let inner := rest.takeWhile (· != '\x22')
      if inner.length < rest.length then some (inner.length + 2) else none
    | _ => none

/-- A terminal makes a token of its kind, or nothing. -/
structure Terminal where
  kind : Option TokenKind
  shape : Shape

def isLetter (c : Char) : Bool := ('A' ≤ c && c ≤ 'Z') || ('a' ≤ c && c ≤ 'z')

def isNumeral (c : Char) : Bool := ('0' ≤ c && c ≤ '9') || c == '_'

def isWhite (c : Char) : Bool := [' ', '\t', '\r', '\n'].contains c

def spelled (text : String) (kind : TokenKind) : Terminal := ⟨some kind, .spelled text.toList⟩

def keywordTerminals : List Terminal := [
  spelled "let" .kwLet, spelled "if" .kwIf, spelled "then" .kwThen, spelled "else" .kwElse,
  spelled "true" .kwTrue, spelled "false" .kwFalse, spelled "and" .kwAnd, spelled "or" .kwOr,
  spelled "for" .kwFor, spelled "in" .kwIn, spelled "begin" .kwBegin, spelled "end" .kwEnd,
  spelled "while" .kwWhile, spelled "print" .kwPrint]

def symbolTerminals : List Terminal := [
  spelled "(" .leftParen, spelled ")" .rightParen, spelled "," .comma, spelled ".." .doubleDot,
  spelled ";" .semicolon, spelled "+" .plus, spelled "-" .minus, spelled "**" .caret,
  spelled "^" .caret, spelled "*" .asterisk, spelled "/" .slash, spelled "==" .equalEqual,
  spelled "=" .equal, spelled "!=" .notEqual, spelled "!" .bang, spelled ">=" .greaterEqual,
  spelled ">" .greater, spelled "<=" .lessEqual, spelled "<" .less]

def classTerminals : List Terminal := [
  ⟨some .identifier, .run isLetter fun c => isLetter c || isNumeral c⟩,
  ⟨some .number, .run isNumeral isNumeral⟩, ⟨some .string, .string⟩, ⟨none, .comment⟩,
  ⟨none, .run isWhite isWhite⟩]

def terminals : List Terminal := keywordTerminals ++ symbolTerminals ++ classTerminals

/-- The longest match among the terminals, the earlier of two equals. So a keyword wins over a name
only when it is the whole word. -/
def longest (cs : List Char) : List Terminal → Option (Option TokenKind × Nat)
  | [] => none
  | t :: ts =>
    match t.shape.matchLength cs, longest cs ts with
    | some n, some (kind, m) => some (if n < m then (kind, m) else (t.kind, n))
    | some n, none => some (t.kind, n)
    | none, other => other

/-- How the text ended: well, or at a character that no terminal matches. -/
inductive Ending where
  | complete
  | badCharacter (line : Nat) (c : Char)
deriving DecidableEq

/-- Only a name has its meaning in the token; those of numbers and strings are found in their
texts when the tree is built. -/
def tokenOf (kind : TokenKind) (text : List Char) (line : Nat) : Token :=
  let lexeme := Json.str (String.ofList text)
  ⟨kind, lexeme, if kind = .identifier then lexeme else .null, line⟩

/-- The tokens from the given line on, up to text that no terminal matches. The first list bounds
their number. -/
def scan : List Char → Nat → List Char → List Token × Ending
  | _ :: bound, line, c :: cs =>
    match longest (c :: cs) terminals with
    | none => ([], .badCharacter line c)
    | some (kind, n) =>
      let text := (c :: cs).take n
      let (tokens, ending) := scan bound (line + text.count '\n') ((c :: cs).drop n)
      (match kind with
        | some kind => tokenOf kind text line :: tokens
        | none => tokens, ending)
  | _, _, _ => ([], .complete)

end LetLang.Strict
