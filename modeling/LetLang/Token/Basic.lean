import LetLang.Token.Kind
import LetLang.Value

namespace LetLang

/-- A classified piece of source text. A token that was read from a document may have any data
value as its lexeme and literal; a null literal is none. -/
structure Token where
  kind : TokenKind
  lexeme : Json
  literal : Json
  line : Int
deriving DecidableEq, Inhabited

namespace Token

/-- The token after the last one. -/
def endOfInput (line : Int) : Token := ⟨.eof, .str "", .null, line⟩

/-- The lexeme as it appears in messages. -/
def text (t : Token) : String := t.lexeme.display

/-- One line of the token listing: three columns and the line number. -/
def listing (t : Token) : String :=
  let literal := if t.literal = .null then "" else t.literal.inspect
  Text.padRight 15 t.kind.name ++ " " ++ Text.padRight 15 t.lexeme.inspect ++ " " ++
    Text.padRight 15 literal ++ " line: " ++ toString t.line

def inspect (t : Token) : String :=
  "Token(kind=<TokenKind." ++ t.kind.name ++ ": " ++ toString t.kind.position ++ ">, lexeme=" ++
    t.lexeme.inspect ++ ", literal=" ++ t.literal.inspect ++ ", line=" ++ toString t.line ++ ")"

/-- Tokens agree when their parts do. -/
def agrees (a b : Token) : Bool :=
  decide (a.kind = b.kind) && a.lexeme.agrees b.lexeme && a.literal.agrees b.literal &&
    a.line == b.line

end Token

end LetLang
