import LetLang.Token.Piece

namespace LetLang

namespace Piece

def lineFeeds (text : List Char) : Nat := text.count '\n'

/-- Pieces with the lines they start on: each line feed in a piece counts. -/
def numbered (line : Nat) : List Piece → List (Nat × Piece)
  | [] => []
  | p :: ps => (line, p) :: numbered (line + lineFeeds p.text) ps

/-- The meaning of a token's text: the value of a number, the inside of a string, a name. -/
def literal (kind : TokenKind) (text : List Char) : Json :=
  match kind with
  | .number => .int (numberValue text)
  | .string => .str (String.ofList (text.drop 1).dropLast)
  | .identifier => .str (String.ofList text)
  | _ => .null

def token? : Nat × Piece → Option Token
  | (line, .token kind text) => some ⟨kind, .str (String.ofList text), literal kind text, line⟩
  | _ => none

/-- The error that a piece stands for, with its place. -/
def error? : Piece → Option (String × LexicalError)
  | .stray c => some (Report.placeAt (String.ofList [c]), .unexpectedCharacter)
  | .badNumber text => some (Report.placeAt (String.ofList text), .invalidNumber)
  | .openString _ => some (Report.placeAtEnd, .unterminatedString)
  | _ => none

def report? : Nat × Piece → Option Report
  | (line, p) => p.error?.map fun (place, error) => ⟨line, place, error.message⟩

end Piece

/-- The outcome of reading a source text: its tokens, with one for the end of input, and the
errors on the way. -/
structure Scan where
  tokens : List Token
  reports : List Report
deriving DecidableEq

def Piece.endLine (source : List Char) : Nat := 1 + Piece.lineFeeds source

def tokenize (source : String) : Scan :=
  let pieces := Piece.numbered 1 (Piece.ofSource source.toList)
  { tokens := pieces.filterMap Piece.token? ++ [.endOfInput (Piece.endLine source.toList)]
    reports := pieces.filterMap Piece.report? }

end LetLang
