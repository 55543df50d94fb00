import LetLang.Parser.Statement
import LetLang.Token.Lexer
import LetLang.Node.Display

namespace LetLang

/-- A source text as tokens and statements. The errors in the text come before those in the syntax.
-/
structure Source where
  tokens : List Token
  program : List Node
  lexical : List Report
  syntactic : List Report

namespace Source

def ofText (text : String) : Source :=
  let scan := tokenize text
  let parsed := Parser.parse scan.tokens
  ⟨scan.tokens, parsed.program, scan.reports, parsed.reports⟩

def reports (s : Source) : List Report := s.lexical ++ s.syntactic

/-- Nothing but the end of input: blanks and comments only. -/
def isEmpty (s : Source) : Bool := s.tokens.length == 1

/-- What a trace of the highest level shows of a text before it is run. -/
def listing (s : Source) : List String :=
  s.tokens.map (fun t => "token " ++ t.listing) ++ s.program.map fun n => "ast " ++ n.inspect

end Source

end LetLang
