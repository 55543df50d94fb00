import LetLang.Strict.Terminal
import LetLang.Strict.Tree
import LetLang.Node.Basic
import LetLang.Token.Lexer

namespace LetLang.Strict

/-- What a tree means: a token, a node, or the statements of a block or program. -/
inductive Meaning where
  | token (t : Token)
  | node (n : Node)
  | nodes (ns : List Node)

/-- Left-associative operations over operands with operators between them. -/
def leftward (build : Node → Token → Node → Node) : Node → List Meaning → Node
  | left, .token operator :: .node right :: rest =>
    leftward build (build left operator right) rest
  | left, _ => left

def statementsOf : List Meaning → List Node
  | [] => []
  | .node n :: ms => n :: statementsOf ms
  | _ :: ms => statementsOf ms

/-- A number must have a digit, and no more of them than numbers may have. -/
def numberOf (t : Token) : Except Report Node :=
  let text := t.text.toList
  if Piece.isNumber text then .ok (.literal (.int (Piece.numberValue text)))
  else .error ⟨t.line, Report.placeAt t.text, LexicalError.invalidNumber.message⟩

def stringOf (t : Token) : Node :=
  .literal (.str (String.ofList (t.text.toList.drop 1).dropLast))

def assignmentOf (target : Node) (equals : Token) (value : Node) : Except Report Node :=
  match target with
  | .var name => .ok (.assign name value)
  | _ => .error ⟨equals.line, Report.placeAt equals.text, SyntaxError.invalidAssignment.message⟩

/-- The meaning of a rule's node, given those of its children. The grammar gives a rule no other
children than those named here. -/
def combine (r : Rule) (parts : List Meaning) : Except Report Meaning :=
  match r, parts with
  | .program, parts | .block, parts => .ok (.nodes (statementsOf parts))
  | .varDecl, [.token name] => .ok (.node (.varDecl name .absent))
  | .varDecl, [.token name, .node e] => .ok (.node (.varDecl name e))
  | .ifStmt, [.node c, .node t] => .ok (.node (.ifStmt c t .absent))
  | .ifStmt, [.node c, .node t, .node e] => .ok (.node (.ifStmt c t e))
  | .printStmt, [.node e] => .ok (.node (.printStmt e))
  -- The variable of a loop is read, but no part of its tree.
  | .forStmt, [.token keyword, .token _, .node start, .node finish, .nodes body] =>
    .ok (.node (.forStmt keyword start finish body))
  | .whileStmt, [.node c, .nodes body] => .ok (.node (.whileStmt c body))
  | .exprStmt, [.node e] => .ok (.node (.exprStmt e))
  | .assignment, [.node target, .token equals, .node value] =>
    (assignmentOf target equals value).map .node
  | .logicOr, .node first :: rest | .logicAnd, .node first :: rest =>
    .ok (.node (leftward .logical first rest))
  | .comma, .node first :: rest | .equality, .node first :: rest
  | .comparison, .node first :: rest | .sum, .node first :: rest
  | .product, .node first :: rest | .exponent, .node first :: rest =>
    .ok (.node (leftward .binary first rest))
  | .unary, [.token operator, .node e] => .ok (.node (.unary operator e))
  | .trueLiteral, _ => .ok (.node (.literal (.bool true)))
  | .falseLiteral, _ => .ok (.node (.literal (.bool false)))
  | .numberLiteral, [.token t] => (numberOf t).map .node
  | .stringLiteral, [.token t] => .ok (.node (stringOf t))
  | .variableName, [.token t] => .ok (.node (.var t))
  | .grouping, [.node e] => .ok (.node (.grouping e))
  | _, _ => .ok (.nodes [])

mutual
/-- What a tree stands for, or its first defect. Children are looked at before their parent and from
left to right. -/
def meaning : Tree → Except Report Meaning
  | .leaf t => .ok (.token t)
  | .node r children => do combine r (← meanings children)
def meanings : List Tree → Except Report (List Meaning)
  | [] => .ok []
  | tree :: trees => do
    let first ← meaning tree
    let others ← meanings trees
    return first :: others
end

def unexpectedToken : String := "Unexpected token."

def unexpectedEnd : String := "Unexpected end of input."

/-- What is reported when the grammar cannot go on at the first of these tokens. -/
def refusal (source : List Char) (ending : Ending) : List Token → Report
  | t :: _ => ⟨t.line, Report.placeAt t.text, unexpectedToken⟩
  | [] =>
    match ending with
    | .badCharacter line c =>
      ⟨line, Report.placeAt (String.ofList [c]), LexicalError.unexpectedCharacter.message⟩
    | .complete => ⟨Piece.endLine source, Report.placeAtEnd, unexpectedEnd⟩

def programOf : List Meaning → List Node
  | [.nodes ns] => ns
  | _ => []

/-- A text is accepted as a whole or refused with its first error. Syntax comes first, and a
character that no terminal matches is met only when the tokens before it can go on. -/
def parse (source : String) : Except Report (List Node) :=
  let cs := source.toList
  let (tokens, ending) := scan cs 1 cs
  match readProgram tokens, ending with
  | .error rest, _ => .error (refusal cs ending rest)
  | .ok _, .badCharacter _ _ => .error (refusal cs ending [])
  | .ok trees, .complete => (meanings trees).map programOf

/-- The one-line text of an error that refuses a program. -/
def errorText (r : Report) : String :=
  "line " ++ toString r.line ++ ": error " ++ r.place ++ ": " ++ r.message

end LetLang.Strict
