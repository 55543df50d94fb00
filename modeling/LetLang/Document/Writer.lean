import LetLang.Node.Display

namespace LetLang.Document

/-- Nil is an object with a mark, since null stands for what is absent. -/
def nilMark : String := "__type__"

def ofValue : Value → Json
  | .nil => .obj [(nilMark, .str "Nil")]
  | .data j => j

def ofToken (t : Token) : Json :=
  .obj [("kind", .str t.kind.name), ("lexeme", t.lexeme), ("literal", t.literal),
    ("line", .int t.line)]

/-- An object for a node of the given tag. -/
def tagged (tag : String) (fields : List (String × Json)) : Json :=
  .obj (("type", .str tag) :: fields)

mutual
/-- An object for each node, with its tag first and its fields in a fixed order. -/
def ofNode : Node → Json
  | .absent => .null
  | .literal v => tagged "Literal" [("value", ofValue v)]
  | .binary a o b => tagged "Binary"
      [("left", ofNode a), ("operator", ofToken o), ("right", ofNode b)]
  | .unary o a => tagged "Unary" [("operator", ofToken o), ("right", ofNode a)]
  | .logical a o b => tagged "Logical"
      [("left", ofNode a), ("operator", ofToken o), ("right", ofNode b)]
  | .grouping a => tagged "Grouping" [("expression", ofNode a)]
  | .var n => tagged "Variable" [("name", ofToken n)]
  | .assign n a => tagged "Assign" [("name", ofToken n), ("value", ofNode a)]
  | .exprStmt a => tagged "ExprStmt" [("expression", ofNode a)]
  | .printStmt a => tagged "PrintStmt" [("expression", ofNode a)]
  | .varDecl n a => tagged "VarDecl" [("name", ofToken n), ("initializer", ofNode a)]
  | .ifStmt a b c => tagged "IfStmt"
      [("condition", ofNode a), ("then_branch", ofNode b), ("else_branch", ofNode c)]
  | .forStmt k a b s => tagged "ForStmt" [("keyword", ofToken k), ("start", ofNode a),
      ("end", ofNode b), ("body", .arr (ofNodes s))]
  | .whileStmt a s => tagged "WhileStmt"
      [("condition", ofNode a), ("body", .arr (ofNodes s))]
def ofNodes : List Node → List Json
  | [] => []
  | a :: as => ofNode a :: ofNodes as
end

def ofProgram (program : List Node) : Json := tagged "Program" [("body", .arr (ofNodes program))]

end LetLang.Document
