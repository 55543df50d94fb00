import LetLang.Node.Basic

namespace LetLang.Node

/-- The name of a node's kind, also its tag in documents. -/
def kindName : Node → String
  | .absent => "NoneType"
  | .literal _ => "Literal"
  | .binary _ _ _ => "Binary"
  | .unary _ _ => "Unary"
  | .logical _ _ _ => "Logical"
  | .grouping _ => "Grouping"
  | .var _ => "Variable"
  | .assign _ _ => "Assign"
  | .exprStmt _ => "ExprStmt"
  | .printStmt _ => "PrintStmt"
  | .varDecl _ _ => "VarDecl"
  | .ifStmt _ _ _ => "IfStmt"
  | .forStmt _ _ _ _ => "ForStmt"
  | .whileStmt _ _ => "WhileStmt"

def withFields (name : String) (fields : List (String × String)) : String :=
  name ++ "(" ++ ", ".intercalate (fields.map fun (field, text) => field ++ "=" ++ text) ++ ")"

mutual
/-- The text of a tree in a trace: each node as its name with its fields in brackets. -/
def inspect : Node → String
  | .absent => "None"
  | .literal v => withFields "Literal" [("value", v.inspect)]
  | .binary a o b => withFields "Binary"
      [("left", inspect a), ("operator", o.inspect), ("right", inspect b)]
  | .unary o a => withFields "Unary" [("operator", o.inspect), ("right", inspect a)]
  | .logical a o b => withFields "Logical"
      [("left", inspect a), ("operator", o.inspect), ("right", inspect b)]
  | .grouping a => withFields "Grouping" [("expression", inspect a)]
  | .var n => withFields "Variable" [("name", n.inspect)]
  | .assign n a => withFields "Assign" [("name", n.inspect), ("value", inspect a)]
  | .exprStmt a => withFields "ExprStmt" [("expression", inspect a)]
  | .printStmt a => withFields "PrintStmt" [("expression", inspect a)]
  | .varDecl n a => withFields "VarDecl" [("name", n.inspect), ("initializer", inspect a)]
  | .ifStmt a b c => withFields "IfStmt"
      [("condition", inspect a), ("then_branch", inspect b), ("else_branch", inspect c)]
  | .forStmt k a b s => withFields "ForStmt" [("keyword", k.inspect), ("start", inspect a),
      ("end", inspect b), ("body", "[" ++ ", ".intercalate (inspectAll s) ++ "]")]
  | .whileStmt a s => withFields "WhileStmt" [("condition", inspect a),
      ("body", "[" ++ ", ".intercalate (inspectAll s) ++ "]")]
def inspectAll : List Node → List String
  | [] => []
  | a :: as => inspect a :: inspectAll as
end

end LetLang.Node
