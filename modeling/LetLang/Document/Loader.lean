import LetLang.Document.Writer
import LetLang.Number.Text

namespace LetLang.Document

inductive LoadError where
  | notAProgram
  | notANode
  | unknownTag (tag : Json)
  | missingField (name : String)
  | unknownKind (name : Json)
  | notAToken (value : Json)
  /-- An array or an object in the place of a kind's name. -/
  | notAName (value : Json)
  | notALine (value : Json)
  | badLineText (text : String)
  | longLineText (digits : Nat)
  | lineIsNaN
  | lineIsInfinite
  | notAList (value : Json)
deriving DecidableEq

/-- The class of the exception that an error is raised as. -/
def LoadError.className : LoadError → String
  | .notAProgram | .unknownTag _ | .badLineText _ | .longLineText _ | .lineIsNaN => "ValueError"
  | .missingField _ | .unknownKind _ => "KeyError"
  | .notANode | .notAToken _ | .notAName _ | .notALine _ | .notAList _ => "TypeError"
  | .lineIsInfinite => "OverflowError"

/-- At most 200 characters of a bad text are shown. -/
def shownText (s : String) : String := String.ofList ((Text.quoted s).toList.take 200)

def LoadError.message : LoadError → String
  | .notAProgram => "Invalid AST document: expected a Program object"
  | .notANode => "Invalid AST object"
  | .unknownTag tag => "Unknown AST node type: " ++ tag.display
  | .missingField name => Text.quoted name
  | .unknownKind name => name.inspect
  | .notAToken (.str _) => "string indices must be integers, not 'str'"
  | .notAToken (.arr _) => "list indices must be integers or slices, not str"
  | .notAToken value => "'" ++ value.sortName ++ "' object is not subscriptable"
  | .notAName value => value.notANameMessage
  | .notALine value =>
    "int() argument must be a string, a bytes-like object or a real number, not '" ++
      value.sortName ++ "'"
  | .badLineText text => "invalid literal for int() with base 10: " ++ shownText text
  | .longLineText digits => Number.longTextMessage digits
  | .lineIsNaN => "cannot convert float NaN to integer"
  | .lineIsInfinite => "cannot convert float infinity to integer"
  | .notAList value => "'" ++ value.sortName ++ "' object is not iterable"

def required (name : String) (fields : List (String × Json)) : Except LoadError Json :=
  match Json.field? name fields with
  | some value => .ok value
  | none => .error (.missingField name)

def kindOf : Json → Except LoadError TokenKind
  | .str name =>
    match TokenKind.ofName? name with
    | some kind => .ok kind
    | none => .error (.unknownKind (.str name))
  | .arr items => .error (.notAName (.arr items))
  | .obj fields => .error (.notAName (.obj fields))
  | value => .error (.unknownKind value)

/-- A line number may be given as any number, a truth value or a text. -/
def lineOf : Json → Except LoadError Int
  | .int n => .ok n
  | .bool b => .ok (if b then 1 else 0)
  | .float x =>
    if x.isFinite then .ok x.truncate
    else .error (if x.isNaN then .lineIsNaN else .lineIsInfinite)
  | .str s =>
    match Number.ofText s.toList with
    | .ok n => .ok n
    | .error .notANumber => .error (.badLineText s)
    | .error (.tooManyDigits count) => .error (.longLineText count)
  | value => .error (.notALine value)

def token : Json → Except LoadError Token
  | .obj fields => do
    let kind ← kindOf (← required "kind" fields)
    let lexeme ← required "lexeme" fields
    let literal := (Json.field? "literal" fields).getD .null
    let line ← lineOf (← required "line" fields)
    return ⟨kind, lexeme, literal, line⟩
  | value => .error (.notAToken value)

def value : Json → Value
  | .obj fields =>
    if Json.field? nilMark fields = some (.str "Nil") then .nil else .data (.obj fields)
  | j => .data j

/-- A field of an object, with what it is as a node and as a list of nodes. -/
structure Field where
  raw : Json
  node : Except LoadError Node
  body : Except LoadError (List Node)

def requiredField (name : String) (fields : List (String × Field)) : Except LoadError Field :=
  match fields.lookup name with
  | some field => .ok field
  | none => .error (.missingField name)

def child (name : String) (fields : List (String × Field)) : Except LoadError Node := do
  (← requiredField name fields).node

/-- A child that may be left out. -/
def childOrAbsent (name : String) (fields : List (String × Field)) : Except LoadError Node :=
  match fields.lookup name with
  | some field => field.node
  | none => .ok .absent

def bodyOf (fields : List (String × Field)) : Except LoadError (List Node) := do
  (← requiredField "body" fields).body

def tokenOf (name : String) (fields : List (String × Field)) : Except LoadError Token := do
  token (← requiredField name fields).raw

/-- The node with the given tag and fields. The fields are read in the order in which they are
written, and the first violation on the way is the error. -/
def build (tag : String) (fields : List (String × Field)) : Except LoadError Node :=
  match tag with
  | "ExprStmt" => do return .exprStmt (← child "expression" fields)
  | "PrintStmt" => do return .printStmt (← child "expression" fields)
  | "VarDecl" => do
    return .varDecl (← tokenOf "name" fields) (← childOrAbsent "initializer" fields)
  | "IfStmt" => do
    return .ifStmt (← child "condition" fields) (← child "then_branch" fields)
      (← childOrAbsent "else_branch" fields)
  | "ForStmt" => do
    return .forStmt (← tokenOf "keyword" fields) (← child "start" fields) (← child "end" fields)
      (← bodyOf fields)
  | "WhileStmt" => do return .whileStmt (← child "condition" fields) (← bodyOf fields)
  | "Literal" => do return .literal (value (← requiredField "value" fields).raw)
  | "Binary" => do
    return .binary (← child "left" fields) (← tokenOf "operator" fields) (← child "right" fields)
  | "Logical" => do
    return .logical (← child "left" fields) (← tokenOf "operator" fields)
      (← child "right" fields)
  | "Unary" => do return .unary (← tokenOf "operator" fields) (← child "right" fields)
  | "Grouping" => do return .grouping (← child "expression" fields)
  | "Variable" => do return .var (← tokenOf "name" fields)
  | "Assign" => do return .assign (← tokenOf "name" fields) (← child "value" fields)
  | _ => .error (.unknownTag (.str tag))

/-- An object's node; its tag is looked at first. -/
def buildTagged (fields : List (String × Field)) : Except LoadError Node :=
  match fields.lookup "type" with
  | some ⟨.str tag, _, _⟩ => build tag fields
  | some ⟨tag, _, _⟩ => .error (.unknownTag tag)
  | none => .error (.unknownTag .null)

/-- The items of a text or of an object's names are texts, so only an empty one is a list of
nodes. -/
def emptyList (isEmpty : Bool) : Except LoadError (List Node) :=
  if isEmpty then .ok [] else .error .notANode

mutual
def node : Json → Except LoadError Node
  | .null => .ok .absent
  | .obj fields => buildTagged (nodeFields fields)
  | _ => .error .notANode
def nodeFields : List (String × Json) → List (String × Field)
  | [] => []
  | (name, v) :: fields => (name, ⟨v, node v, nodeList v⟩) :: nodeFields fields
def nodeList : Json → Except LoadError (List Node)
  | .arr items => nodes items
  | .str s => emptyList s.isEmpty
  | .obj fields => emptyList fields.isEmpty
  | v => .error (.notAList v)
def nodes : List Json → Except LoadError (List Node)
  | [] => .ok []
  | item :: items => do
    let first ← node item
    let others ← nodes items
    return first :: others
end

def program : Json → Except LoadError (List Node)
  | .obj fields =>
    if Json.field? "type" fields = some (.str "Program") then do
      nodeList (← required "body" fields)
    else .error .notAProgram
  | _ => .error .notAProgram

end LetLang.Document
