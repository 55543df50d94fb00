import LetLang.Json.Basic
import LetLang.Number.Shortest
import LetLang.Text.Quoted

namespace LetLang.Json

def floatDisplay (x : Binary64) : String := x.textWith "inf" "nan"

mutual
/-- The text of a value inside another one: strings are quoted. -/
def inspect : Json → String
  | .null => "None"
  | .bool true => "True"
  | .bool false => "False"
  | .int n => toString n
  | .float x => floatDisplay x
  | .str s => Text.quoted s
  | .arr items => "[" ++ ", ".intercalate (inspectItems items) ++ "]"
  | .obj fields => "\x7b" ++ ", ".intercalate (inspectFields fields) ++ "\x7d"
def inspectItems : List Json → List String
  | [] => []
  | item :: items => inspect item :: inspectItems items
def inspectFields : List (String × Json) → List String
  | [] => []
  | (name, value) :: fields => (Text.quoted name ++ ": " ++ inspect value) :: inspectFields fields
end

/-- The text of a value on its own: a string stands for itself. -/
def display : Json → String
  | .str s => s
  | value => inspect value

/-- How messages call the sort of a value. -/
def sortName : Json → String
  | .null => "NoneType"
  | .bool _ => "bool"
  | .int _ => "int"
  | .float _ => "float"
  | .str _ => "str"
  | .arr _ => "list"
  | .obj _ => "dict"

/-- The message for a value with parts in the place of a name. -/
def notANameMessage (value : Json) : String := "unhashable type: '" ++ value.sortName ++ "'"

end LetLang.Json
