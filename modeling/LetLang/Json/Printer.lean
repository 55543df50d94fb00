import LetLang.Json.Basic
import LetLang.Number.Shortest
import LetLang.Text.Quoted

namespace LetLang.Json

def escapeChar (c : Char) : List Char :=
  if c = '\x22' then ['\\', '\x22']
  else if c = '\\' then ['\\', '\\']
  else if c = '\n' then ['\\', 'n']
  else if c = '\r' then ['\\', 'r']
  else if c = '\t' then ['\\', 't']
  else if c = '\x08' then ['\\', 'b']
  else if c = '\x0c' then ['\\', 'f']
  else if c.toNat < 0x20 then '\\' :: 'u' :: Text.hexDigits 4 c.toNat
  else [c]

/-- Each of the writing functions puts its text in front of what follows. -/
def writeString (s : String) (rest : List Char) : List Char :=
  '\x22' :: (s.toList.flatMap escapeChar ++ '\x22' :: rest)

def writeText (s : String) (rest : List Char) : List Char := s.toList ++ rest

/-- Values without parts. -/
def writeScalar : Json → List Char → List Char
  | .bool true, rest => writeText "true" rest
  | .bool false, rest => writeText "false" rest
  | .int n, rest => writeText (toString n) rest
  | .float x, rest => writeText (x.textWith "Infinity" "NaN") rest
  | .str s, rest => writeString s rest
  | _, rest => writeText "null" rest

mutual
def writeCompact : Json → List Char → List Char
  | .arr items, rest => '[' :: writeItems true items (']' :: rest)
  | .obj fields, rest => '\x7b' :: writeFields true fields ('\x7d' :: rest)
  | value, rest => writeScalar value rest
def writeItems (first : Bool) : List Json → List Char → List Char
  | [], rest => rest
  | item :: items, rest =>
    (if first then id else (',' :: ·)) (writeCompact item (writeItems false items rest))
def writeFields (first : Bool) : List (String × Json) → List Char → List Char
  | [], rest => rest
  | (name, value) :: fields, rest =>
    (if first then id else (',' :: ·))
      (writeString name (':' :: writeCompact value (writeFields false fields rest)))
end

def compact (value : Json) : String := String.ofList (writeCompact value [])

/-- A new line with two blanks for each level. -/
def newLine (level : Nat) (rest : List Char) : List Char :=
  '\n' :: (List.replicate (2 * level) ' ' ++ rest)

mutual
def writeIndented (level : Nat) : Json → List Char → List Char
  | .arr [], rest => '[' :: ']' :: rest
  | .arr (item :: items), rest =>
    '[' :: newLine (level + 1) (writeIndented (level + 1) item
      (writeMoreItems (level + 1) items (newLine level (']' :: rest))))
  | .obj [], rest => '\x7b' :: '\x7d' :: rest
  | .obj ((name, value) :: fields), rest =>
    '\x7b' :: newLine (level + 1) (writeString name (':' :: ' ' ::
      writeIndented (level + 1) value
        (writeMoreFields (level + 1) fields (newLine level ('\x7d' :: rest)))))
  | value, rest => writeScalar value rest
def writeMoreItems (level : Nat) : List Json → List Char → List Char
  | [], rest => rest
  | item :: items, rest =>
    ',' :: newLine level (writeIndented level item (writeMoreItems level items rest))
def writeMoreFields (level : Nat) : List (String × Json) → List Char → List Char
  | [], rest => rest
  | (name, value) :: fields, rest =>
    ',' :: newLine level (writeString name (':' :: ' ' ::
      writeIndented level value (writeMoreFields level fields rest)))
end

/-- One field or item to a line. -/
def indented (value : Json) : String := String.ofList (writeIndented 0 value [])

end LetLang.Json
