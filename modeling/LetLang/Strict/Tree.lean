import LetLang.Strict.Grammar
import LetLang.Token.Basic

namespace LetLang.Strict

inductive Tree where
  | leaf (t : Token)
  | node (r : Rule) (children : List Tree)
deriving Inhabited

/-- What a rule makes of its children. -/
def Rule.tree (r : Rule) (children : List Tree) : List Tree :=
  match r.isTransparent, children with
  | true, [child] => [child]
  | _, children => [.node r children]

/-- Trees and the tokens after them, or the tokens from the one that cannot go on. -/
abbrev Parsed := Except (List Token) (List Tree × List Token)

def canStart (p : Pattern) : List Token → Bool
  | [] => false
  | t :: _ => p.startsWith t.kind

/-- As many readings as the next token allows. The first list bounds their number. -/
def repeatWhile (more : List Token → Bool) (read : List Token → Parsed) :
    List Token → List Token → Parsed
  | [], ts => .ok ([], ts)
  | _ :: bound, ts =>
    if more ts then
      match read ts with
      | .error ts => .error ts
      | .ok (first, rest) =>
        match repeatWhile more read bound rest with
        | .error ts => .error ts
        | .ok (others, rest) => .ok (first ++ others, rest)
    else .ok ([], ts)

/-- Reads a pattern. Where there is a choice the next token decides it, and an optional part is
taken whenever the next token allows it. The number bounds the depth of patterns inside one another.
-/
def read : Nat → Pattern → List Token → Parsed
  | 0, _, ts => .error ts
  | depth + 1, p, ts =>
    match p with
    | .keep kinds =>
      match ts with
      | t :: rest => if t.kind ∈ kinds then .ok ([.leaf t], rest) else .error ts
      | [] => .error ts
    | .skip kind =>
      match ts with
      | t :: rest => if t.kind = kind then .ok ([], rest) else .error ts
      | [] => .error ts
    | .rule r => (read depth r.pattern ts).map fun (children, rest) => (r.tree children, rest)
    | .seq first second =>
      match read depth first ts with
      | .error ts => .error ts
      | .ok (left, rest) =>
        (read depth second rest).map fun (right, rest) => (left ++ right, rest)
    | .either first second =>
      if canStart first ts then read depth first ts else read depth second ts
    | .optional p => if canStart p ts then read depth p ts else .ok ([], ts)
    | .many p => repeatWhile (canStart p) (read depth p) ts ts

/-- Deep enough for any text: between two tokens the patterns nest less than this. -/
def depthPerToken : Nat := 100

/-- The tree of a whole program, or the tokens from the first that cannot go on. -/
def readProgram (ts : List Token) : Except (List Token) (List Tree) :=
  match read (depthPerToken * (ts.length + 1)) (.rule .program) ts with
  | .error ts => .error ts
  | .ok (trees, []) => .ok trees
  | .ok (_, t :: ts) => .error (t :: ts)

end LetLang.Strict
