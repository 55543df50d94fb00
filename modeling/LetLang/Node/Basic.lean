import LetLang.Token.Basic

namespace LetLang

/-- A syntax tree. Statements and expressions share one type, and so does the missing child, because
a tree that was read from a document may have any node in any place. -/
inductive Node where
  | absent
  | literal (value : Value)
  | binary (left : Node) (operator : Token) (right : Node)
  | unary (operator : Token) (right : Node)
  | logical (left : Node) (operator : Token) (right : Node)
  | grouping (expression : Node)
  | var (name : Token)
  | assign (name : Token) (value : Node)
  | exprStmt (expression : Node)
  | printStmt (expression : Node)
  | varDecl (name : Token) (initializer : Node)
  | ifStmt (condition thenBranch elseBranch : Node)
  | forStmt (keyword : Token) (start finish : Node) (body : List Node)
  | whileStmt (condition : Node) (body : List Node)
deriving Inhabited

namespace Node

section
variable (value : Value → Value → Bool) (token : Token → Token → Bool)

mutual
/-- Trees of one shape, whose literals and tokens are compared as given. -/
def sameBy : Node → Node → Bool
  | .absent, .absent => true
  | .literal v, .literal w => value v w
  | .binary a o b, .binary a' o' b' => sameBy a a' && token o o' && sameBy b b'
  | .unary o a, .unary o' a' => token o o' && sameBy a a'
  | .logical a o b, .logical a' o' b' => sameBy a a' && token o o' && sameBy b b'
  | .grouping a, .grouping a' => sameBy a a'
  | .var n, .var n' => token n n'
  | .assign n a, .assign n' a' => token n n' && sameBy a a'
  | .exprStmt a, .exprStmt a' => sameBy a a'
  | .printStmt a, .printStmt a' => sameBy a a'
  | .varDecl n a, .varDecl n' a' => token n n' && sameBy a a'
  | .ifStmt a b c, .ifStmt a' b' c' => sameBy a a' && sameBy b b' && sameBy c c'
  | .forStmt k a b s, .forStmt k' a' b' s' =>
    token k k' && sameBy a a' && sameBy b b' && sameAllBy s s'
  | .whileStmt a s, .whileStmt a' s' => sameBy a a' && sameAllBy s s'
  | _, _ => false
def sameAllBy : List Node → List Node → Bool
  | [], [] => true
  | a :: as, b :: bs => sameBy a b && sameAllBy as bs
  | _, _ => false
end

variable {value token}

mutual
theorem sameBy_iff (hv : ∀ v w, value v w = true ↔ v = w)
    (ht : ∀ t u, token t u = true ↔ t = u) : ∀ a b : Node, sameBy value token a b = true ↔ a = b
  | .absent, b => by cases b <;> simp [sameBy]
  | .literal _, b => by cases b <;> simp [sameBy, hv]
  | .binary a _ c, b => by
    cases b <;> simp [sameBy, ht, sameBy_iff hv ht a, sameBy_iff hv ht c, and_assoc]
  | .unary _ a, b => by cases b <;> simp [sameBy, ht, sameBy_iff hv ht a]
  | .logical a _ c, b => by
    cases b <;> simp [sameBy, ht, sameBy_iff hv ht a, sameBy_iff hv ht c, and_assoc]
  | .grouping a, b => by cases b <;> simp [sameBy, sameBy_iff hv ht a]
  | .var _, b => by cases b <;> simp [sameBy, ht]
  | .assign _ a, b => by cases b <;> simp [sameBy, ht, sameBy_iff hv ht a]
  | .exprStmt a, b => by cases b <;> simp [sameBy, sameBy_iff hv ht a]
  | .printStmt a, b => by cases b <;> simp [sameBy, sameBy_iff hv ht a]
  | .varDecl _ a, b => by cases b <;> simp [sameBy, ht, sameBy_iff hv ht a]
  | .ifStmt a c d, b => by
    cases b <;> simp [sameBy, sameBy_iff hv ht a, sameBy_iff hv ht c, sameBy_iff hv ht d,
      and_assoc]
  | .forStmt _ a c s, b => by
    cases b <;> simp [sameBy, ht, sameBy_iff hv ht a, sameBy_iff hv ht c, sameAllBy_iff hv ht s,
      and_assoc]
  | .whileStmt a s, b => by cases b <;> simp [sameBy, sameBy_iff hv ht a, sameAllBy_iff hv ht s]
theorem sameAllBy_iff (hv : ∀ v w, value v w = true ↔ v = w)
    (ht : ∀ t u, token t u = true ↔ t = u) :
    ∀ as bs : List Node, sameAllBy value token as bs = true ↔ as = bs
  | [], bs => by cases bs <;> simp [sameAllBy]
  | a :: as, bs => by cases bs <;> simp [sameAllBy, sameBy_iff hv ht a, sameAllBy_iff hv ht as]
end

end

instance : DecidableEq Node := fun a b =>
  decidable_of_iff (sameBy (fun v w => decide (v = w)) (fun t u => decide (t = u)) a b = true)
    (sameBy_iff (by simp) (by simp) a b)

/-- Trees of one shape, whose literals and tokens agree. -/
def agrees : Node → Node → Bool := sameBy Value.agrees Token.agrees

/-- A token to blame when a statement as a whole goes wrong: the first one on the way down
through what the statement evaluates first. -/
def anchor? : Node → Option Token
  | .binary _ operator _ | .unary operator _ | .logical _ operator _ => some operator
  | .var name | .assign name _ | .varDecl name _ => some name
  | .forStmt keyword _ _ _ => some keyword
  | .grouping e | .exprStmt e | .printStmt e => e.anchor?
  | .ifStmt condition _ _ | .whileStmt condition _ => condition.anchor?
  | .literal _ | .absent => none

end Node

end LetLang
