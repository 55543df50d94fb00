import LetLang.Proofs.Execution.Part

namespace LetLang

/-- What a name is used for. -/
inductive NameUse where
  | read
  | assigned
  | declared
deriving DecidableEq

namespace Node

mutual
/-- The names in a tree, each with its use. -/
def uses : Node → List (NameUse × Token)
  | .absent | .literal _ => []
  | .var name => [(.read, name)]
  | .assign name e => (.assigned, name) :: e.uses
  | .varDecl name e => (.declared, name) :: e.uses
  | .grouping e | .unary _ e | .exprStmt e | .printStmt e => e.uses
  | .binary l _ r | .logical l _ r => l.uses ++ r.uses
  | .ifStmt c a b => c.uses ++ (a.uses ++ b.uses)
  | .forStmt _ a b body => a.uses ++ (b.uses ++ allUses body)
  | .whileStmt c body => c.uses ++ allUses body
def allUses : List Node → List (NameUse × Token)
  | [] => []
  | node :: nodes => node.uses ++ allUses nodes
end

end Node

/-- The names in the trees of a task. -/
def Task.uses : Task → List (NameUse × Token)
  | program nodes => Node.allUses nodes
  | eval _ e => e.uses
  | exec _ s => s.uses
  | sequence _ body | times _ body _ => Node.allUses body
  | loop _ c body _ => c.uses ++ Node.allUses body

variable {settings : Settings} {p q : Part}

/-- One part of a run begins others with names of its own only. -/
theorem Begins.uses_subset (h : Begins settings p q) : q.task.uses ⊆ p.task.uses := by
  cases h <;> simp [Task.uses, Node.uses, Node.allUses]

end LetLang
