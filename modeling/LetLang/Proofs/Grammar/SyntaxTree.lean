import LetLang.Proofs.Grammar.Derivation
import LetLang.Strict.Build

namespace LetLang.Strict

/-- The levels that a rule adds to its child at a place: one inside of parentheses and blocks, at
the operand of a sign, an exponent, an assigned value and the branches of a condition. -/
def Rule.weight (r : Rule) (place : Nat) : Nat :=
  match r, place with
  | .grouping, _ | .block, _ | .unary, 1 | .exponent, 2 | .assignment, 2 | .ifStmt, 1
  | .ifStmt, 2 => 1
  | _, _ => 0

mutual
/-- The levels inside one another. -/
def Tree.nesting : Tree → Nat
  | .leaf _ => 0
  | .node r children => nestingFrom r 0 children
/-- The same for the children of a rule from a place on. -/
def nestingFrom (r : Rule) (place : Nat) : List Tree → Nat
  | [] => 0
  | tree :: trees => max (r.weight place + tree.nesting) (nestingFrom r (place + 1) trees)
end

def assigned (target value : Node) : Node :=
  match target with
  | .var name => .assign name value
  | other => other

/-- What a rule makes of the meanings of its children when tokens carry their own literals. A bad
assignment stands for its target. -/
def Rule.build (r : Rule) (parts : List Meaning) : Meaning :=
  match r, parts with
  | .numberLiteral, [.token t] | .stringLiteral, [.token t] => .node (.literal (.data t.literal))
  | .assignment, [.node target, .token _, .node value] => .node (assigned target value)
  | r, parts =>
    match combine r parts with
    | .ok m => m
    | .error _ => .nodes []

mutual
/-- The abstract syntax of a tree. -/
def Tree.ast : Tree → Meaning
  | .leaf t => .token t
  | .node r children => r.build (astAll children)
def astAll : List Tree → List Meaning
  | [] => []
  | tree :: trees => tree.ast :: astAll trees
end

/-- The statements that the tree of a program stands for. -/
def Tree.statements (tree : Tree) : List Node := programOf [tree.ast]

/-- Is the tree that of a bare variable? -/
def Tree.isVariable (tree : Tree) : Bool :=
  match tree.ast with
  | .node (.var _) => true
  | _ => false

/-- The equals sign of an assignment to something else than a variable. -/
def Rule.ownBadTargets (r : Rule) (children : List Tree) : List Token :=
  match r, children with
  | .assignment, [target, .leaf equals, _] => if target.isVariable then [] else [equals]
  | _, _ => []

mutual
/-- The equals signs of all bad assignments, those inside of an assignment before its own. -/
def Tree.badTargets : Tree → List Token
  | .leaf _ => []
  | .node r children => badTargetsAll children ++ r.ownBadTargets children
def badTargetsAll : List Tree → List Token
  | [] => []
  | tree :: trees => tree.badTargets ++ badTargetsAll trees
end

theorem nestingFrom_append (r : Rule) (place : Nat) (left right : List Tree) :
    nestingFrom r place (left ++ right) =
      max (nestingFrom r place left) (nestingFrom r (place + left.length) right) := by
  induction left generalizing place with
  | nil => simp [nestingFrom]
  | cons tree left ih =>
    rw [List.cons_append, nestingFrom, nestingFrom, ih, Nat.max_assoc, List.length_cons,
      Nat.add_right_comm, Nat.add_assoc]

theorem badTargetsAll_append (left right : List Tree) :
    badTargetsAll (left ++ right) = badTargetsAll left ++ badTargetsAll right := by
  induction left with
  | nil => rfl
  | cons tree left ih => simp only [List.cons_append, badTargetsAll, ih, List.append_assoc]

theorem badTargetsAll_singleton (tree : Tree) : badTargetsAll [tree] = tree.badTargets := by
  rw [badTargetsAll, badTargetsAll, List.append_nil]

theorem astAll_append (left right : List Tree) :
    astAll (left ++ right) = astAll left ++ astAll right := by
  induction left with
  | nil => rfl
  | cons tree left ih => simp only [List.cons_append, astAll, ih]

theorem astAll_eq_singleton {trees : List Tree} {m : Meaning} (h : astAll trees = [m]) :
    ∃ tree, trees = [tree] ∧ tree.ast = m := by
  match trees, h with
  | [tree], h => exact ⟨tree, rfl, by simpa [astAll] using h⟩
  | _ :: _ :: _, h => simp [astAll] at h

theorem Rule.weight_zero_of_transparent {r : Rule} (h : r.isTransparent = true) :
    r.weight 0 = 0 := by
  cases r <;> first | rfl | cases h

theorem Rule.nesting_tree {r : Rule} {children : List Tree} {tree : Tree}
    (h : r.tree children = [tree]) : tree.nesting = nestingFrom r 0 children := by
  obtain ⟨hr, child, rfl, ht⟩ | ht := r.tree_cases children
  · obtain ⟨rfl⟩ := ht.symm.trans h
    simp [nestingFrom, r.weight_zero_of_transparent hr]
  · obtain ⟨rfl⟩ := ht.symm.trans h
    rw [Tree.nesting]

theorem Rule.badTargets_tree (r : Rule) (children : List Tree) :
    badTargetsAll (r.tree children) = badTargetsAll children ++ r.ownBadTargets children := by
  obtain ⟨hr, child, rfl, ht⟩ | ht := r.tree_cases children
  · have ho : r.ownBadTargets [child] = [] := by cases r <;> rfl
    rw [ht, ho, List.append_nil]
  · rw [ht, badTargetsAll_singleton, Tree.badTargets]

end LetLang.Strict
