import LetLang.Proofs.Execution.Invariant
import LetLang.Proofs.Parsing.Relabeling

namespace LetLang

def Fault.map (f : Token → Token) (x : Fault) : Fault := { x with token := x.token.map f }

def Stop.map (f : Token → Token) : Stop → Stop
  | .fault x => .fault (x.map f)
  | stop => stop

theorem Stop.map_id (stop : Stop) : stop.map id = stop := by
  cases stop <;> simp [map, Fault.map]

namespace Node

theorem map_eq_absent_iff (f : Token → Token) (node : Node) : map f node = .absent ↔ node = .absent := by
  cases node <;> simp [map]

theorem kindName_map (f : Token → Token) (node : Node) : (map f node).kindName = node.kindName := by
  cases node <;> rfl

theorem anchor?_map (f : Token → Token) : ∀ node : Node, (map f node).anchor? = node.anchor?.map f
  | .absent | .literal _ | .binary _ _ _ | .unary _ _ | .logical _ _ _ | .var _ | .assign _ _
  | .varDecl _ _ | .forStmt _ _ _ _ => rfl
  | .grouping e | .exprStmt e | .printStmt e | .ifStmt e _ _ | .whileStmt e _ => anchor?_map f e

mutual
theorem map_id : ∀ node : Node, map id node = node
  | .absent | .literal _ | .var _ => rfl
  | .grouping e | .exprStmt e | .printStmt e => by rw [map, map_id e]
  | .unary _ e | .assign _ e | .varDecl _ e => by rw [map, map_id e, id_eq]
  | .binary l _ r | .logical l _ r => by rw [map, map_id l, map_id r, id_eq]
  | .ifStmt c a b => by rw [map, map_id c, map_id a, map_id b]
  | .forStmt _ a b body => by rw [map, map_id a, map_id b, mapAll_id body, id_eq]
  | .whileStmt c body => by rw [map, map_id c, mapAll_id body]
theorem mapAll_id : ∀ nodes : List Node, mapAll id nodes = nodes
  | [] => rfl
  | node :: nodes => by rw [mapAll, map_id node, mapAll_id nodes]
end

end Node

namespace Run
open Node (map mapAll)

/-- A step that looks at the variables and changes them, and does nothing else. -/
def onVariables {α : Type} (g : Environment → Except Stop (α × Environment)) : Run α := fun s =>
  match g s.environment with
  | .ok (a, environment) => .ok a { s with environment := environment }
  | .error stop => .error stop s

def readIn (name : Token) (env : Environment) : Except Stop (Value × Environment) :=
  if name.lexeme.isScalar then
    match env.get? name.lexeme with
    | some value => .ok (value, env)
    | none => .error (.fault ⟨some name, .undefinedVariable name.text⟩)
  else .error (.breakdown (.notAName name.lexeme))

def assignIn (name : Token) (value : Value) (env : Environment) :
    Except Stop (Unit × Environment) :=
  if name.lexeme.isScalar then
    match env.assign? name.lexeme value with
    | some env => .ok ((), env)
    | none => .error (.fault ⟨some name, .undefinedVariable name.text⟩)
  else .error (.breakdown (.notAName name.lexeme))

def defineIn (name : Token) (value : Value) (env : Environment) :
    Except Stop (Unit × Environment) :=
  if name.lexeme.isScalar then .ok ((), env.define name.lexeme value)
  else .error (.breakdown (.notAName name.lexeme))

theorem nameOf_bind_of_not {α : Type} {name : Token} (h : ¬ name.lexeme.isScalar = true)
    (k : Json → Run α) (s : State) :
    (nameOf name >>= k) s = .error (.breakdown (.notAName name.lexeme)) s := by
  rw [nameOf, if_neg h]
  rfl

theorem readVar_eq_onVariables (name : Token) : readVar name = onVariables (readIn name) := by
  funext s
  by_cases h : name.lexeme.isScalar = true
  · rw [readVar_eq h, onVariables, readIn, if_pos h]
    cases s.environment.get? name.lexeme <;> rfl
  · rw [readVar, nameOf_bind_of_not h, onVariables, readIn, if_neg h]

theorem assignVar_eq_onVariables (name : Token) (value : Value) :
    assignVar name value = onVariables (assignIn name value) := by
  funext s
  by_cases h : name.lexeme.isScalar = true
  · rw [assignVar_eq h, onVariables, assignIn, if_pos h]
    cases s.environment.assign? name.lexeme value <;> rfl
  · rw [assignVar, nameOf_bind_of_not h, onVariables, assignIn, if_neg h]

theorem defineVar_eq_onVariables (name : Token) (value : Value) :
    defineVar name value = onVariables (defineIn name value) := by
  funext s
  by_cases h : name.lexeme.isScalar = true
  · rw [defineVar_eq h, onVariables, defineIn, if_pos h]
  · rw [defineVar, nameOf_bind_of_not h, onVariables, defineIn, if_neg h]

/-- A line for the trace from the given level of verbosity on. Where no line can be written the
run breaks down. -/
def note (level : Nat) (settings : Settings) (line : Except Breakdown String) : Run Unit :=
  if level ≤ settings.verbosity then
    match line with
    | .ok text => writeTrace text
    | .error b => throw (.breakdown b)
  else pure ()

/-- What the trace says of a declaration. -/
def declarationLine (name : String) (value : Value) : Except Breakdown String :=
  match value.kind? with
  | some kind => .ok ("declare " ++ name ++ ": " ++ kind.name ++ " = " ++ value.display)
  | none => .error (.notAValue value)

theorem traceDeclare_eq_note (settings : Settings) (name : Token) (value : Value) :
    traceDeclare settings name value = note 2 settings (declarationLine name.text value) := by
  unfold traceDeclare note declarationLine kindOf
  cases value.kind? <;> rfl

section
variable {f : Token → Token} (hf : Token.KeepsContent f)
include hf

theorem text_of_keepsContent (t : Token) : (f t).text = t.text := by
  rw [Token.text, Token.text, hf.lexeme]

theorem readIn_map (name : Token) (env : Environment) :
    readIn (f name) env = (readIn name env).mapError (Stop.map f) := by
  unfold readIn
  rw [hf.lexeme, text_of_keepsContent hf]
  split
  · cases env.get? name.lexeme <;> rfl
  · rfl

theorem assignIn_map (name : Token) (value : Value) (env : Environment) :
    assignIn (f name) value env = (assignIn name value env).mapError (Stop.map f) := by
  unfold assignIn
  rw [hf.lexeme, text_of_keepsContent hf]
  split
  · cases env.assign? name.lexeme value <;> rfl
  · rfl

theorem defineIn_map (name : Token) (value : Value) (env : Environment) :
    defineIn (f name) value env = (defineIn name value env).mapError (Stop.map f) := by
  unfold defineIn
  rw [hf.lexeme]
  split <;> rfl

theorem applyUnary_map (o : Token) (a : Value) :
    Operator.applyUnary (f o) a = (Operator.applyUnary o a).mapError (Stop.map f) := by
  unfold Operator.applyUnary
  rw [hf.kind, text_of_keepsContent hf]
  split <;> rfl

omit hf in
theorem inRange_map (o : Token) (n : Int) :
    Operator.inRange (f o) n = (Operator.inRange o n).mapError (Stop.map f) := by
  unfold Operator.inRange
  by_cases h : Number.InRange n
  · rw [if_pos h, if_pos h]
    rfl
  · rw [if_neg h, if_neg h]
    rfl

theorem arithmetic_map (o : Token) (m n : Int) :
    Operator.arithmetic (f o) m n = (Operator.arithmetic o m n).mapError (Stop.map f) := by
  unfold Operator.arithmetic
  rw [hf.kind, text_of_keepsContent hf]
  -- nothing may be computed with a power while the cases are told apart
  generalize Number.power? m n = power, Number.divide? m n = quotient, o.kind = kind
  cases kind with
  | plus => exact inRange_map o (m + n)
  | minus => exact inRange_map o (m - n)
  | asterisk => exact inRange_map o (m * n)
  | slash => cases quotient <;> rfl
  | caret => cases power <;> rfl
  | _ => rfl

theorem onNumbers_map (o : Token) (a b : Value) :
    Operator.onNumbers (f o) a b = (Operator.onNumbers o a b).mapError (Stop.map f) := by
  unfold Operator.onNumbers
  split
  · exact arithmetic_map hf o _ _
  · rfl

theorem applyBinary_map (o : Token) (a b : Value) :
    Operator.applyBinary (f o) a b = (Operator.applyBinary o a b).mapError (Stop.map f) := by
  have he (k : Bool → Value) :
      (Operator.equal a b).map k = ((Operator.equal a b).map k).mapError (Stop.map f) := by
    unfold Operator.equal
    split <;> rfl
  unfold Operator.applyBinary
  rw [hf.kind]
  split
  · rfl
  · exact he _
  · exact he _
  · split
    · rfl
    · exact onNumbers_map hf o a b
  · exact onNumbers_map hf o a b

end

/-- A relation between runs with two settings, of which the second ones allow as much and more,
and with changed tokens in the second run. At a bound of its own the first run may be cut short,
whatever the second one goes on to do. -/
structure Congruence (f : Token → Token) (a b : Settings)
    (R : ∀ {α : Type}, Run α → Run α → Prop) : Prop where
  depth : a.depth ≤ b.depth
  passes : a.passes ≤ b.passes
  bind {α β : Type} {p q : Run α} {k l : α → Run β} :
    R p q → (∀ x, R (k x) (l x)) → R (p >>= k) (q >>= l)
  onVariables {α : Type} (g : Environment → Except Stop (α × Environment)) :
    R (onVariables g) (onVariables fun env => (g env).mapError (Stop.map f))
  print (text : String) : R (print text) (print text)
  note (level : Nat) (line : Except Breakdown String) : R (note level a line) (note level b line)
  evalTooDeep (e : Node) : R (throw .tooDeep) (eval b (b.depth - a.depth) e)
  execTooDeep (s : Node) : R (throw .tooDeep) (exec b (b.depth - a.depth) s)
  tooLong {condition condition' : Run Bool} {body body' : Run Unit} :
    R condition condition' → R body body' →
    R (throw .tooLong) (whileLoop condition' body' (b.passes - a.passes))

theorem relates_ite {α : Type} {R : Run α → Run α → Prop} {c : Prop} [Decidable c]
    {p q p' q' : Run α} (hp : R p q) (hq : R p' q') :
    R (if c then p else p') (if c then q else q') := by
  split
  · exact hp
  · exact hq

namespace Congruence
variable {f : Token → Token} {a b : Settings} {R : ∀ {α : Type}, Run α → Run α → Prop}
  (h : Congruence f a b R)
include h

theorem pure {α : Type} (x : α) : R (pure x) (pure x) := h.onVariables fun env => .ok (x, env)

theorem throw {α : Type} (stop : Stop) : R (throw stop : Run α) (throw (stop.map f)) :=
  h.onVariables fun _ => .error stop

theorem ofExcept {α : Type} {r r' : Except Stop α} (hr : r' = r.mapError (Stop.map f)) :
    R (ofExcept r) (ofExcept r') := by
  subst hr
  cases r with
  | ok x => exact h.pure x
  | error stop => exact h.throw stop

theorem traceFrom (level : Nat) (text : Unit → String) :
    R (traceFrom level a text) (traceFrom level b text) :=
  h.note level (.ok (text ()))

theorem sequence {p q : Node → Run Unit} (hp : ∀ node, R (p node) (q (map f node)))
    (nodes : List Node) : R (sequence p nodes) (sequence q (mapAll f nodes)) := by
  induction nodes with
  | nil => exact h.pure ()
  | cons node nodes ih => exact h.bind (hp node) fun _ => ih

theorem times {body body' : Run Unit} (hb : R body body') (count : Nat) :
    R (times body count) (times body' count) := by
  induction count with
  | zero => exact h.pure ()
  | succ count ih => exact h.bind hb fun _ => ih

theorem whileLoop {condition condition' : Run Bool} {body body' : Run Unit}
    (hc : R condition condition') (hb : R body body') :
    R (whileLoop condition body a.passes) (whileLoop condition' body' b.passes) := by
  have hpasses (n : Nat) : R (Run.whileLoop condition body n)
      (Run.whileLoop condition' body' (n + (b.passes - a.passes))) := by
    induction n with
    | zero =>
      rw [Nat.zero_add]
      exact h.tooLong hc hb
    | succ n ih =>
      rw [Nat.succ_add]
      exact h.bind hc fun _ => relates_ite (h.bind hb fun _ => ih) (h.pure ())
  have hp := hpasses a.passes
  rwa [Nat.add_sub_cancel' h.passes] at hp

variable (hf : Token.KeepsContent f)
include hf

theorem readVar (name : Token) : R (readVar name) (readVar (f name)) := by
  rw [readVar_eq_onVariables, readVar_eq_onVariables, funext (readIn_map hf name)]
  exact h.onVariables (readIn name)

theorem assignVar (name : Token) (value : Value) :
    R (assignVar name value) (assignVar (f name) value) := by
  rw [assignVar_eq_onVariables, assignVar_eq_onVariables, funext (assignIn_map hf name value)]
  exact h.onVariables (assignIn name value)

theorem defineVar (name : Token) (value : Value) :
    R (defineVar name value) (defineVar (f name) value) := by
  rw [defineVar_eq_onVariables, defineVar_eq_onVariables, funext (defineIn_map hf name value)]
  exact h.onVariables (defineIn name value)

theorem eval (depth : Nat) (e : Node) :
    R (eval a depth e) (eval b (depth + (b.depth - a.depth)) (map f e)) := by
  induction depth generalizing e with
  | zero =>
    rw [Nat.zero_add]
    exact h.evalTooDeep (map f e)
  | succ depth ih =>
    rw [Nat.succ_add]
    cases e with
    | literal value => exact h.pure value
    | grouping e => exact ih e
    | var name => exact h.readVar hf name
    | assign name e =>
      refine h.bind (ih e) fun value => h.bind (h.assignVar hf name value) fun _ => ?_
      refine h.bind (q := traceAssign b (f name) value) ?_ fun _ => h.pure value
      rw [traceAssign, traceAssign, text_of_keepsContent hf]
      exact h.traceFrom 2 _
    | logical left o right =>
      refine h.bind (ih left) fun value => ?_
      rw [hf.kind]
      exact relates_ite (h.pure value) (ih right)
    | unary o e => exact h.bind (ih e) fun value => h.ofExcept (applyUnary_map hf o value)
    | binary left o right =>
      exact h.bind (ih left) fun x => h.bind (ih right) fun y => h.ofExcept (applyBinary_map hf o x y)
    | _ => exact h.throw (.breakdown (.unknownExpression _))

theorem ifTest (depth : Nat) (condition : Node) : R (ifTest a depth condition)
    (ifTest b (depth + (b.depth - a.depth)) (map f condition)) :=
  h.bind (h.eval hf depth condition) fun _ => h.bind (h.traceFrom 3 _) fun _ => h.pure _

theorem whileTest (depth : Nat) (condition : Node) : R (whileTest a depth condition)
    (whileTest b (depth + (b.depth - a.depth)) (map f condition)) :=
  h.bind (h.eval hf depth condition) fun _ => h.bind (h.traceFrom 3 _) fun _ => h.pure _

omit hf in
theorem rangeOf (keyword : Token) (start finish : Value) :
    R (rangeOf keyword start finish) (rangeOf (f keyword) start finish) := by
  unfold Run.rangeOf
  split
  · exact h.pure _
  · exact h.throw (.fault ⟨some keyword, .rangeNotNumbers⟩)

theorem forRange (depth : Nat) (keyword : Token) (start finish : Node) :
    R (forRange a depth keyword start finish)
      (forRange b (depth + (b.depth - a.depth)) (f keyword) (map f start) (map f finish)) :=
  h.bind (h.eval hf depth start) fun x => h.bind (h.eval hf depth finish) fun y =>
    h.bind (h.rangeOf keyword x y) fun _ => h.bind (h.traceFrom 3 _) fun _ => h.pure _

theorem initialValue (depth : Nat) (initializer : Node) : R (initialValue a depth initializer)
    (initialValue b (depth + (b.depth - a.depth)) (map f initializer)) := by
  unfold Run.initialValue
  simp only [Node.map_eq_absent_iff]
  exact relates_ite (h.pure Value.nil) (h.eval hf depth initializer)

theorem traceDeclare (name : Token) (value : Value) :
    R (traceDeclare a name value) (traceDeclare b (f name) value) := by
  rw [traceDeclare_eq_note, traceDeclare_eq_note, text_of_keepsContent hf]
  exact h.note 2 _

theorem execWithin (depth : Nat) (s : Node) :
    R (exec a depth s) (exec b (depth + (b.depth - a.depth)) (map f s)) := by
  induction depth generalizing s with
  | zero =>
    rw [Nat.zero_add]
    -- Where the first run has no level left, the second one goes on: that is the case that a
    -- congruence has to allow by itself.
    exact h.execTooDeep (map f s)
  | succ depth ih =>
    rw [Nat.succ_add]
    cases s with
    | exprStmt e => exact h.bind (h.eval hf depth e) fun _ => h.pure ()
    | printStmt e => exact h.bind (h.eval hf depth e) fun value => h.print _
    | varDecl name initializer =>
      rw [map, exec_varDecl, exec_varDecl]
      exact h.bind (h.initialValue hf depth initializer) fun value =>
        h.bind (h.defineVar hf name value) fun _ => h.traceDeclare hf name value
    | ifStmt condition thenBranch elseBranch =>
      rw [map, exec_ifStmt, exec_ifStmt]
      refine h.bind (h.ifTest hf depth condition) fun truth => ?_
      simp only [Node.map_eq_absent_iff]
      exact relates_ite (ih thenBranch) (relates_ite (h.pure ()) (ih elseBranch))
    | whileStmt condition body =>
      rw [map, exec_whileStmt, exec_whileStmt]
      exact h.whileLoop (h.whileTest hf depth condition) (h.sequence ih body)
    | forStmt keyword start finish body =>
      rw [map, exec_forStmt, exec_forStmt]
      refine h.bind (h.forRange hf depth keyword start finish) fun range => ?_
      exact h.times (h.sequence ih body) _
    | _ => exact h.throw (.breakdown (.unknownStatement _))

/-- The relation holds of whole statements. -/
theorem exec (s : Node) : R (exec a a.depth s) (exec b b.depth (map f s)) := by
  have he := h.execWithin hf a.depth s
  rwa [Nat.add_sub_cancel' h.depth] at he

omit hf in
/-- It holds of programs when it goes along with what becomes of a statement that is too deep. -/
theorem program (hs : ∀ s, R (runStatement a s) (runStatement b (map f s))) (nodes : List Node) :
    R (Run.sequence (runTraced a) nodes) (Run.sequence (runTraced b) (mapAll f nodes)) := by
  refine h.sequence (fun node => ?_) nodes
  unfold runTraced
  rw [Node.kindName_map]
  exact h.bind (h.traceFrom 1 _) fun _ => hs node

end Congruence

/-- With the same bounds neither run goes on where the other one is cut. -/
theorem congruence_of_bounds {f : Token → Token} {a b : Settings}
    {R : ∀ {α : Type}, Run α → Run α → Prop} (hd : a.depth = b.depth) (hp : a.passes = b.passes)
    (bind : ∀ {α β : Type} {p q : Run α} {k l : α → Run β},
      R p q → (∀ x, R (k x) (l x)) → R (p >>= k) (q >>= l))
    (onVariables : ∀ {α : Type} (g : Environment → Except Stop (α × Environment)),
      R (onVariables g) (onVariables fun env => (g env).mapError (Stop.map f)))
    (print : ∀ text, R (print text) (print text))
    (note : ∀ level line, R (note level a line) (note level b line)) : Congruence f a b R where
  depth := Nat.le_of_eq hd
  passes := Nat.le_of_eq hp
  bind := bind
  onVariables := onVariables
  print := print
  note := note
  evalTooDeep e := by
    rw [hd, Nat.sub_self]
    exact onVariables fun _ => .error .tooDeep
  execTooDeep s := by
    rw [hd, Nat.sub_self]
    exact onVariables fun _ => .error .tooDeep
  tooLong _ _ := by
    rw [hp, Nat.sub_self]
    exact onVariables fun _ => .error .tooLong

theorem mapError_map_id {α : Type} (r : Except Stop α) : r.mapError (Stop.map id) = r := by
  cases r with
  | ok x => rfl
  | error stop => exact congrArg Except.error stop.map_id

section
variable {a b : Settings} {R : ∀ {α : Type}, Run α → Run α → Prop} (h : Congruence id a b R)
include h

theorem Congruence.sameExec (s : Node) : R (Run.exec a a.depth s) (Run.exec b b.depth s) := by
  have he := h.exec Token.keepsContent_id s
  rwa [Node.map_id] at he

theorem Congruence.sameProgram (hs : ∀ s, R (runStatement a s) (runStatement b s))
    (nodes : List Node) :
    R (Run.sequence (runTraced a) nodes) (Run.sequence (runTraced b) nodes) := by
  have hp := h.program (fun s => by rw [Node.map_id]; exact hs s) nodes
  rwa [Node.mapAll_id] at hp

end

end Run

end LetLang
