import LetLang.Proofs.Execution.NumberRange

namespace LetLang

theorem Environment.contains_eq_true_iff {env : Environment} {name : Json} :
    env.contains name = true ↔ ∃ v, env.get? name = some v :=
  Option.isSome_iff_exists

/-- Only nil and false count as false. -/
theorem Value.isTruthy_eq_false_iff {v : Value} :
    v.isTruthy = false ↔ v = .nil ∨ v = .bool false := by
  constructor
  · intro h
    unfold isTruthy at h
    split at h
    · exact .inl rfl
    · exact .inr (congrArg Value.bool h)
    · cases h
  · rintro (rfl | rfl) <;> rfl

namespace Semantics

/-- The text that is printed for a value: numbers are in decimal, and strings without quotes. -/
inductive Shows : Value → String → Prop
  | nil : Shows .nil "nil"
  | true : Shows (.bool true) "true"
  | false : Shows (.bool false) "false"
  | natural (n : Nat) : Shows (.int n) (String.ofList (Nat.toDigits 10 n))
  | negative (n : Nat) :
    Shows (.int (-(n + 1 : Nat))) (String.ofList ('-' :: Nat.toDigits 10 (n + 1)))
  | str (s : String) : Shows (.str s) s

theorem display_negative (n : Nat) :
    (Value.int (-(n + 1 : Nat))).display = String.ofList ('-' :: Nat.toDigits 10 (n + 1)) := by
  rw [← String.toList_inj, String.toList_ofList]
  show ("-" ++ Nat.repr (n + 1)).toList = _
  rw [String.toList_append]
  exact congrArg (['-'] ++ ·) String.toList_ofList

theorem display_eq_iff {v : Value} (h : v.IsRuntime) {s : String} : v.display = s ↔ Shows v s := by
  constructor
  · rintro rfl
    cases v with
    | nil => exact .nil
    | data j =>
      cases j with
      | bool b => cases b <;> constructor
      | int n =>
        cases n with
        | ofNat n => exact .natural n
        | negSucc n =>
          rw [show Int.negSucc n = -(n + 1 : Nat) from rfl, display_negative]
          exact .negative n
      | str s => exact .str s
      | null | float | arr | obj => exact h.elim
  · intro hs
    cases hs with
    | negative n => exact display_negative n
    | nil | true | false | natural | str => rfl

/-- A fault at a token. -/
def fault {α : Type} (t : Token) (cause : FaultCause) : Except Fault α := .error ⟨some t, cause⟩

/-- What a sign in front of a value comes to. -/
inductive Unary (o : Token) : Value → Except Fault Value → Prop
  | not {a : Value} (kind : o.kind = .bang) : Unary o a (.ok (.bool !a.isTruthy))
  | minus {n : Int} (kind : o.kind = .minus) : Unary o (.int n) (.ok (.int (-n)))
  | notNumber {a : Value} (kind : o.kind = .minus) (operand : ∀ n, a ≠ .int n) :
    Unary o a (fault o .operandNotNumber)

/-- What an operator between two values comes to. Values of different kinds are different. -/
inductive Binary (o : Token) : Value → Value → Except Fault Value → Prop
  | comma {a b : Value} (kind : o.kind = .comma) : Binary o a b (.ok b)
  | equal {a b : Value} (kind : o.kind = .equalEqual) : Binary o a b (.ok (.bool (decide (a = b))))
  | notEqual {a b : Value} (kind : o.kind = .notEqual) :
    Binary o a b (.ok (.bool (decide (a ≠ b))))
  | concat {s t : String} (kind : o.kind = .plus) : Binary o (.str s) (.str t) (.ok (.str (s ++ t)))
  | exact {m n r : Int} (result : Operator.exactResult? o.kind m n = some r)
    (range : Number.InRange r) : Binary o (.int m) (.int n) (.ok (.int r))
  | tooLarge {m n r : Int} (result : Operator.exactResult? o.kind m n = some r)
    (range : ¬ Number.InRange r) : Binary o (.int m) (.int n) (fault o .numberTooLarge)
  | divide {m n : Int} (kind : o.kind = .slash) (divisor : n ≠ 0) :
    Binary o (.int m) (.int n) (.ok (.int (m.tdiv n)))
  | divideByZero {m : Int} (kind : o.kind = .slash) :
    Binary o (.int m) (.int 0) (fault o .divisionByZero)
  | power {m n : Int} {x y : Binary64} (kind : o.kind = .caret)
    (base : Binary64.ofInt? m = some x) (exponent : Binary64.ofInt? n = some y)
    (finite : (x.pow y).isFinite = true) :
    Binary o (.int m) (.int n) (.ok (.int (x.pow y).truncate))
  | powerOutOfRange {m n : Int} (kind : o.kind = .caret)
    (infinite : ∀ x y, Binary64.ofInt? m = some x → Binary64.ofInt? n = some y →
      (x.pow y).isFinite = false) : Binary o (.int m) (.int n) (fault o .powerOutOfRange)
  | greater {m n : Int} (kind : o.kind = .greater) :
    Binary o (.int m) (.int n) (.ok (.bool (decide (m > n))))
  | greaterEqual {m n : Int} (kind : o.kind = .greaterEqual) :
    Binary o (.int m) (.int n) (.ok (.bool (decide (m ≥ n))))
  | less {m n : Int} (kind : o.kind = .less) :
    Binary o (.int m) (.int n) (.ok (.bool (decide (m < n))))
  | lessEqual {m n : Int} (kind : o.kind = .lessEqual) :
    Binary o (.int m) (.int n) (.ok (.bool (decide (m ≤ n))))
  | notNumbers {a b : Value} (kind : o.kind ∈ Operator.numericKinds)
    (operands : ∀ m n, ¬ (a = .int m ∧ b = .int n))
    (texts : o.kind = .plus → ∀ s t, ¬ (a = .str s ∧ b = .str t)) :
    Binary o a b (fault o .operandsNotNumbers)

/-- An expression that is evaluated with some variables, what comes of it and the variables
afterwards. What a name has after a definition is fixed by `Environment.get?_define`, which names
are declared by `Environment.contains_eq_true_iff`, and which values count as true by
`Value.isTruthy_eq_false_iff`. -/
inductive Evaluates : Node → Environment → Except Fault Value → Environment → Prop
  | literal {v : Value} {env : Environment} : Evaluates (.literal v) env (.ok v) env
  | grouping {e : Node} {r : Except Fault Value} {env env' : Environment}
    (inner : Evaluates e env r env') : Evaluates (.grouping e) env r env'
  | var {name : Token} {v : Value} {env : Environment} (defined : env.get? name.lexeme = some v) :
    Evaluates (.var name) env (.ok v) env
  | undefined {name : Token} {env : Environment} (undefined : env.get? name.lexeme = none) :
    Evaluates (.var name) env (fault name (.undefinedVariable name.text)) env
  | assign {name : Token} {e : Node} {v : Value} {env env' : Environment}
    (value : Evaluates e env (.ok v) env') (declared : env'.contains name.lexeme = true) :
    Evaluates (.assign name e) env (.ok v) (env'.define name.lexeme v)
  | assignUndeclared {name : Token} {e : Node} {v : Value} {env env' : Environment}
    (value : Evaluates e env (.ok v) env') (undeclared : env'.contains name.lexeme = false) :
    Evaluates (.assign name e) env (fault name (.undefinedVariable name.text)) env'
  | assignFault {name : Token} {e : Node} {f : Fault} {env env' : Environment}
    (value : Evaluates e env (.error f) env') : Evaluates (.assign name e) env (.error f) env'
  | and {l r : Node} {o : Token} {a : Value} {result : Except Fault Value}
    {env env' env'' : Environment} (kind : o.kind = .kwAnd) (left : Evaluates l env (.ok a) env')
    (truthy : a.isTruthy = true) (right : Evaluates r env' result env'') :
    Evaluates (.logical l o r) env result env''
  | andDecided {l r : Node} {o : Token} {a : Value} {env env' : Environment}
    (kind : o.kind = .kwAnd) (left : Evaluates l env (.ok a) env') (falsy : a.isTruthy = false) :
    Evaluates (.logical l o r) env (.ok a) env'
  | or {l r : Node} {o : Token} {a : Value} {result : Except Fault Value}
    {env env' env'' : Environment} (kind : o.kind = .kwOr) (left : Evaluates l env (.ok a) env')
    (falsy : a.isTruthy = false) (right : Evaluates r env' result env'') :
    Evaluates (.logical l o r) env result env''
  | orDecided {l r : Node} {o : Token} {a : Value} {env env' : Environment}
    (kind : o.kind = .kwOr) (left : Evaluates l env (.ok a) env') (truthy : a.isTruthy = true) :
    Evaluates (.logical l o r) env (.ok a) env'
  | logicalFault {l r : Node} {o : Token} {f : Fault} {env env' : Environment}
    (left : Evaluates l env (.error f) env') : Evaluates (.logical l o r) env (.error f) env'
  | unary {o : Token} {e : Node} {a : Value} {result : Except Fault Value} {env env' : Environment}
    (operand : Evaluates e env (.ok a) env') (operation : Unary o a result) :
    Evaluates (.unary o e) env result env'
  | unaryFault {o : Token} {e : Node} {f : Fault} {env env' : Environment}
    (operand : Evaluates e env (.error f) env') : Evaluates (.unary o e) env (.error f) env'
  | binary {l r : Node} {o : Token} {a b : Value} {result : Except Fault Value}
    {env env' env'' : Environment} (left : Evaluates l env (.ok a) env')
    (right : Evaluates r env' (.ok b) env'') (operation : Binary o a b result) :
    Evaluates (.binary l o r) env result env''
  | leftFault {l r : Node} {o : Token} {f : Fault} {env env' : Environment}
    (left : Evaluates l env (.error f) env') : Evaluates (.binary l o r) env (.error f) env'
  | rightFault {l r : Node} {o : Token} {a : Value} {f : Fault} {env env' env'' : Environment}
    (left : Evaluates l env (.ok a) env') (right : Evaluates r env' (.error f) env'') :
    Evaluates (.binary l o r) env (.error f) env''

/-- The variables, and the lines that were printed. -/
structure Store where
  environment : Environment
  output : List String

/-- What statements are made to do. -/
inductive Work where
  | statement (s : Node)
  /-- One after another. -/
  | block (body : List Node)
  /-- As long as the condition holds. -/
  | loop (condition : Node) (body : List Node)
  | times (count : Nat) (body : List Node)

/-- Work that is done in a store, what comes of it and the store afterwards. A loop that does not
end is in no relation to anything. What is printed for a value is fixed by `display_eq_iff`. -/
inductive Performs : Work → Store → Except Fault Unit → Store → Prop
  | exprStmt {e : Node} {v : Value} {s : Store} {env : Environment}
    (value : Evaluates e s.environment (.ok v) env) :
    Performs (.statement (.exprStmt e)) s (.ok ()) ⟨env, s.output⟩
  | exprFault {e : Node} {f : Fault} {s : Store} {env : Environment}
    (value : Evaluates e s.environment (.error f) env) :
    Performs (.statement (.exprStmt e)) s (.error f) ⟨env, s.output⟩
  | printStmt {e : Node} {v : Value} {s : Store} {env : Environment}
    (value : Evaluates e s.environment (.ok v) env) :
    Performs (.statement (.printStmt e)) s (.ok ()) ⟨env, s.output ++ [v.display]⟩
  | printFault {e : Node} {f : Fault} {s : Store} {env : Environment}
    (value : Evaluates e s.environment (.error f) env) :
    Performs (.statement (.printStmt e)) s (.error f) ⟨env, s.output⟩
  | varDecl {name : Token} {s : Store} :
    Performs (.statement (.varDecl name .absent)) s (.ok ())
      ⟨s.environment.define name.lexeme .nil, s.output⟩
  | initialized {name : Token} {e : Node} {v : Value} {s : Store} {env : Environment}
    (present : e ≠ .absent) (value : Evaluates e s.environment (.ok v) env) :
    Performs (.statement (.varDecl name e)) s (.ok ()) ⟨env.define name.lexeme v, s.output⟩
  | initializerFault {name : Token} {e : Node} {f : Fault} {s : Store} {env : Environment}
    (present : e ≠ .absent) (value : Evaluates e s.environment (.error f) env) :
    Performs (.statement (.varDecl name e)) s (.error f) ⟨env, s.output⟩
  | ifTrue {c a b : Node} {v : Value} {r : Except Fault Unit} {s s' : Store} {env : Environment}
    (condition : Evaluates c s.environment (.ok v) env) (truthy : v.isTruthy = true)
    (branch : Performs (.statement a) ⟨env, s.output⟩ r s') :
    Performs (.statement (.ifStmt c a b)) s r s'
  | ifFalse {c a b : Node} {v : Value} {r : Except Fault Unit} {s s' : Store} {env : Environment}
    (condition : Evaluates c s.environment (.ok v) env) (falsy : v.isTruthy = false)
    (present : b ≠ .absent) (branch : Performs (.statement b) ⟨env, s.output⟩ r s') :
    Performs (.statement (.ifStmt c a b)) s r s'
  | ifNothing {c a : Node} {v : Value} {s : Store} {env : Environment}
    (condition : Evaluates c s.environment (.ok v) env) (falsy : v.isTruthy = false) :
    Performs (.statement (.ifStmt c a .absent)) s (.ok ()) ⟨env, s.output⟩
  | ifFault {c a b : Node} {f : Fault} {s : Store} {env : Environment}
    (condition : Evaluates c s.environment (.error f) env) :
    Performs (.statement (.ifStmt c a b)) s (.error f) ⟨env, s.output⟩
  | whileStmt {c : Node} {body : List Node} {r : Except Fault Unit} {s s' : Store}
    (loop : Performs (.loop c body) s r s') : Performs (.statement (.whileStmt c body)) s r s'
  | forStmt {k : Token} {a b : Node} {body : List Node} {m n : Int} {r : Except Fault Unit}
    {s s' : Store} {env env' : Environment} (start : Evaluates a s.environment (.ok (.int m)) env)
    (finish : Evaluates b env (.ok (.int n)) env')
    (passes : Performs (.times (n - m).toNat body) ⟨env', s.output⟩ r s') :
    Performs (.statement (.forStmt k a b body)) s r s'
  | notNumbers {k : Token} {a b : Node} {body : List Node} {v w : Value} {s : Store}
    {env env' : Environment} (start : Evaluates a s.environment (.ok v) env)
    (finish : Evaluates b env (.ok w) env') (range : ∀ m n, ¬ (v = .int m ∧ w = .int n)) :
    Performs (.statement (.forStmt k a b body)) s (fault k .rangeNotNumbers) ⟨env', s.output⟩
  | startFault {k : Token} {a b : Node} {body : List Node} {f : Fault} {s : Store}
    {env : Environment} (start : Evaluates a s.environment (.error f) env) :
    Performs (.statement (.forStmt k a b body)) s (.error f) ⟨env, s.output⟩
  | finishFault {k : Token} {a b : Node} {body : List Node} {v : Value} {f : Fault} {s : Store}
    {env env' : Environment} (start : Evaluates a s.environment (.ok v) env)
    (finish : Evaluates b env (.error f) env') :
    Performs (.statement (.forStmt k a b body)) s (.error f) ⟨env', s.output⟩
  | blockEnd {s : Store} : Performs (.block []) s (.ok ()) s
  | blockNext {node : Node} {nodes : List Node} {r : Except Fault Unit} {s s' s'' : Store}
    (first : Performs (.statement node) s (.ok ()) s') (others : Performs (.block nodes) s' r s'') :
    Performs (.block (node :: nodes)) s r s''
  | blockFault {node : Node} {nodes : List Node} {f : Fault} {s s' : Store}
    (first : Performs (.statement node) s (.error f) s') :
    Performs (.block (node :: nodes)) s (.error f) s'
  | loopEnd {c : Node} {body : List Node} {v : Value} {s : Store} {env : Environment}
    (condition : Evaluates c s.environment (.ok v) env) (falsy : v.isTruthy = false) :
    Performs (.loop c body) s (.ok ()) ⟨env, s.output⟩
  | loopNext {c : Node} {body : List Node} {v : Value} {r : Except Fault Unit} {s s' s'' : Store}
    {env : Environment} (condition : Evaluates c s.environment (.ok v) env)
    (truthy : v.isTruthy = true) (pass : Performs (.block body) ⟨env, s.output⟩ (.ok ()) s')
    (again : Performs (.loop c body) s' r s'') : Performs (.loop c body) s r s''
  | passFault {c : Node} {body : List Node} {v : Value} {f : Fault} {s s' : Store}
    {env : Environment} (condition : Evaluates c s.environment (.ok v) env)
    (truthy : v.isTruthy = true) (pass : Performs (.block body) ⟨env, s.output⟩ (.error f) s') :
    Performs (.loop c body) s (.error f) s'
  | loopFault {c : Node} {body : List Node} {f : Fault} {s : Store} {env : Environment}
    (condition : Evaluates c s.environment (.error f) env) :
    Performs (.loop c body) s (.error f) ⟨env, s.output⟩
  | timesEnd {body : List Node} {s : Store} : Performs (.times 0 body) s (.ok ()) s
  | timesNext {count : Nat} {body : List Node} {r : Except Fault Unit} {s s' s'' : Store}
    (pass : Performs (.block body) s (.ok ()) s') (again : Performs (.times count body) s' r s'') :
    Performs (.times (count + 1) body) s r s''
  | timesFault {count : Nat} {body : List Node} {f : Fault} {s s' : Store}
    (pass : Performs (.block body) s (.error f) s') :
    Performs (.times (count + 1) body) s (.error f) s'

end Semantics

end LetLang
