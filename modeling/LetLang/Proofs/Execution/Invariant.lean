import LetLang.Execution.Run
import LetLang.Proofs.Execution.Values

namespace LetLang

/-- Can the node be evaluated? -/
def Node.isExpression : Node → Bool
  | .literal _ | .binary _ _ _ | .unary _ _ | .logical _ _ _ | .grouping _ | .var _
  | .assign _ _ => true
  | _ => false

/-- Can the node be executed? -/
def Node.isStatement : Node → Bool
  | .exprStmt _ | .printStmt _ | .varDecl _ _ | .ifStmt _ _ _ | .forStmt _ _ _ _
  | .whileStmt _ _ => true
  | _ => false

namespace Run

section
variable {α β : Type} {f : Run α} {g : α → Run β} {s s' : State}

theorem bind_of_ok {a : α} (h : f s = .ok a s') : (f >>= g) s = g a s' := by
  simp only [bind, EStateM.bind, h]

theorem bind_of_error {stop : Stop} (h : f s = .error stop s') : (f >>= g) s = .error stop s' := by
  simp only [bind, EStateM.bind, h]

theorem bind_eq_ok {b : β} (h : (f >>= g) s = .ok b s') :
    ∃ a t, f s = .ok a t ∧ g a t = .ok b s' := by
  cases hf : f s with
  | ok a t => exact ⟨a, t, rfl, (bind_of_ok hf).symm.trans h⟩
  | error stop t =>
    rw [bind_of_error hf] at h
    cases h

end

section
variable {α β : Type} {I : Environment → Prop} {Q R : α → Prop} {S : β → Prop} {E F : Stop → Prop}

/-- What holds when a run ends: the variables have the invariant, and so do the result or the
stop. -/
inductive Ends (I : Environment → Prop) (Q : α → Prop) (E : Stop → Prop) :
    EStateM.Result Stop State α → Prop
  | ok {a : α} {s : State} (value : Q a) (state : I s.environment) : Ends I Q E (.ok a s)
  | error {stop : Stop} {s : State} (expected : E stop) (state : I s.environment) :
    Ends I Q E (.error stop s)

/-- Whenever the variables have the invariant before, they have it after. -/
def Keeps (I : Environment → Prop) (Q : α → Prop) (E : Stop → Prop) (f : Run α) : Prop :=
  ∀ s, I s.environment → Ends I Q E (f s)

theorem Ends.mono {r : EStateM.Result Stop State α} (h : Ends I Q E r) (hq : ∀ a, Q a → R a)
    (he : ∀ stop, E stop → F stop) : Ends I R F r := by
  cases h with
  | ok value state => exact .ok (hq _ value) state
  | error expected state => exact .error (he _ expected) state

theorem Ends.value {a : α} {s : State} (h : Ends I Q E (.ok a s)) : Q a := by
  cases h
  assumption

theorem Ends.state_of_ok {a : α} {s : State} (h : Ends I Q E (.ok a s)) : I s.environment := by
  cases h
  assumption

theorem Keeps.mono {f : Run α} (h : Keeps I Q E f) (hq : ∀ a, Q a → R a)
    (he : ∀ stop, E stop → F stop) : Keeps I R F f :=
  fun s hs => (h s hs).mono hq he

theorem Keeps.of_ok {f : Run α} (h : Keeps I Q E f) {a : α} {s s' : State}
    (hs : I s.environment) (hr : f s = .ok a s') : Q a ∧ I s'.environment := by
  have he := h s hs
  rw [hr] at he
  exact ⟨he.value, he.state_of_ok⟩

theorem keeps_pure {a : α} (h : Q a) : Keeps I Q E (pure a) := fun _ => .ok h

theorem keeps_throw {stop : Stop} (h : E stop) : Keeps I Q E (throw stop) := fun _ => .error h

theorem Ends.bind {f : Run α} {g : α → Run β} {s : State} (h : Ends I Q E (f s))
    (hg : ∀ a, Q a → Keeps I S E (g a)) : Ends I S E ((f >>= g) s) := by
  cases hr : f s with
  | ok a s' =>
    rw [hr] at h
    rw [bind_of_ok hr]
    exact hg a h.value s' h.state_of_ok
  | error stop s' =>
    rw [hr] at h
    rw [bind_of_error hr]
    cases h with
    | error expected state => exact .error expected state

theorem Keeps.bind {f : Run α} {g : α → Run β} (hf : Keeps I Q E f)
    (hg : ∀ a, Q a → Keeps I S E (g a)) : Keeps I S E (f >>= g) :=
  fun s hs => (hf s hs).bind hg

theorem Keeps.ite {f g : Run α} {c : Prop} [Decidable c] (hf : c → Keeps I Q E f)
    (hg : ¬ c → Keeps I Q E g) : Keeps I Q E (if c then f else g) := by
  split
  · next h => exact hf h
  · next h => exact hg h

theorem keeps_ofExcept {r : Except Stop α} (h : Delivers Q E r) : Keeps I Q E (ofExcept r) := by
  cases h with
  | ok h => exact keeps_pure h
  | error h => exact keeps_throw h

theorem keeps_print (text : String) : Keeps I (fun _ => True) E (print text) :=
  fun s hs => .ok (s := { s with output := s.output.push text }) trivial hs

theorem keeps_writeTrace (text : String) : Keeps I (fun _ => True) E (writeTrace text) :=
  fun s hs => .ok (s := { s with trace := s.trace.push text }) trivial hs

theorem keeps_traceFrom (level : Nat) (settings : Settings) (text : Unit → String) :
    Keeps I (fun _ => True) E (traceFrom level settings text) := by
  unfold traceFrom
  exact .ite (fun _ => keeps_writeTrace _) fun _ => keeps_pure trivial

theorem keeps_traceDeclare {v : Value} (h : v.kind? = none → E (.breakdown (.notAValue v)))
    (settings : Settings) (name : Token) :
    Keeps I (fun _ => True) E (traceDeclare settings name v) := by
  unfold traceDeclare
  refine .ite (fun _ => ?_) fun _ => keeps_pure trivial
  refine Keeps.bind (Q := fun _ => True) ?_ fun _ _ => keeps_writeTrace _
  unfold kindOf
  split
  · exact keeps_pure trivial
  · next hv => exact keeps_throw (h hv)

theorem keeps_rangeOf {keyword : Token} (h : E (.fault ⟨some keyword, .rangeNotNumbers⟩))
    (a b : Value) : Keeps I (fun _ => True) E (rangeOf keyword a b) := by
  unfold rangeOf
  split
  · exact keeps_pure trivial
  · exact keeps_throw h

theorem keeps_sequence {exec : Node → Run Unit} {nodes : List Node}
    (h : ∀ node ∈ nodes, Keeps I (fun _ => True) E (exec node)) :
    Keeps I (fun _ => True) E (sequence exec nodes) := by
  induction nodes with
  | nil => exact keeps_pure trivial
  | cons node nodes ih =>
    rw [List.forall_mem_cons] at h
    exact h.1.bind fun _ _ => ih h.2

theorem keeps_whileLoop {condition : Run Bool} {body : Run Unit} (ht : E .tooLong)
    (hc : Keeps I (fun _ => True) E condition) (hb : Keeps I (fun _ => True) E body)
    (passes : Nat) : Keeps I (fun _ => True) E (whileLoop condition body passes) := by
  induction passes with
  | zero => exact keeps_throw ht
  | succ passes ih => exact hc.bind fun _ _ => .ite (fun _ => hb.bind fun _ _ => ih) fun _ => keeps_pure trivial

theorem keeps_times {body : Run Unit} (hb : Keeps I (fun _ => True) E body) (count : Nat) :
    Keeps I (fun _ => True) E (times body count) := by
  induction count with
  | zero => exact keeps_pure trivial
  | succ count ih => exact hb.bind fun _ _ => ih

end

section
variable {name : Token} (h : name.lexeme.isScalar = true)
include h

theorem readVar_eq (s : State) :
    readVar name s = match s.environment.get? name.lexeme with
      | some value => .ok value s
      | none => .error (.fault ⟨some name, .undefinedVariable name.text⟩) s := by
  simp only [readVar, nameOf, if_pos h, pure_bind]
  change (match s.environment.get? name.lexeme with
    | some value => pure value
    | none => undefined name : Run Value) s = _
  cases s.environment.get? name.lexeme <;> rfl

theorem assignVar_eq (value : Value) (s : State) :
    assignVar name value s = match s.environment.assign? name.lexeme value with
      | some environment => .ok () { s with environment := environment }
      | none => .error (.fault ⟨some name, .undefinedVariable name.text⟩) s := by
  simp only [assignVar, nameOf, if_pos h, pure_bind]
  change (match s.environment.assign? name.lexeme value with
    | some environment => modify fun s => { s with environment := environment }
    | none => undefined name : Run Unit) s = _
  cases s.environment.assign? name.lexeme value <;> rfl

theorem defineVar_eq (value : Value) (s : State) :
    defineVar name value s =
      .ok () { s with environment := s.environment.define name.lexeme value } := by
  simp only [defineVar, nameOf, if_pos h, pure_bind]
  rfl

end

/-- The condition of a branch. -/
def ifTest (settings : Settings) (depth : Nat) (condition : Node) : Run Bool := do
  let value ← eval settings depth condition
  traceIf settings value
  pure value.isTruthy

/-- The condition of a loop, before each pass. -/
def whileTest (settings : Settings) (depth : Nat) (condition : Node) : Run Bool := do
  let value ← eval settings depth condition
  traceWhile settings value
  pure value.isTruthy

/-- The two ends of a range. -/
def forRange (settings : Settings) (depth : Nat) (keyword : Token) (start finish : Node) :
    Run (Int × Int) := do
  let first ← eval settings depth start
  let last ← eval settings depth finish
  let (m, n) ← rangeOf keyword first last
  traceFor settings m n
  pure (m, n)

/-- What a variable is declared with. -/
def initialValue (settings : Settings) (depth : Nat) (initializer : Node) : Run Value :=
  if initializer = .absent then pure .nil else eval settings depth initializer

section
variable (settings : Settings) (depth : Nat)

theorem exec_ifStmt (condition thenBranch elseBranch : Node) :
    exec settings (depth + 1) (.ifStmt condition thenBranch elseBranch) = (do
      if ← ifTest settings depth condition then exec settings depth thenBranch
      else if elseBranch = .absent then pure ()
      else exec settings depth elseBranch) := by
  simp only [exec, ifTest, bind_assoc, pure_bind]

theorem exec_forStmt (keyword : Token) (start finish : Node) (body : List Node) :
    exec settings (depth + 1) (.forStmt keyword start finish body) = (do
      let (m, n) ← forRange settings depth keyword start finish
      times (sequence (exec settings depth) body) (n - m).toNat) := by
  simp only [exec, forRange, bind_assoc, pure_bind]

theorem exec_whileStmt (condition : Node) (body : List Node) :
    exec settings (depth + 1) (.whileStmt condition body) =
      whileLoop (whileTest settings depth condition) (sequence (exec settings depth) body)
        settings.passes := rfl

theorem exec_varDecl (name : Token) (initializer : Node) :
    exec settings (depth + 1) (.varDecl name initializer) = (do
      let value ← initialValue settings depth initializer
      defineVar name value
      traceDeclare settings name value) := by
  rw [exec, initialValue]
  split <;> rfl

end

/-- Expressions and statements of some classes, whose parts are in them again, and whose primitive
steps keep an invariant of the variables: they give values that have a property, or stop as
expected. -/
structure IsInvariant (expr stmt : Node → Prop) (I : Environment → Prop) (Q : Value → Prop)
    (E : Stop → Prop) : Prop where
  nil : Q .nil
  tooDeep : E .tooDeep
  tooLong : E .tooLong
  notAValue {v : Value} : Q v → v.kind? = none → E (.breakdown (.notAValue v))
  literal {v : Value} : expr (.literal v) → Q v
  grouping {e : Node} : expr (.grouping e) → expr e
  var {name : Token} : expr (.var name) → Keeps I Q E (readVar name)
  assign {name : Token} {e : Node} : expr (.assign name e) →
    expr e ∧ ∀ v, Q v → Keeps I (fun _ => True) E (assignVar name v)
  logical {l r : Node} {o : Token} : expr (.logical l o r) → expr l ∧ expr r
  unary {o : Token} {e : Node} : expr (.unary o e) →
    expr e ∧ ∀ v, Q v → Delivers Q E (Operator.applyUnary o v)
  binary {l r : Node} {o : Token} : expr (.binary l o r) →
    expr l ∧ expr r ∧ ∀ a b, Q a → Q b → Delivers Q E (Operator.applyBinary o a b)
  otherExpression {node : Node} : expr node → node.isExpression = false →
    E (.breakdown (.unknownExpression node.kindName))
  exprStmt {e : Node} : stmt (.exprStmt e) → expr e
  printStmt {e : Node} : stmt (.printStmt e) → expr e
  varDecl {name : Token} {e : Node} : stmt (.varDecl name e) →
    (e ≠ .absent → expr e) ∧ ∀ v, Q v → Keeps I (fun _ => True) E (defineVar name v)
  ifStmt {c a b : Node} : stmt (.ifStmt c a b) → expr c ∧ stmt a ∧ (b ≠ .absent → stmt b)
  whileStmt {c : Node} {body : List Node} : stmt (.whileStmt c body) →
    expr c ∧ ∀ node ∈ body, stmt node
  forStmt {k : Token} {a b : Node} {body : List Node} : stmt (.forStmt k a b body) →
    expr a ∧ expr b ∧ (∀ node ∈ body, stmt node) ∧ E (.fault ⟨some k, .rangeNotNumbers⟩)
  otherStatement {node : Node} : stmt node → node.isStatement = false →
    E (.breakdown (.unknownStatement node.kindName))
  anchor {node : Node} : stmt node → E (.fault ⟨node.anchor?, .nestsTooDeeply⟩)

section
variable {expr stmt : Node → Prop} {I : Environment → Prop} {Q : Value → Prop} {E : Stop → Prop}
  {settings : Settings} {node : Node}

theorem IsInvariant.eval (h : IsInvariant expr stmt I Q E) (settings : Settings) (depth : Nat)
    (hn : expr node) : Keeps I Q E (eval settings depth node) := by
  induction depth generalizing node with
  | zero => exact keeps_throw h.tooDeep
  | succ depth ih =>
    have hother : node.isExpression = false →
        Keeps I Q E (throw (.breakdown (.unknownExpression node.kindName))) :=
      fun ho => keeps_throw (h.otherExpression hn ho)
    cases node with
    | literal v => exact keeps_pure (h.literal hn)
    | grouping e => exact ih (h.grouping hn)
    | var name => exact h.var hn
    | assign name e =>
      obtain ⟨he, ha⟩ := h.assign hn
      exact (ih he).bind fun v hv => (ha v hv).bind fun _ _ =>
        (keeps_traceFrom 2 settings _).bind fun _ _ => keeps_pure hv
    | logical l o r =>
      obtain ⟨hl, hr⟩ := h.logical hn
      exact (ih hl).bind fun v hv => .ite (fun _ => keeps_pure hv) fun _ => ih hr
    | unary o e =>
      obtain ⟨he, ho⟩ := h.unary hn
      exact (ih he).bind fun v hv => keeps_ofExcept (ho v hv)
    | binary l o r =>
      obtain ⟨hl, hr, ho⟩ := h.binary hn
      exact (ih hl).bind fun a ha => (ih hr).bind fun b hb => keeps_ofExcept (ho a b ha hb)
    | _ => exact hother rfl

theorem IsInvariant.ifTest (h : IsInvariant expr stmt I Q E) (settings : Settings) (depth : Nat)
    (hn : expr node) : Keeps I (fun _ => True) E (ifTest settings depth node) :=
  (h.eval settings depth hn).bind fun _ _ => (keeps_traceFrom 3 settings _).bind fun _ _ =>
    keeps_pure trivial

theorem IsInvariant.whileTest (h : IsInvariant expr stmt I Q E) (settings : Settings) (depth : Nat)
    (hn : expr node) : Keeps I (fun _ => True) E (whileTest settings depth node) :=
  (h.eval settings depth hn).bind fun _ _ => (keeps_traceFrom 3 settings _).bind fun _ _ =>
    keeps_pure trivial

theorem IsInvariant.forRange (h : IsInvariant expr stmt I Q E) (settings : Settings) (depth : Nat)
    {keyword : Token} {start finish : Node} (hs : expr start) (hf : expr finish)
    (hk : E (.fault ⟨some keyword, .rangeNotNumbers⟩)) :
    Keeps I (fun _ => True) E (forRange settings depth keyword start finish) :=
  (h.eval settings depth hs).bind fun _ _ => (h.eval settings depth hf).bind fun _ _ =>
    (keeps_rangeOf hk _ _).bind fun _ _ => (keeps_traceFrom 3 settings _).bind fun _ _ =>
      keeps_pure trivial

/-- What the primitive steps keep, in trees of some class, every run of such trees keeps, however it
ends. -/
theorem IsInvariant.exec (h : IsInvariant expr stmt I Q E) (settings : Settings) (depth : Nat)
    (hn : stmt node) : Keeps I (fun _ => True) E (exec settings depth node) := by
  induction depth generalizing node with
  | zero => exact keeps_throw h.tooDeep
  | succ depth ih =>
    have hother : node.isStatement = false →
        Keeps (α := Unit) I (fun _ => True) E (throw (.breakdown (.unknownStatement node.kindName))) :=
      fun ho => keeps_throw (h.otherStatement hn ho)
    -- Every statement of a body is run one level down, where the invariant holds by hypothesis.
    have hbody {body : List Node} (hb : ∀ node ∈ body, stmt node) :
        Keeps I (fun _ => True) E (sequence (Run.exec settings depth) body) :=
      keeps_sequence fun node hm => ih (hb node hm)
    cases node with
    | exprStmt e => exact (h.eval settings depth (h.exprStmt hn)).bind fun _ _ => keeps_pure trivial
    | printStmt e => exact (h.eval settings depth (h.printStmt hn)).bind fun _ _ => keeps_print _
    | varDecl name e =>
      obtain ⟨he, hd⟩ := h.varDecl hn
      rw [exec_varDecl]
      have hv : Keeps I Q E (initialValue settings depth e) :=
        .ite (fun _ => keeps_pure h.nil) fun hne => h.eval settings depth (he hne)
      exact hv.bind fun v hv => (hd v hv).bind fun _ _ =>
        keeps_traceDeclare (h.notAValue hv) settings name
    | ifStmt c a b =>
      obtain ⟨hc, ha, hb⟩ := h.ifStmt hn
      rw [exec_ifStmt]
      refine (h.ifTest settings depth hc).bind fun _ _ => ?_
      exact .ite (fun _ => ih ha) fun _ => .ite (fun _ => keeps_pure trivial) fun hne => ih (hb hne)
    | whileStmt c body =>
      obtain ⟨hc, hb⟩ := h.whileStmt hn
      exact keeps_whileLoop h.tooLong (h.whileTest settings depth hc) (hbody hb) _
    | forStmt k a b body =>
      obtain ⟨ha, hb, hs, hk⟩ := h.forStmt hn
      rw [exec_forStmt]
      exact (h.forRange settings depth ha hb hk).bind fun _ _ => keeps_times (hbody hs) _
    | _ => exact hother rfl

theorem IsInvariant.body (h : IsInvariant expr stmt I Q E) (settings : Settings) (depth : Nat)
    {body : List Node} (hb : ∀ node ∈ body, stmt node) :
    Keeps I (fun _ => True) E (sequence (Run.exec settings depth) body) :=
  keeps_sequence fun node hm => h.exec settings depth (hb node hm)

/-- A statement of the program is not too deep: then it faults. -/
theorem Ends.runStatement {s : State}
    (h : Ends I (fun _ => True) E (Run.exec settings settings.depth node s))
    (ha : E (.fault ⟨node.anchor?, .nestsTooDeeply⟩)) :
    Ends I (fun _ => True) (fun stop => E stop ∧ stop ≠ .tooDeep)
      (Run.runStatement settings node s) := by
  unfold Run.runStatement
  generalize Run.exec settings settings.depth node s = r at h
  cases h with
  | ok value state => exact .ok value state
  | @error stop s' expected state =>
    by_cases hd : stop = .tooDeep
    · subst hd
      exact .error ⟨ha, nofun⟩ state
    · cases stop <;> first | exact absurd rfl hd | exact .error ⟨expected, hd⟩ state

theorem IsInvariant.runTraced (h : IsInvariant expr stmt I Q E) (settings : Settings)
    (hn : stmt node) :
    Keeps I (fun _ => True) (fun stop => E stop ∧ stop ≠ .tooDeep) (runTraced settings node) :=
  (keeps_traceFrom 1 settings _).bind fun _ _ s hs =>
    (h.exec settings settings.depth hn s hs).runStatement (h.anchor hn)

theorem IsInvariant.program (h : IsInvariant expr stmt I Q E) (settings : Settings)
    {program : List Node} (hp : ∀ node ∈ program, stmt node) :
    Keeps I (fun _ => True) (fun stop => E stop ∧ stop ≠ .tooDeep)
      (sequence (Run.runTraced settings) program) :=
  keeps_sequence fun node hm => h.runTraced settings (hp node hm)

theorem IsInvariant.interpret (h : IsInvariant expr stmt I Q E) (settings : Settings)
    {program : List Node} (hp : ∀ node ∈ program, stmt node) {env : Environment} (he : I env) :
    I (interpret settings env program).environment ∧
      ∀ stop, (interpret settings env program).stop = some stop → E stop ∧ stop ≠ .tooDeep := by
  have hk := h.program settings hp ⟨env, #[], #[]⟩ he
  unfold LetLang.interpret
  generalize sequence (Run.runTraced settings) program ⟨env, #[], #[]⟩ = r at hk
  cases hk with
  | ok value state =>
    refine ⟨state, ?_⟩
    rintro _ ⟨⟩
  | @error stop s expected state =>
    cases stop <;> exact ⟨state, fun _ hs => by cases hs; exact expected⟩

end

end Run

end LetLang
