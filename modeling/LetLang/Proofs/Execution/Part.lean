import Mathlib.Logic.Relation
import LetLang.Proofs.Execution.Invariant

namespace LetLang

open Run

/-- Something to do, with the levels of evaluation that are left for it. -/
inductive Task where
  | program (nodes : List Node)
  | eval (depth : Nat) (e : Node)
  | exec (depth : Nat) (s : Node)
  | sequence (depth : Nat) (body : List Node)
  | loop (depth : Nat) (condition : Node) (body : List Node) (passes : Nat)
  | times (depth : Nat) (body : List Node) (count : Nat)

/-- A run that has no value. -/
def Run.valueless (f : Run Unit) : Run (Option Value) := do
  f
  pure none

/-- Does the task. Only an expression has a value. -/
def Task.run (settings : Settings) : Task → Run (Option Value)
  | program nodes => valueless (Run.sequence (runTraced settings) nodes)
  | eval depth e => do
    let value ← Run.eval settings depth e
    pure (some value)
  | exec depth s => valueless (Run.exec settings depth s)
  | sequence depth body => valueless (Run.sequence (Run.exec settings depth) body)
  | loop depth condition body passes =>
    valueless (whileLoop (whileTest settings depth condition)
      (Run.sequence (Run.exec settings depth) body) passes)
  | times depth body count =>
    valueless (Run.times (Run.sequence (Run.exec settings depth) body) count)

/-- A task, and the state in which it is begun. -/
structure Part where
  task : Task
  state : State

/-- How a part ends. -/
def Part.result (settings : Settings) (p : Part) : EStateM.Result Stop State (Option Value) :=
  p.task.run settings p.state

/-- One part begins another on its own account, once what comes before that has been done. -/
inductive Begins (settings : Settings) : Part → Part → Prop
  | statement {node : Node} {nodes : List Node} {s s' : State}
    (traced : traceFrom 1 settings (fun _ => "exec " ++ node.kindName) s = .ok () s') :
    Begins settings ⟨.program (node :: nodes), s⟩ ⟨.exec settings.depth node, s'⟩
  | nextStatement {node : Node} {nodes : List Node} {s s' : State}
    (first : runTraced settings node s = .ok () s') :
    Begins settings ⟨.program (node :: nodes), s⟩ ⟨.program nodes, s'⟩
  | grouping {d : Nat} {e : Node} {s : State} :
    Begins settings ⟨.eval (d + 1) (.grouping e), s⟩ ⟨.eval d e, s⟩
  | assigned {d : Nat} {name : Token} {e : Node} {s : State} :
    Begins settings ⟨.eval (d + 1) (.assign name e), s⟩ ⟨.eval d e, s⟩
  | operand {d : Nat} {o : Token} {e : Node} {s : State} :
    Begins settings ⟨.eval (d + 1) (.unary o e), s⟩ ⟨.eval d e, s⟩
  | left {d : Nat} {l r : Node} {o : Token} {s : State} :
    Begins settings ⟨.eval (d + 1) (.binary l o r), s⟩ ⟨.eval d l, s⟩
  | right {d : Nat} {l r : Node} {o : Token} {v : Value} {s s' : State}
    (first : Run.eval settings d l s = .ok v s') :
    Begins settings ⟨.eval (d + 1) (.binary l o r), s⟩ ⟨.eval d r, s'⟩
  | decider {d : Nat} {l r : Node} {o : Token} {s : State} :
    Begins settings ⟨.eval (d + 1) (.logical l o r), s⟩ ⟨.eval d l, s⟩
  | alternative {d : Nat} {l r : Node} {o : Token} {v : Value} {s s' : State}
    (first : Run.eval settings d l s = .ok v s') (undecided : v.isTruthy ≠ (o.kind == .kwOr)) :
    Begins settings ⟨.eval (d + 1) (.logical l o r), s⟩ ⟨.eval d r, s'⟩
  | expression {d : Nat} {e : Node} {s : State} :
    Begins settings ⟨.exec (d + 1) (.exprStmt e), s⟩ ⟨.eval d e, s⟩
  | printed {d : Nat} {e : Node} {s : State} :
    Begins settings ⟨.exec (d + 1) (.printStmt e), s⟩ ⟨.eval d e, s⟩
  | declared {d : Nat} {name : Token} {e : Node} {s : State} (present : e ≠ .absent) :
    Begins settings ⟨.exec (d + 1) (.varDecl name e), s⟩ ⟨.eval d e, s⟩
  | condition {d : Nat} {c a b : Node} {s : State} :
    Begins settings ⟨.exec (d + 1) (.ifStmt c a b), s⟩ ⟨.eval d c, s⟩
  | thenBranch {d : Nat} {c a b : Node} {s s' : State} (test : ifTest settings d c s = .ok true s') :
    Begins settings ⟨.exec (d + 1) (.ifStmt c a b), s⟩ ⟨.exec d a, s'⟩
  | elseBranch {d : Nat} {c a b : Node} {s s' : State} (test : ifTest settings d c s = .ok false s')
    (present : b ≠ .absent) :
    Begins settings ⟨.exec (d + 1) (.ifStmt c a b), s⟩ ⟨.exec d b, s'⟩
  | whileLoop {d : Nat} {c : Node} {body : List Node} {s : State} :
    Begins settings ⟨.exec (d + 1) (.whileStmt c body), s⟩ ⟨.loop d c body settings.passes, s⟩
  | start {d : Nat} {k : Token} {a b : Node} {body : List Node} {s : State} :
    Begins settings ⟨.exec (d + 1) (.forStmt k a b body), s⟩ ⟨.eval d a, s⟩
  | finish {d : Nat} {k : Token} {a b : Node} {body : List Node} {v : Value} {s s' : State}
    (first : Run.eval settings d a s = .ok v s') :
    Begins settings ⟨.exec (d + 1) (.forStmt k a b body), s⟩ ⟨.eval d b, s'⟩
  | range {d : Nat} {k : Token} {a b : Node} {body : List Node} {m n : Int} {s s' : State}
    (ends : forRange settings d k a b s = .ok (m, n) s') :
    Begins settings ⟨.exec (d + 1) (.forStmt k a b body), s⟩ ⟨.times d body (n - m).toNat, s'⟩
  | first {d : Nat} {node : Node} {nodes : List Node} {s : State} :
    Begins settings ⟨.sequence d (node :: nodes), s⟩ ⟨.exec d node, s⟩
  | others {d : Nat} {node : Node} {nodes : List Node} {s s' : State}
    (first : Run.exec settings d node s = .ok () s') :
    Begins settings ⟨.sequence d (node :: nodes), s⟩ ⟨.sequence d nodes, s'⟩
  | test {d : Nat} {c : Node} {body : List Node} {passes : Nat} {s : State} :
    Begins settings ⟨.loop d c body (passes + 1), s⟩ ⟨.eval d c, s⟩
  | pass {d : Nat} {c : Node} {body : List Node} {passes : Nat} {s s' : State}
    (test : whileTest settings d c s = .ok true s') :
    Begins settings ⟨.loop d c body (passes + 1), s⟩ ⟨.sequence d body, s'⟩
  | nextPass {d : Nat} {c : Node} {body : List Node} {passes : Nat} {s s' s'' : State}
    (test : whileTest settings d c s = .ok true s')
    (pass : Run.sequence (Run.exec settings d) body s' = .ok () s'') :
    Begins settings ⟨.loop d c body (passes + 1), s⟩ ⟨.loop d c body passes, s''⟩
  | turn {d : Nat} {body : List Node} {count : Nat} {s : State} :
    Begins settings ⟨.times d body (count + 1), s⟩ ⟨.sequence d body, s⟩
  | nextTurn {d : Nat} {body : List Node} {count : Nat} {s s' : State}
    (turn : Run.sequence (Run.exec settings d) body s = .ok () s') :
    Begins settings ⟨.times d body (count + 1), s⟩ ⟨.times d body count, s'⟩

/-- The run of a program comes to begin the part. -/
def Reached (settings : Settings) (environment : Environment) (program : List Node) : Part → Prop :=
  Relation.ReflTransGen (Begins settings) ⟨.program program, ⟨environment, #[], #[]⟩⟩

/-- A task of trees of some classes. -/
def Task.IsOf (expr stmt : Node → Prop) : Task → Prop
  | program nodes => ∀ node ∈ nodes, stmt node
  | eval _ e => expr e
  | exec _ s => stmt s
  | sequence _ body | times _ body _ => ∀ node ∈ body, stmt node
  | loop _ c body _ => expr c ∧ ∀ node ∈ body, stmt node

namespace Run
variable {expr stmt : Node → Prop} {I : Environment → Prop} {Q : Value → Prop} {E : Stop → Prop}
  {settings : Settings} {p q : Part}

/-- What one part keeps, up to the part that it begins. -/
theorem IsInvariant.begins (h : IsInvariant expr stmt I Q E) (hb : Begins settings p q)
    (hp : p.task.IsOf expr stmt) (hi : I p.state.environment) :
    q.task.IsOf expr stmt ∧ I q.state.environment := by
  -- A part begins either with the whole, which has the invariant by assumption, or after earlier
  -- parts, which keep it. What it may run is what the invariant says of the parts of a tree.
  cases hb with
  | statement traced =>
    exact ⟨hp _ List.mem_cons_self,
      ((keeps_traceFrom 1 settings _).of_ok (E := E) hi traced).2⟩
  | nextStatement first =>
    rw [Task.IsOf, List.forall_mem_cons] at hp
    exact ⟨hp.2, ((h.runTraced settings hp.1).of_ok hi first).2⟩
  | grouping => exact ⟨h.grouping hp, hi⟩
  | assigned => exact ⟨(h.assign hp).1, hi⟩
  | operand => exact ⟨(h.unary hp).1, hi⟩
  | left => exact ⟨(h.binary hp).1, hi⟩
  | right first =>
    obtain ⟨hl, hr, -⟩ := h.binary hp
    exact ⟨hr, ((h.eval settings _ hl).of_ok hi first).2⟩
  | decider => exact ⟨(h.logical hp).1, hi⟩
  | alternative first =>
    obtain ⟨hl, hr⟩ := h.logical hp
    exact ⟨hr, ((h.eval settings _ hl).of_ok hi first).2⟩
  | expression => exact ⟨h.exprStmt hp, hi⟩
  | printed => exact ⟨h.printStmt hp, hi⟩
  | declared present => exact ⟨(h.varDecl hp).1 present, hi⟩
  | condition => exact ⟨(h.ifStmt hp).1, hi⟩
  | thenBranch test =>
    obtain ⟨hc, ha, -⟩ := h.ifStmt hp
    exact ⟨ha, ((h.ifTest settings _ hc).of_ok hi test).2⟩
  | elseBranch test present =>
    obtain ⟨hc, -, hb⟩ := h.ifStmt hp
    exact ⟨hb present, ((h.ifTest settings _ hc).of_ok hi test).2⟩
  | whileLoop => exact ⟨h.whileStmt hp, hi⟩
  | start => exact ⟨(h.forStmt hp).1, hi⟩
  | finish first =>
    obtain ⟨ha, hb, -⟩ := h.forStmt hp
    exact ⟨hb, ((h.eval settings _ ha).of_ok hi first).2⟩
  | range ends =>
    obtain ⟨ha, hb, hs, hk⟩ := h.forStmt hp
    exact ⟨hs, ((h.forRange settings _ ha hb hk).of_ok hi ends).2⟩
  | first => exact ⟨hp _ List.mem_cons_self, hi⟩
  | others first =>
    rw [Task.IsOf, List.forall_mem_cons] at hp
    exact ⟨hp.2, ((h.exec settings _ hp.1).of_ok hi first).2⟩
  | test => exact ⟨hp.1, hi⟩
  | pass test => exact ⟨hp.2, ((h.whileTest settings _ hp.1).of_ok hi test).2⟩
  | nextPass test pass =>
    have hi' := ((h.whileTest settings _ hp.1).of_ok hi test).2
    exact ⟨hp, ((h.body settings _ hp.2).of_ok hi' pass).2⟩
  | turn => exact ⟨hp, hi⟩
  | nextTurn turn => exact ⟨hp, ((h.body settings _ hp).of_ok hi turn).2⟩

/-- An invariant holds at every part that a run begins. -/
theorem IsInvariant.reached (h : IsInvariant expr stmt I Q E) {environment : Environment}
    {program : List Node} (hr : Reached settings environment program p)
    (hp : ∀ node ∈ program, stmt node) (hi : I environment) :
    p.task.IsOf expr stmt ∧ I p.state.environment := by
  induction hr with
  | refl => exact ⟨hp, hi⟩
  | tail _ hb ih => exact h.begins hb ih.1 ih.2

theorem keeps_valueless {f : Run Unit} (h : Keeps I (fun _ => True) E f) :
    Keeps I (fun v : Option Value => ∀ w, v = some w → Q w) E (valueless f) :=
  h.bind fun _ _ => keeps_pure nofun

/-- A part keeps the invariant too, and has a value with the property if it has one. -/
theorem IsInvariant.task (h : IsInvariant expr stmt I Q E) (settings : Settings) {task : Task}
    (ht : task.IsOf expr stmt) :
    Keeps I (fun v => ∀ w, v = some w → Q w) E (task.run settings) := by
  cases task with
  | program nodes =>
    exact keeps_valueless ((h.program settings ht).mono (fun _ => id) fun _ => And.left)
  | eval depth e =>
    refine (h.eval settings depth ht).bind fun v hv => keeps_pure ?_
    rintro _ ⟨⟩
    exact hv
  | exec depth s => exact keeps_valueless (h.exec settings depth ht)
  | sequence depth body => exact keeps_valueless (h.body settings depth ht)
  | loop depth c body passes =>
    exact keeps_valueless
      (keeps_whileLoop h.tooLong (h.whileTest settings depth ht.1) (h.body settings depth ht.2) passes)
  | times depth body count => exact keeps_valueless (keeps_times (h.body settings depth ht) count)

end Run

namespace Run

theorem valueless_eq_error_iff {f : Run Unit} {s s' : State} {stop : Stop} :
    valueless f s = .error stop s' ↔ f s = .error stop s' := by
  cases hf : f s with
  | ok a t =>
    rw [valueless, bind_of_ok hf]
    exact ⟨nofun, nofun⟩
  | error e t =>
    rw [valueless, bind_of_error hf]
    simp only [EStateM.Result.error.injEq]

theorem value_eq_error_iff {f : Run Value} {s s' : State} {stop : Stop} :
    (do let value ← f; pure (some value) : Run (Option Value)) s = .error stop s' ↔
      f s = .error stop s' := by
  cases hf : f s with
  | ok a t =>
    rw [bind_of_ok hf]
    exact ⟨nofun, nofun⟩
  | error e t =>
    rw [bind_of_error hf]
    simp only [EStateM.Result.error.injEq]

theorem runStatement_of_fault {settings : Settings} {node : Node} {s s' : State} {f : Fault}
    (h : exec settings settings.depth node s = .error (.fault f) s') :
    runStatement settings node s = .error (.fault f) s' := by
  rw [runStatement, h]

end Run

section
variable {settings : Settings} {p q : Part} {f : Fault} {s : State}

/-- A fault of one part is the fault of the part that began it. -/
theorem Begins.fault (hb : Begins settings p q) (hq : q.result settings = .error (.fault f) s) :
    p.result settings = .error (.fault f) s := by
  -- each case goes through what the whole does before the part, and then stops with it
  cases hb <;> simp only [Part.result, Task.run, valueless_eq_error_iff, value_eq_error_iff] at hq ⊢
  case statement traced =>
    exact bind_of_error ((bind_of_ok traced).trans (runStatement_of_fault hq))
  case nextStatement first => exact (bind_of_ok first).trans hq
  case grouping => exact hq
  case assigned => exact bind_of_error hq
  case operand => exact bind_of_error hq
  case left => exact bind_of_error hq
  case right first => exact (bind_of_ok first).trans (bind_of_error hq)
  case decider => exact bind_of_error hq
  case alternative first undecided =>
    exact (bind_of_ok first).trans (by rw [if_neg undecided]; exact hq)
  case expression => exact bind_of_error hq
  case printed => exact bind_of_error hq
  case declared present =>
    rw [exec_varDecl, initialValue, if_neg present]
    exact bind_of_error hq
  case condition => exact bind_of_error hq
  case thenBranch test =>
    rw [exec_ifStmt]
    exact (bind_of_ok test).trans hq
  case elseBranch test present =>
    rw [exec_ifStmt]
    exact (bind_of_ok test).trans (by rw [if_neg Bool.false_ne_true, if_neg present]; exact hq)
  case whileLoop => exact hq
  case start => exact bind_of_error hq
  case finish first => exact (bind_of_ok first).trans (bind_of_error hq)
  case range ends =>
    rw [exec_forStmt]
    exact (bind_of_ok ends).trans hq
  case first => exact bind_of_error hq
  case others first => exact (bind_of_ok first).trans hq
  case test => exact bind_of_error (bind_of_error hq)
  case pass test => exact (bind_of_ok test).trans (bind_of_error hq)
  case nextPass test pass => exact (bind_of_ok test).trans ((bind_of_ok pass).trans hq)
  case turn => exact bind_of_error hq
  case nextTurn turn => exact (bind_of_ok turn).trans hq

/-- A fault of a part that is reached ends the run, with all that was done up to it. -/
theorem interpret_of_reached {environment : Environment} {program : List Node}
    (hr : Reached settings environment program p) (hf : p.result settings = .error (.fault f) s) :
    interpret settings environment program = ⟨s.environment, s.output.toList,
      s.trace.toList ++ faultTrace settings f, some (.fault f)⟩ := by
  induction hr with
  | refl =>
    simp only [Part.result, Task.run, valueless_eq_error_iff] at hf
    rw [interpret, hf]
  | tail _ hb ih => exact ih (hb.fault hf)

end

end LetLang
