import LetLang.Proofs.Execution.Congruence
import LetLang.Proofs.Execution.Names

namespace LetLang

open Run

namespace Run

/-- The state at the end of a run, however it ends. -/
def finalState {α : Type} : EStateM.Result Stop State α → State
  | .ok _ s | .error _ s => s

end Run

/-- The variables at the end of a part, however it ends. -/
def Part.after (settings : Settings) (p : Part) : Environment :=
  (finalState (p.result settings)).environment

/-- The levels of evaluation, then what kind of repetition it is, and then how much of it. -/
def Task.measure (settings : Settings) : Task → Nat × Nat × Nat
  | program nodes => (settings.depth, 2, nodes.length)
  | eval depth _ | exec depth _ => (depth, 0, 0)
  | sequence depth body => (depth, 1, body.length)
  | loop depth _ _ passes => (depth, 2, passes)
  | times depth _ count => (depth, 2, count)

/-- A part begins smaller ones only. -/
theorem Begins.measure_lt {settings : Settings} {p q : Part} (h : Begins settings p q) :
    Prod.Lex (· < ·) (Prod.Lex (· < ·) (· < ·)) (q.task.measure settings)
      (p.task.measure settings) := by
  cases h <;> simp [Prod.lex_def, Task.measure]

/-- What holds of a part if it holds of all that it begins holds of every part. -/
theorem Part.induction (settings : Settings) {motive : Part → Prop}
    (h : ∀ p, (∀ q, Begins settings p q → motive q) → motive p) (p : Part) : motive p := by
  have wf : WellFounded fun q p : Part => Prod.Lex (· < ·) (Prod.Lex (· < ·) (· < ·))
      (q.task.measure settings) (p.task.measure settings) :=
    InvImage.wf _ (WellFoundedRelation.wf (α := Nat × Nat × Nat))
  exact wf.induction p fun p ih => h p fun q hb => ih q hb.measure_lt

/-- The variables that there are in the course of a part: at its start, at the end of each part
that it begins, and after a change of its own. A declaration that is carried out is the end of its
part. -/
inductive Part.Has (settings : Settings) (p : Part) : Environment → Prop
  | start : Has settings p p.state.environment
  | part {q : Part} (before : Has settings p q.state.environment) (begun : Begins settings p q) :
    Has settings p (q.after settings)
  | assigned {d : Nat} {name : Token} {e : Node} {v : Value} {env env' : Environment}
    (task : p.task = .eval (d + 1) (.assign name e)) (before : Has settings p env)
    (change : env.assign? name.lexeme v = some env') : Has settings p env'
  | declared {d : Nat} {name : Token} {e : Node} {v : Value} {env : Environment}
    (task : p.task = .exec (d + 1) (.varDecl name e)) (before : Has settings p env)
    (last : p.after settings = env.define name.lexeme v)
    (carriedOut : ∀ f s, p.result settings ≠ .error (.fault f) s) :
    Has settings p (env.define name.lexeme v)

namespace Run

section
variable {α β : Type} {I : Environment → Prop} {Q : α → Prop} {E : Stop → Prop} {s : State}

theorem Ends.finalState {r : EStateM.Result Stop State α} (h : Ends I Q E r) :
    I (Run.finalState r).environment := by
  cases h with
  | ok value state => exact state
  | error expected state => exact state

theorem finalState_ofExcept (r : Except Stop α) : Run.finalState (ofExcept r s) = s := by
  cases r <;> rfl

theorem finalState_valueless (f : Run Unit) (s : State) :
    Run.finalState (valueless f s) = Run.finalState (f s) := by
  cases hf : f s with
  | ok a t =>
    rw [valueless, bind_of_ok hf]
    rfl
  | error stop t =>
    rw [valueless, bind_of_error hf]
    rfl

theorem environment_of_traceFrom {level : Nat} {settings : Settings} {text : Unit → String}
    {s' : State} (h : traceFrom level settings text s = .ok () s') :
    s'.environment = s.environment :=
  ((keeps_traceFrom (E := fun _ => True) (I := (· = s.environment)) level settings text).of_ok
    rfl h).2

variable {settings : Settings} {d : Nat} {c : Node} {s' : State}

theorem eval_of_ifTest {b : Bool} (h : ifTest settings d c s = .ok b s') :
    ∃ v t, eval settings d c s = .ok v t ∧ s'.environment = t.environment := by
  obtain ⟨v, t, hv, h⟩ := bind_eq_ok h
  obtain ⟨_, t', ht, h⟩ := bind_eq_ok h
  cases h
  exact ⟨v, t, hv, environment_of_traceFrom ht⟩

theorem eval_of_whileTest {b : Bool} (h : whileTest settings d c s = .ok b s') :
    ∃ v t, eval settings d c s = .ok v t ∧ s'.environment = t.environment := by
  obtain ⟨v, t, hv, h⟩ := bind_eq_ok h
  obtain ⟨_, t', ht, h⟩ := bind_eq_ok h
  cases h
  exact ⟨v, t, hv, environment_of_traceFrom ht⟩

theorem eval_of_forRange {k : Token} {a b : Node} {range : Int × Int}
    (h : forRange settings d k a b s = .ok range s') :
    ∃ v t w t', eval settings d a s = .ok v t ∧ eval settings d b t = .ok w t' ∧
      s'.environment = t'.environment := by
  obtain ⟨v, t, hv, h⟩ := bind_eq_ok h
  obtain ⟨w, t', hw, h⟩ := bind_eq_ok h
  obtain ⟨_, t'', hr, h⟩ := bind_eq_ok h
  obtain ⟨_, t₃, ht, h⟩ := bind_eq_ok h
  cases h
  have he := ((keeps_rangeOf (E := fun _ => True) (I := (· = t'.environment)) trivial v w).of_ok
    rfl hr).2
  exact ⟨v, t, w, t', hv, hw, (environment_of_traceFrom ht).trans he⟩

theorem environment_finalState_traceFrom (level : Nat) (settings : Settings) (text : Unit → String)
    (s : State) :
    (Run.finalState (traceFrom level settings text s)).environment = s.environment :=
  (keeps_traceFrom (E := fun _ => True) (I := (· = s.environment)) level settings text s
    rfl).finalState

theorem environment_finalState_rangeOf (k : Token) (a b : Value) (s : State) :
    (Run.finalState (rangeOf k a b s)).environment = s.environment :=
  (keeps_rangeOf (E := fun _ => True) (I := (· = s.environment)) trivial a b s rfl).finalState

theorem environment_finalState_traceDeclare (name : Token) (v : Value) :
    (Run.finalState (traceDeclare settings name v s)).environment = s.environment :=
  (keeps_traceDeclare (E := fun _ => True) (I := (· = s.environment)) (fun _ => trivial)
    settings name s rfl).finalState

theorem environment_finalState_readVar (name : Token) (s : State) :
    (Run.finalState (readVar name s)).environment = s.environment := by
  by_cases h : name.lexeme.isScalar = true
  · rw [readVar_eq h]
    cases s.environment.get? name.lexeme <;> rfl
  · rw [readVar, nameOf_bind_of_not h, Run.finalState]

theorem traceDeclare_ne_fault (name : Token) (v : Value) (f : Fault) (s' : State) :
    traceDeclare settings name v s ≠ .error (.fault f) s' := by
  intro h
  have hne : v.kind? = none → ∀ f, Stop.breakdown (.notAValue v) ≠ .fault f := by
    rintro _ _ ⟨⟩
  have hk := keeps_traceDeclare (I := fun _ => True) (E := fun stop => ∀ f, stop ≠ .fault f)
    hne settings name s trivial
  rw [h] at hk
  cases hk with
  | error expected => exact expected f rfl

/-- A statement of the program leaves what it leaves as a statement at the first level. -/
theorem finalState_runTraced (settings : Settings) (node : Node) (s : State) :
    ∃ t, traceFrom 1 settings (fun _ => "exec " ++ node.kindName) s = .ok () t ∧
      Run.finalState (runTraced settings node s) =
        Run.finalState (exec settings settings.depth node t) := by
  have ht := keeps_traceFrom (E := fun _ => False) (I := fun _ => True) 1 settings
    (fun _ => "exec " ++ node.kindName) s trivial
  cases hr : traceFrom 1 settings (fun _ => "exec " ++ node.kindName) s with
  | error stop t =>
    rw [hr] at ht
    cases ht with
    | error expected => exact expected.elim
  | ok _ t =>
    refine ⟨t, rfl, ?_⟩
    rw [runTraced, bind_of_ok hr]
    unfold runStatement
    split
    · next h => rw [h]; rfl
    · rfl

end

end Run

namespace Part

section
variable (settings : Settings) {d : Nat} {s : State}

theorem after_eval (e : Node) : (Part.mk (.eval d e) s).after settings =
    (finalState (Run.eval settings d e s)).environment := by
  unfold Part.after Part.result Task.run
  cases h : Run.eval settings d e s with
  | ok v s' => exact congrArg (fun r => (finalState r).environment) (bind_of_ok h)
  | error stop s' => exact congrArg (fun r => (finalState r).environment) (bind_of_error h)

theorem after_exec (node : Node) : (Part.mk (.exec d node) s).after settings =
    (finalState (Run.exec settings d node s)).environment :=
  congrArg State.environment (finalState_valueless _ s)

theorem after_sequence (body : List Node) : (Part.mk (.sequence d body) s).after settings =
    (finalState (Run.sequence (Run.exec settings d) body s)).environment :=
  congrArg State.environment (finalState_valueless _ s)

theorem after_loop (c : Node) (body : List Node) (passes : Nat) :
    (Part.mk (.loop d c body passes) s).after settings =
      (finalState (whileLoop (whileTest settings d c) (Run.sequence (Run.exec settings d) body)
        passes s)).environment :=
  congrArg State.environment (finalState_valueless _ s)

theorem after_times (body : List Node) (count : Nat) :
    (Part.mk (.times d body count) s).after settings =
      (finalState (Run.times (Run.sequence (Run.exec settings d) body) count s)).environment :=
  congrArg State.environment (finalState_valueless _ s)

theorem after_program (nodes : List Node) : (Part.mk (.program nodes) s).after settings =
    (finalState (Run.sequence (runTraced settings) nodes s)).environment :=
  congrArg State.environment (finalState_valueless _ s)

end

variable {settings : Settings} {p : Part} {d : Nat} {s : State}

/-- One step after another. -/
theorem Has.bind {α β : Type} {f : Run α} {g : α → Run β}
    (hf : p.Has settings (finalState (f s)).environment)
    (hg : ∀ a s', f s = .ok a s' → p.Has settings s'.environment →
      p.Has settings (finalState (g a s')).environment) :
    p.Has settings (finalState ((f >>= g) s)).environment := by
  cases hr : f s with
  | ok a s' =>
    rw [hr] at hf
    rw [bind_of_ok hr]
    exact hg a s' hr hf
  | error stop s' =>
    rw [hr] at hf
    rw [bind_of_error hr]
    exact hf

theorem Has.eval {e : Node} {r : EStateM.Result Stop State Value}
    (before : p.Has settings s.environment) (begun : Begins settings p ⟨.eval d e, s⟩)
    (h : Run.eval settings d e s = r) : p.Has settings (finalState r).environment :=
  h ▸ after_eval settings e ▸ .part before begun

theorem Has.exec {node : Node} {r : EStateM.Result Stop State Unit}
    (before : p.Has settings s.environment) (begun : Begins settings p ⟨.exec d node, s⟩)
    (h : Run.exec settings d node s = r) : p.Has settings (finalState r).environment :=
  h ▸ after_exec settings node ▸ .part before begun

theorem Has.sequence {body : List Node} {r : EStateM.Result Stop State Unit}
    (before : p.Has settings s.environment) (begun : Begins settings p ⟨.sequence d body, s⟩)
    (h : Run.sequence (Run.exec settings d) body s = r) :
    p.Has settings (finalState r).environment :=
  h ▸ after_sequence settings body ▸ .part before begun

end Part

/-- The variables with which a part begins another one. -/
theorem Begins.has {settings : Settings} {p q : Part} (h : Begins settings p q) :
    p.Has settings q.state.environment := by
  -- The variables of a new part are those at the start of the whole, or those that the parts before
  -- it end with; a trace between them changes none.
  cases h with
  | statement traced => exact environment_of_traceFrom traced ▸ .start
  | @nextStatement node nodes s s' first =>
    obtain ⟨t, traced, hx⟩ := finalState_runTraced settings node s
    rw [first] at hx
    have ht : (Part.mk (.program (node :: nodes)) s).Has settings
        (finalState (Run.exec settings settings.depth node t)).environment :=
      Part.Has.exec (environment_of_traceFrom traced ▸ .start) (.statement traced) rfl
    exact congrArg State.environment hx ▸ ht
  | right first => exact Part.Has.start.eval .left first
  | alternative first => exact Part.Has.start.eval .decider first
  | thenBranch test =>
    obtain ⟨v, t, hv, he⟩ := eval_of_ifTest test
    exact he ▸ Part.Has.start.eval .condition hv
  | elseBranch test =>
    obtain ⟨v, t, hv, he⟩ := eval_of_ifTest test
    exact he ▸ Part.Has.start.eval .condition hv
  | finish first => exact Part.Has.start.eval .start first
  | range ends =>
    obtain ⟨v, t, w, t', hv, hw, he⟩ := eval_of_forRange ends
    exact he ▸ (Part.Has.start.eval .start hv).eval (.finish hv) hw
  | others first => exact Part.Has.start.exec .first first
  | pass test =>
    obtain ⟨v, t, hv, he⟩ := eval_of_whileTest test
    exact he ▸ Part.Has.start.eval .test hv
  | nextPass test pass =>
    obtain ⟨v, t, hv, he⟩ := eval_of_whileTest test
    exact Part.Has.sequence (he ▸ Part.Has.start.eval .test hv) (.pass test) pass
  | nextTurn turn => exact Part.Has.start.sequence .turn turn
  | grouping | assigned | operand | left | decider | expression | printed | declared | condition
  | whileLoop | start | first | test | turn => exact .start

namespace Part
variable {settings : Settings} {p : Part} {d : Nat} {s : State}

theorem Has.traceFrom (before : p.Has settings s.environment) (level : Nat)
    (text : Unit → String) :
    p.Has settings (finalState (Run.traceFrom level settings text s)).environment :=
  (environment_finalState_traceFrom level settings text s).symm ▸ before

theorem Has.assignVar {name : Token} {e : Node} {v : Value}
    (task : p.task = .eval (d + 1) (.assign name e)) (before : p.Has settings s.environment) :
    p.Has settings (finalState (Run.assignVar name v s)).environment := by
  by_cases h : name.lexeme.isScalar = true
  · rw [assignVar_eq h]
    cases hc : s.environment.assign? name.lexeme v with
    | none => exact before
    | some env => exact .assigned task before hc
  · rw [Run.assignVar, nameOf_bind_of_not h]
    exact before

theorem has_eval (d : Nat) (e : Node) (s : State) : (Part.mk (.eval d e) s).Has settings
    (finalState (Run.eval settings d e s)).environment := by
  -- No induction: the end of an operand, which is a part of its own, counts for the whole.
  cases d with
  | zero => exact .start
  | succ d =>
    cases e with
    | grouping e => exact Has.start.eval .grouping rfl
    | var name => exact environment_finalState_readVar name s ▸ .start
    | assign name e =>
      refine Has.bind (Has.start.eval .assigned rfl) fun v t hv ht => ?_
      refine Has.bind (ht.assignVar rfl) fun _ t' _ ht' => ?_
      refine Has.bind ?_ fun _ _ _ h => h
      exact ht'.traceFrom 2 _
    | logical l o r =>
      refine Has.bind (Has.start.eval .decider rfl) fun v t hv ht => ?_
      split
      · exact ht
      · next undecided => exact ht.eval (.alternative hv undecided) rfl
    | unary o e =>
      refine Has.bind (Has.start.eval .operand rfl) fun v t hv ht => ?_
      rwa [finalState_ofExcept]
    | binary l o r =>
      refine Has.bind (Has.start.eval .left rfl) fun a t ha ht => ?_
      refine Has.bind (ht.eval (.right ha) rfl) fun b t' hb ht' => ?_
      rwa [finalState_ofExcept]
    | _ => exact .start

theorem has_varDecl (d : Nat) (name : Token) (e : Node) (s : State) :
    (Part.mk (.exec (d + 1) (.varDecl name e)) s).Has settings
      (finalState (Run.exec settings (d + 1) (.varDecl name e) s)).environment := by
  have hinit : (Part.mk (.exec (d + 1) (.varDecl name e)) s).Has settings
      (finalState (initialValue settings d e s)).environment := by
    by_cases present : e = .absent
    · rw [initialValue, if_pos present]
      exact .start
    · rw [initialValue, if_neg present]
      exact Has.start.eval (.declared present) rfl
  cases hv : initialValue settings d e s with
  | error stop t =>
    rw [hv] at hinit
    rwa [exec_varDecl, bind_of_error hv]
  | ok v t =>
    rw [hv] at hinit
    -- The declaration itself counts only if the name is one: else the run breaks down before it.
    by_cases h : name.lexeme.isScalar = true
    · have he : (finalState (Run.exec settings (d + 1) (.varDecl name e) s)).environment =
          t.environment.define name.lexeme v := by
        rw [exec_varDecl, bind_of_ok hv, bind_of_ok (defineVar_eq h v t),
          environment_finalState_traceDeclare]
      rw [he]
      refine .declared rfl hinit ((after_exec settings _).trans he) fun f s' hf => ?_
      rw [Part.result, Task.run, valueless_eq_error_iff, exec_varDecl, bind_of_ok hv,
        bind_of_ok (defineVar_eq h v t)] at hf
      exact traceDeclare_ne_fault _ _ _ _ hf
    · have hd : defineVar name v t = .error (.breakdown (.notAName name.lexeme)) t :=
        nameOf_bind_of_not h _ t
      rw [exec_varDecl, bind_of_ok hv, bind_of_error hd]
      exact hinit

theorem has_exec (d : Nat) (node : Node) (s : State) : (Part.mk (.exec d node) s).Has settings
    (finalState (Run.exec settings d node s)).environment := by
  cases d with
  | zero => exact .start
  | succ d =>
    cases node with
    | exprStmt e => exact Has.bind (Has.start.eval .expression rfl) fun _ _ _ h => h
    | printStmt e => exact Has.bind (Has.start.eval .printed rfl) fun _ _ _ h => h
    | varDecl name e => exact has_varDecl d name e s
    | ifStmt c a b =>
      rw [exec_ifStmt]
      -- The trace after a condition leaves the variables of its value.
      have hc : (Part.mk (.exec (d + 1) (.ifStmt c a b)) s).Has settings
          (finalState (ifTest settings d c s)).environment := by
        refine Has.bind (Has.start.eval .condition rfl) fun v t _ ht => ?_
        refine Has.bind ?_ fun _ _ _ h => h
        exact ht.traceFrom 3 _
      refine Has.bind hc fun test t ht h => ?_
      cases test with
      | true => exact h.exec (.thenBranch ht) rfl
      | false =>
        rw [if_neg Bool.false_ne_true]
        split
        · exact h
        · next present => exact h.exec (.elseBranch ht present) rfl
    | whileStmt c body =>
      rw [exec_whileStmt, ← after_loop]
      exact .part .start .whileLoop
    | forStmt k a b body =>
      rw [exec_forStmt]
      -- Two expressions, a check that changes nothing, and a trace.
      have hr : (Part.mk (.exec (d + 1) (.forStmt k a b body)) s).Has settings
          (finalState (forRange settings d k a b s)).environment := by
        refine Has.bind (Has.start.eval .start rfl) fun v t hv ht => ?_
        refine Has.bind (ht.eval (.finish hv) rfl) fun w t' _ ht' => ?_
        refine Has.bind ?_ fun range t'' _ ht'' => ?_
        · exact (environment_finalState_rangeOf k v w t').symm ▸ ht'
        refine Has.bind ?_ fun _ _ _ h => h
        exact ht''.traceFrom 3 _
      refine Has.bind hr fun range t ht h => ?_
      rw [← after_times]
      exact h.part (.range ht)
    | _ => exact .start

/-- The end of a part is among what there is in the course of it. -/
theorem has_after (p : Part) : p.Has settings (p.after settings) := by
  obtain ⟨task, s⟩ := p
  -- What is left over after the first step of a list or a loop is a part of its own, which is where
  -- the part ends too. So no induction is needed here: one step is enough.
  cases task with
  | eval d e => exact (after_eval settings e).symm ▸ has_eval d e s
  | exec d node => exact (after_exec settings node).symm ▸ has_exec d node s
  | program nodes =>
    cases nodes with
    | nil => exact .start
    | cons node nodes =>
      rw [after_program, Run.sequence]
      obtain ⟨t, traced, he⟩ := finalState_runTraced settings node s
      refine Has.bind ?_ fun _ s' first h => ?_
      · rw [he]
        exact Has.exec (environment_of_traceFrom traced ▸ .start) (.statement traced) rfl
      · rw [← after_program]
        exact h.part (.nextStatement first)
  | sequence d body =>
    cases body with
    | nil => exact .start
    | cons node nodes =>
      rw [after_sequence, Run.sequence]
      refine Has.bind (Has.start.exec .first rfl) fun _ s' first h => ?_
      rw [← after_sequence]
      exact h.part (.others first)
  | loop d c body passes =>
    cases passes with
    | zero => exact .start
    | succ passes =>
      rw [after_loop, whileLoop]
      have hc : (Part.mk (.loop d c body (passes + 1)) s).Has settings
          (finalState (whileTest settings d c s)).environment := by
        refine Has.bind (Has.start.eval .test rfl) fun v t _ ht => ?_
        refine Has.bind ?_ fun _ _ _ h => h
        exact ht.traceFrom 3 _
      refine Has.bind hc fun test t ht h => ?_
      cases test with
      | false => exact h
      | true =>
        refine Has.bind (h.sequence (.pass ht) rfl) fun _ t' hp h => ?_
        rw [← after_loop]
        exact h.part (.nextPass ht hp)
  | times d body count =>
    cases count with
    | zero => exact .start
    | succ count =>
      rw [after_times, Run.times]
      refine Has.bind (Has.start.sequence .turn rfl) fun _ t ht h => ?_
      rw [← after_times]
      exact h.part (.nextTurn ht)

end Part

end LetLang
