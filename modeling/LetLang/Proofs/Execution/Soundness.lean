import LetLang.Proofs.Execution.Completeness

namespace LetLang

open Semantics

namespace Semantics

theorem exists_evaluates_binary {o : Token} {l r : Node}
    (kind : o.kind = .caret ∨ o.kind ∈ Node.chainedKinds)
    (hl : ∀ env, ∃ result env', Evaluates l env result env')
    (hr : ∀ env, ∃ result env', Evaluates r env result env') (env : Environment) :
    ∃ result env', Evaluates (.binary l o r) env result env' := by
  obtain ⟨a, env', ha⟩ := hl env
  cases a with
  | error f => exact ⟨_, _, .leftFault ha⟩
  | ok a =>
    obtain ⟨b, env'', hb⟩ := hr env'
    cases b with
    | error f => exact ⟨_, _, .rightFault ha hb⟩
    | ok b =>
      obtain ⟨result, ho⟩ := exists_binary kind a b
      exact ⟨_, _, .binary ha hb ho⟩

theorem exists_evaluates {n : Nat} {tokens : List Token} {e : Node}
    (h : Node.IsExpression n tokens e) (env : Environment) : ∃ r env', Evaluates e env r env' := by
  induction h generalizing env with
  | truth | literal => exact ⟨_, _, .literal⟩
  | @var _ _ name kind used =>
    cases hv : env.get? name.lexeme with
    | some v => exact ⟨_, _, .var hv⟩
    | none => exact ⟨_, _, .undefined hv⟩
  | grouping level inner ih =>
    obtain ⟨r, env', h⟩ := ih env
    exact ⟨_, _, .grouping h⟩
  | unary level kind operand used ih =>
    obtain ⟨r, env', h⟩ := ih env
    cases r with
    | error f => exact ⟨_, _, .unaryFault h⟩
    | ok a =>
      obtain ⟨r, ho⟩ := exists_unary kind a
      exact ⟨_, _, .unary h ho⟩
  | power level kind left right used ihl ihr =>
    exact exists_evaluates_binary (.inl kind) ihl ihr env
  | binary kind left right used ihl ihr =>
    exact exists_evaluates_binary (.inr kind) ihl ihr env
  | logical kind left right used ihl ihr =>
    obtain ⟨r, env', h⟩ := ihl env
    simp only [List.mem_cons, List.not_mem_nil, or_false] at kind
    cases r with
    | error f => exact ⟨_, _, .logicalFault h⟩
    | ok a =>
      obtain ⟨r', env'', h'⟩ := ihr env'
      -- the word and the truth of the first operand decide whether the second one counts
      cases ht : a.isTruthy <;> obtain hk | hk := kind
      · exact ⟨_, _, .andDecided hk h ht⟩
      · exact ⟨_, _, .or hk h ht h'⟩
      · exact ⟨_, _, .and hk h ht h'⟩
      · exact ⟨_, _, .orDecided hk h ht⟩
  | @assign _ _ _ _ name _ level kind value used ih =>
    obtain ⟨r, env', h⟩ := ih env
    cases r with
    | error f => exact ⟨_, _, .assignFault h⟩
    | ok a =>
      cases hc : env'.contains name.lexeme with
      | true => exact ⟨_, _, .assign h hc⟩
      | false => exact ⟨_, _, .assignUndeclared h hc⟩

/-- An expression in a store: the output stays as it is. -/
inductive Yields (e : Node) (S : Store) : Except Fault Value → Store → Prop
  | intro {r : Except Fault Value} {env : Environment} (h : Evaluates e S.environment r env) :
    Yields e S r ⟨env, S.output⟩

/-- A condition in a store. -/
inductive Tests (c : Node) (S : Store) : Except Fault Bool → Store → Prop
  | value {v : Value} {env : Environment} {b : Bool} (h : Evaluates c S.environment (.ok v) env)
    (truth : v.isTruthy = b) : Tests c S (.ok b) ⟨env, S.output⟩
  | fault {f : Fault} {env : Environment} (h : Evaluates c S.environment (.error f) env) :
    Tests c S (.error f) ⟨env, S.output⟩

end Semantics

namespace Run

section
variable {α β : Type}

/-- A result that is in a relation, unless it is cut short or takes too long. -/
inductive Shows (R : Except Fault α → Store → Prop) : EStateM.Result Stop State α → Prop
  | ok {a : α} {s : State} (h : R (.ok a) s.store) : Shows R (.ok a s)
  | fault {f : Fault} {s : State} (h : R (.error f) s.store) : Shows R (.error (.fault f) s)
  | cut {stop : Stop} {s : State} (h : stop.IsCut) : Shows R (.error stop s)
  | tooLong {s : State} : Shows R (.error .tooLong s)

/-- Wherever it begins, a run shows the relation between the store, the outcome and the store
afterwards. -/
def Meets (R : Store → Except Fault α → Store → Prop) (f : Run α) : Prop :=
  ∀ s, Shows (R s.store) (f s)

/-- One relation after another, unless there is a fault. -/
inductive Then (R : Store → Except Fault α → Store → Prop)
    (R' : α → Store → Except Fault β → Store → Prop) (S : Store) : Except Fault β → Store → Prop
  | ok {a : α} {r : Except Fault β} {S' S'' : Store} (first : R S (.ok a) S')
    (second : R' a S' r S'') : Then R R' S r S''
  | fault {f : Fault} {S' : Store} (first : R S (.error f) S') : Then R R' S (.error f) S'

/-- One relation or another, as a test says. -/
inductive Branch (R R₂ : Store → Except Fault α → Store → Prop) (S : Store) (r : Except Fault α)
    (S' : Store) : Bool → Prop
  | yes (h : R S r S') : Branch R R₂ S r S' true
  | no (h : R₂ S r S') : Branch R R₂ S r S' false

/-- A step that always comes to the same, and leaves a store that depends on the one before. -/
inductive Changes (a : α) (change : Store → Store) (S : Store) : Except Fault α → Store → Prop
  | intro : Changes a change S (.ok a) (change S)

variable {R R₂ : Store → Except Fault α → Store → Prop}
  {R' : α → Store → Except Fault β → Store → Prop} {f : Run α} {g : α → Run β}

theorem Shows.mono {R R₂ : Except Fault α → Store → Prop} {result : EStateM.Result Stop State α}
    (h : Shows R result) (hr : ∀ r S, R r S → R₂ r S) : Shows R₂ result := by
  cases h with
  | ok h => exact .ok (hr _ _ h)
  | fault h => exact .fault (hr _ _ h)
  | cut h => exact .cut h
  | tooLong => exact .tooLong

theorem Meets.mono (h : Meets R f) (hr : ∀ S r S', R S r S' → R₂ S r S') : Meets R₂ f :=
  fun s => (h s).mono (hr s.store)

theorem Meets.bind (hf : Meets R f) (hg : ∀ a, Meets (R' a) (g a)) :
    Meets (Then R R') (f >>= g) := by
  intro s
  have h := hf s
  cases hr : f s with
  | ok a s' =>
    rw [hr] at h
    rw [bind_of_ok hr]
    cases h with
    | ok h => exact (hg a s').mono fun _ _ => .ok h
  | error stop s' =>
    rw [hr] at h
    rw [bind_of_error hr]
    cases h with
    | fault h => exact .fault (.fault h)
    | cut h => exact .cut h
    | tooLong => exact .tooLong

/-- A run that comes to something that is related shows the relation. -/
theorem meets_of_comes (h : ∀ S, ∃ r S', R S r S' ∧ Comes f S r S') : Meets R f := by
  intro s
  obtain ⟨r, S', hr, hc⟩ := h s.store
  have ho := hc s rfl
  generalize f s = result at ho
  cases ho with
  | ok outcome store =>
    subst outcome store
    exact .ok hr
  | fault outcome store =>
    subst outcome store
    exact .fault hr
  | cut cut => exact .cut cut

theorem Meets.branch {f g : Run α} (hf : Meets R f) (hg : Meets R₂ g) (b : Bool) :
    Meets (fun S r S' => Branch R R₂ S r S' b) (if b then f else g) := by
  cases b with
  | true => exact hf.mono fun _ _ _ => .yes
  | false => exact hg.mono fun _ _ _ => .no

theorem meets_changes {a : α} {change : Store → Store}
    (h : ∀ S, Comes f S (.ok a) (change S)) : Meets (Changes a change) f :=
  meets_of_comes fun S => ⟨_, _, .intro, h S⟩

theorem meets_pure (a : α) : Meets (Changes a id) (pure a) := meets_changes (comes_pure a)

end

section
variable {n : Nat} {tokens : List Token} {e : Node} (h : Node.IsExpression n tokens e)
  (settings : Settings) (depth : Nat)
include h

theorem meets_eval : Meets (Yields e) (eval settings depth e) := by
  refine meets_of_comes fun S => ?_
  obtain ⟨r, env, he⟩ := exists_evaluates h S.environment
  exact ⟨r, _, .intro he, comes_eval he S.output depth⟩

theorem meets_ifTest : Meets (Tests e) (ifTest settings depth e) := by
  refine meets_of_comes fun S => ?_
  obtain ⟨r, env, he⟩ := exists_evaluates h S.environment
  cases r with
  | ok v => exact ⟨_, _, .value he rfl, comes_ifTest he S.output depth⟩
  | error f => exact ⟨_, _, .fault he, (comes_eval he S.output depth).bind_fault⟩

theorem meets_whileTest : Meets (Tests e) (whileTest settings depth e) := by
  refine meets_of_comes fun S => ?_
  obtain ⟨r, env, he⟩ := exists_evaluates h S.environment
  cases r with
  | ok v => exact ⟨_, _, .value he rfl, comes_whileTest he S.output depth⟩
  | error f => exact ⟨_, _, .fault he, (comes_eval he S.output depth).bind_fault⟩

end

section
variable {n : Nat} {tokens : List Token}

theorem meets_sequence {exec : Node → Run Unit} {nodes : List Node}
    (h : ∀ node ∈ nodes, Meets (Performs (.statement node)) (exec node)) :
    Meets (Performs (.block nodes)) (sequence exec nodes) := by
  induction nodes with
  | nil =>
    refine (meets_pure ()).mono fun S r S' hs => ?_
    cases hs with
    | intro => exact .blockEnd
  | cons node nodes ih =>
    rw [List.forall_mem_cons] at h
    refine (h.1.bind fun _ => ih h.2).mono fun S r S' hs => ?_
    cases hs with
    | ok first second => exact .blockNext first second
    | fault first => exact .blockFault first

theorem meets_times {exec : Run Unit} {body : List Node} (h : Meets (Performs (.block body)) exec)
    (count : Nat) : Meets (Performs (.times count body)) (times exec count) := by
  induction count with
  | zero =>
    refine (meets_pure ()).mono fun S r S' hs => ?_
    cases hs with
    | intro => exact .timesEnd
  | succ count ih =>
    refine (h.bind fun _ => ih).mono fun S r S' hs => ?_
    cases hs with
    | ok first second => exact .timesNext first second
    | fault first => exact .timesFault first

theorem meets_whileLoop {c : Node} {body : List Node} {condition : Run Bool} {exec : Run Unit}
    (hc : Meets (Tests c) condition) (hb : Meets (Performs (.block body)) exec) (passes : Nat) :
    Meets (Performs (.loop c body)) (whileLoop condition exec passes) := by
  -- On the passes left; what a pass and the rest come to has four forms, one for each rule.
  induction passes with
  | zero => exact fun _ => .tooLong
  | succ passes ih =>
    refine (hc.bind ((hb.bind fun _ => ih).branch (meets_pure ()))).mono fun S r S' hs => ?_
    cases hs with
    | fault test =>
      cases test with
      | fault h => exact .loopFault h
    | ok test rest =>
      cases test with
      | value h truth =>
        cases rest with
        | no rest =>
          cases rest with
          | intro => exact .loopEnd h truth
        | yes rest =>
          cases rest with
          | ok pass again => exact .loopNext h truth pass again
          | fault pass => exact .passFault h truth pass

end

section
variable {n : Nat} {tokens : List Token} (settings : Settings) (depth : Nat)

theorem meets_exprStmt {e : Node} (h : Node.IsExpression n tokens e) :
    Meets (Performs (.statement (.exprStmt e))) (exec settings (depth + 1) (.exprStmt e)) := by
  refine ((meets_eval h settings depth).bind fun _ => meets_pure ()).mono fun S r S' hs => ?_
  cases hs with
  | ok value rest =>
    cases value with
    | intro h =>
      cases rest with
      | intro => exact .exprStmt h
  | fault value =>
    cases value with
    | intro h => exact .exprFault h

theorem meets_printStmt {e : Node} (h : Node.IsExpression n tokens e) :
    Meets (Performs (.statement (.printStmt e))) (exec settings (depth + 1) (.printStmt e)) := by
  refine ((meets_eval h settings depth).bind fun v =>
    meets_changes (comes_print v.display)).mono fun S r S' hs => ?_
  cases hs with
  | ok value rest =>
    cases value with
    | intro h =>
      cases rest with
      | intro => exact .printStmt h
  | fault value =>
    cases value with
    | intro h => exact .printFault h

theorem meets_declare (name : Token) (v : Value) :
    Meets (Changes () fun S => ⟨S.environment.define name.lexeme v, S.output⟩)
      (do defineVar name v; traceDeclare settings name v) :=
  meets_changes fun S => (comes_defineVar name v S).bind (comes_traceDeclare settings name v _)

theorem meets_varDecl (name : Token) :
    Meets (Performs (.statement (.varDecl name .absent)))
      (exec settings (depth + 1) (.varDecl name .absent)) := by
  rw [exec_varDecl, initialValue, if_pos rfl]
  refine (meets_declare settings name .nil).mono fun S r S' hs => ?_
  cases hs with
  | intro => exact .varDecl

theorem meets_initialized {name : Token} {e : Node} (h : Node.IsExpression n tokens e) :
    Meets (Performs (.statement (.varDecl name e)))
      (exec settings (depth + 1) (.varDecl name e)) := by
  have present := h.ne_absent
  rw [exec_varDecl, initialValue, if_neg present]
  refine ((meets_eval h settings depth).bind (meets_declare settings name)).mono
    fun S r S' hs => ?_
  cases hs with
  | ok value rest =>
    cases value with
    | intro h =>
      cases rest with
      | intro => exact .initialized present h
  | fault value =>
    cases value with
    | intro h => exact .initializerFault present h

theorem meets_ifThen {c a : Node} (hc : Node.IsExpression n tokens c)
    (ha : Meets (Performs (.statement a)) (exec settings depth a)) :
    Meets (Performs (.statement (.ifStmt c a .absent)))
      (exec settings (depth + 1) (.ifStmt c a .absent)) := by
  rw [exec_ifStmt]
  refine ((meets_ifTest hc settings depth).bind (ha.branch (meets_pure ()))).mono
    fun S r S' hs => ?_
  cases hs with
  | fault test =>
    cases test with
    | fault h => exact .ifFault h
  | ok test rest =>
    cases test with
    | value h truth =>
      cases rest with
      | yes branch => exact .ifTrue h truth branch
      | no rest =>
        cases rest with
        | intro => exact .ifNothing h truth

theorem meets_ifElse {c a b : Node} (hc : Node.IsExpression n tokens c)
    (ha : Meets (Performs (.statement a)) (exec settings depth a)) (present : b ≠ .absent)
    (hb : Meets (Performs (.statement b)) (exec settings depth b)) :
    Meets (Performs (.statement (.ifStmt c a b))) (exec settings (depth + 1) (.ifStmt c a b)) := by
  rw [exec_ifStmt, if_neg present]
  refine ((meets_ifTest hc settings depth).bind (ha.branch hb)).mono fun S r S' hs => ?_
  cases hs with
  | fault test =>
    cases test with
    | fault h => exact .ifFault h
  | ok test rest =>
    cases test with
    | value h truth =>
      cases rest with
      | yes branch => exact .ifTrue h truth branch
      | no branch => exact .ifFalse h truth present branch

/-- The two ends of a range, in a store. -/
inductive Ranges (a b : Node) (k : Token) (S : Store) : Except Fault (Int × Int) → Store → Prop
  | range {m n : Int} {env env' : Environment} (start : Evaluates a S.environment (.ok (.int m)) env)
    (finish : Evaluates b env (.ok (.int n)) env') : Ranges a b k S (.ok (m, n)) ⟨env', S.output⟩
  | notNumbers {v w : Value} {env env' : Environment}
    (start : Evaluates a S.environment (.ok v) env) (finish : Evaluates b env (.ok w) env')
    (range : ∀ m n, ¬ (v = .int m ∧ w = .int n)) :
    Ranges a b k S (Semantics.fault k .rangeNotNumbers) ⟨env', S.output⟩
  | startFault {f : Fault} {env : Environment} (start : Evaluates a S.environment (.error f) env) :
    Ranges a b k S (.error f) ⟨env, S.output⟩
  | finishFault {v : Value} {f : Fault} {env env' : Environment}
    (start : Evaluates a S.environment (.ok v) env) (finish : Evaluates b env (.error f) env') :
    Ranges a b k S (.error f) ⟨env', S.output⟩

theorem meets_forRange {a b : Node} (k : Token) (ha : Node.IsExpression n tokens a) {m : Nat}
    {us : List Token} (hb : Node.IsExpression m us b) :
    Meets (Ranges a b k) (forRange settings depth k a b) := by
  refine meets_of_comes fun S => ?_
  obtain ⟨r, env, he⟩ := exists_evaluates ha S.environment
  have hs : Comes (eval settings depth a) S r ⟨env, S.output⟩ := comes_eval he S.output depth
  cases r with
  | error f => exact ⟨_, _, .startFault he, hs.bind_fault⟩
  | ok v =>
    obtain ⟨r', env', he'⟩ := exists_evaluates hb env
    have hf : Comes (eval settings depth b) ⟨env, S.output⟩ r' ⟨env', S.output⟩ :=
      comes_eval he' S.output depth
    cases r' with
    | error f => exact ⟨_, _, .finishFault he he', hs.bind hf.bind_fault⟩
    | ok w =>
      by_cases hr : ∃ m n, v = .int m ∧ w = .int n
      · obtain ⟨m, n, rfl, rfl⟩ := hr
        refine ⟨_, _, .range he he', hs.bind (hf.bind ((comes_rangeOf k m n _).bind ?_))⟩
        exact (comes_traceFrom 3 settings _ _).bind (comes_pure _ _)
      · have hr' : ∀ m n, ¬ (v = .int m ∧ w = .int n) := fun m n h => hr ⟨m, n, h⟩
        exact ⟨_, _, .notNumbers he he' hr',
          hs.bind (hf.bind (comes_rangeOf_of_ne k hr' _).bind_fault)⟩

theorem meets_forStmt {k : Token} {a b : Node} {body : List Node}
    (ha : Node.IsExpression n tokens a) {m : Nat} {us : List Token} (hb : Node.IsExpression m us b)
    (hs : Meets (Performs (.block body)) (sequence (exec settings depth) body)) :
    Meets (Performs (.statement (.forStmt k a b body)))
      (exec settings (depth + 1) (.forStmt k a b body)) := by
  rw [exec_forStmt]
  refine ((meets_forRange settings depth k ha hb).bind
    fun ends => meets_times hs (ends.2 - ends.1).toNat).mono fun S r S' h => ?_
  cases h with
  | ok range passes =>
    cases range with
    | range start finish => exact .forStmt start finish passes
  | fault range =>
    cases range with
    | notNumbers start finish range => exact .notNumbers start finish range
    | startFault start => exact .startFault start
    | finishFault start finish => exact .finishFault start finish

end

/-- A statement has the meaning that it comes to. -/
theorem meets_exec {n : Nat} {tokens : List Token} {node : Node} (settings : Settings) (depth : Nat)
    (h : Node.IsDeclaration n tokens node) :
    Meets (Performs (.statement node)) (exec settings depth node) := by
  -- On the levels and not on the tree, since a loop runs its body any number of times at one level.
  induction depth generalizing n tokens node with
  | zero => exact fun _ => .cut .tooDeep
  | succ depth ih =>
    have hbody {m : Nat} {ts : List Token} {body : List Node} (hb : Node.IsBody m ts body) :
        Meets (Performs (.block body)) (sequence (exec settings depth) body) := by
      refine meets_sequence fun node hm => ?_
      obtain ⟨m, hd⟩ := hb.isDeclaration node hm
      exact ih hd
    cases h with
    | varDecl kind used => exact meets_varDecl settings depth _
    | initialized kind value used => exact meets_initialized settings depth value
    | statement h =>
      cases h with
      | exprStmt h => exact meets_exprStmt settings depth h
      | printStmt h => exact meets_printStmt settings depth h
      | ifThen level condition thenBranch used =>
        exact meets_ifThen settings depth condition (ih (.statement thenBranch))
      | ifElse level level' condition thenBranch elseBranch used =>
        exact meets_ifElse settings depth condition (ih (.statement thenBranch))
          elseBranch.ne_absent (ih (.statement elseBranch))
      | forStmt kind start finish inside used =>
        exact meets_forStmt settings depth start finish (hbody inside)
      | whileStmt condition inside used =>
        exact (meets_whileLoop (meets_whileTest condition settings depth) (hbody inside) _).mono
          fun _ _ _ => .whileStmt

/-- A statement of a program. When it is too deep its fault says nothing of its meaning. -/
theorem meets_runTraced {n : Nat} {tokens : List Token} {node : Node} (settings : Settings)
    (h : Node.IsDeclaration n tokens node) :
    Meets (Performs (.statement node)) (runTraced settings node) := by
  have hr : Meets (Performs (.statement node)) (runStatement settings node) := by
    intro s
    have he := meets_exec settings settings.depth h s
    unfold runStatement
    generalize exec settings settings.depth node s = result at he
    cases he with
    | ok h => exact .ok h
    | fault h => exact .fault h
    | tooLong => exact .tooLong
    -- What is cut off becomes a fault here, of which the meaning says nothing.
    | cut h =>
      cases h with
      | tooDeep => exact .cut .nesting
      | breakdown => exact .cut .breakdown
      | nesting => exact .cut .nesting
  have ht : Meets (Changes () id)
      (traceFrom 1 settings fun _ => "exec " ++ node.kindName) :=
    meets_changes (comes_traceFrom 1 settings _)
  refine (ht.bind fun _ => hr).mono fun S r S' hs => ?_
  cases hs with
  | ok traced rest =>
    cases traced with
    | intro => exact rest
  | fault traced => cases traced

theorem Comes.runTraced {node : Node} {settings : Settings} {S S' : Store} {r : Except Fault Unit}
    (h : Comes (exec settings settings.depth node) S r S') : Comes (runTraced settings node) S r S' := by
  refine (comes_traceFrom 1 settings _ S).bind fun s hs => ?_
  have he := h s hs
  unfold runStatement
  generalize exec settings settings.depth node s = result at he
  cases he with
  | ok outcome store => exact .ok outcome store
  | fault outcome store => exact .fault outcome store
  | cut cut =>
    cases cut with
    | tooDeep => exact .cut .nesting
    | breakdown => exact .cut .breakdown
    | nesting => exact .cut .nesting

/-- A program comes to what it performs with all passes from some number on, if there are levels
enough. -/
theorem exists_limit_comes_program (levels verbosity : Nat) {program : List Node} {S S' : Store}
    {r : Except Fault Unit} (h : Performs (.block program) S r S') :
    ∃ limit, ∀ bound ≥ limit,
      Comes (sequence (runTraced ⟨levels, bound, verbosity⟩) program) S r S' := by
  -- The limit is the larger one of those for the first statement and for the others.
  induction program generalizing S with
  | nil =>
    cases h with
    | blockEnd => exact ⟨0, fun _ _ => comes_pure () _⟩
  | cons node nodes ih =>
    cases h with
    | blockNext first others =>
      obtain ⟨limit, hf⟩ := exists_comes_of_performs levels verbosity first
      obtain ⟨limit', ho⟩ := ih others
      refine ⟨max limit limit', fun bound hb => ?_⟩
      rw [ge_iff_le, Nat.max_le] at hb
      exact (hf bound hb.1 bound hb.1 _).runTraced.bind (ho bound hb.2)
    | blockFault first =>
      obtain ⟨limit, hf⟩ := exists_comes_of_performs levels verbosity first
      exact ⟨limit, fun bound hb => (hf bound hb bound hb _).runTraced.bind_fault⟩

end Run

/-- A run has ended, with the outcome and the store. -/
structure RunResult.EndsIn (result : RunResult) (r : Except Fault Unit) (S : Store) : Prop where
  stop : result.stop = match r with
    | .ok () => none
    | .error f => some (.fault f)
  environment : result.environment = S.environment
  output : result.output = S.output

theorem RunResult.EndsIn.unique {result : RunResult} {r r' : Except Fault Unit} {S S' : Store}
    (h : result.EndsIn r S) (h' : result.EndsIn r' S') : r = r' ∧ S = S' := by
  refine ⟨?_, ?_⟩
  · have hs := h.stop.symm.trans h'.stop
    cases r <;> cases r' <;> cases hs <;> rfl
  · cases S
    cases S'
    rw [Store.mk.injEq]
    exact ⟨h.environment.symm.trans h'.environment, h.output.symm.trans h'.output⟩

section
variable {settings : Settings} {env : Environment} {program : List Node}

theorem endsIn_of_comes {r : Except Fault Unit} {S : Store}
    (h : Run.Comes (Run.sequence (Run.runTraced settings) program) ⟨env, []⟩ r S) :
    (interpret settings env program).EndsIn r S ∨
      ∃ stop, (interpret settings env program).stop = some stop ∧ stop.IsCut := by
  have ho := h ⟨env, #[], #[]⟩ rfl
  unfold interpret
  generalize Run.sequence (Run.runTraced settings) program ⟨env, #[], #[]⟩ = result at ho
  cases ho with
  | ok outcome store =>
    subst outcome store
    exact .inl ⟨rfl, rfl, rfl⟩
  | fault outcome store =>
    subst outcome store
    exact .inl ⟨rfl, rfl, rfl⟩
  | @cut stop s cut => exact .inr ⟨stop, by cases stop <;> rfl, cut⟩

theorem interpret_of_meets (env : Environment) {R : Store → Except Fault Unit → Store → Prop}
    (h : Run.Meets R (Run.sequence (Run.runTraced settings) program)) :
    (∃ r S, R ⟨env, []⟩ r S ∧ (interpret settings env program).EndsIn r S) ∨
      (∃ stop, (interpret settings env program).stop = some stop ∧ stop.IsCut) ∨
      (interpret settings env program).stop = some .tooLong := by
  have hs := h ⟨env, #[], #[]⟩
  unfold interpret
  generalize Run.sequence (Run.runTraced settings) program ⟨env, #[], #[]⟩ = result at hs
  cases hs with
  | ok h => exact .inl ⟨_, _, h, rfl, rfl, rfl⟩
  | fault h => exact .inl ⟨_, _, h, rfl, rfl, rfl⟩
  | @cut stop s cut => exact .inr (.inl ⟨stop, by cases stop <;> rfl, cut⟩)
  | tooLong => exact .inr (.inr rfl)

end

/-- A program made of tokens that runs with runtime values is cut short by the levels of
evaluation only. -/
theorem cause_of_isCut_of_tokens {tokens : List Token}
    (ht : ∀ t ∈ tokens, t.Suits Value.IsRuntime) {settings : Settings} {program : List Node}
    (hp : ∀ node ∈ program, ∃ n, Node.IsDeclaration n tokens node) {env : Environment}
    (he : env.Holds Value.IsRuntime) {stop : Stop}
    (hs : (interpret settings env program).stop = some stop) (hc : stop.IsCut) :
    ∃ f, stop = .fault f ∧ f.cause = .nestsTooDeeply := by
  obtain ⟨hx, hd⟩ := ((Run.isInvariant_of_tokens admits_isRuntime ht).interpret settings
    hp he).2 stop hs
  cases hc with
  | tooDeep => exact absurd rfl hd
  | nesting => exact ⟨_, rfl, rfl⟩
  | breakdown => exact absurd rfl (hx.ne_breakdown _)

end LetLang
