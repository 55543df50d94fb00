import LetLang.Proofs.Execution.Semantics

namespace LetLang

open Semantics

def State.store (s : State) : Store := ⟨s.environment, s.output.toList⟩

/-- A stop that says nothing of what the program means: it is too deep, or no program that can be
parsed. -/
inductive Stop.IsCut : Stop → Prop
  | tooDeep : IsCut .tooDeep
  | breakdown {b : Breakdown} : IsCut (.breakdown b)
  | nesting {t? : Option Token} : IsCut (.fault ⟨t?, .nestsTooDeeply⟩)

namespace Run

section
variable {α β : Type}

/-- A result with the given outcome and store, if it is not cut short. -/
inductive IsOutcome (r : Except Fault α) (S : Store) : EStateM.Result Stop State α → Prop
  | ok {a : α} {s : State} (outcome : r = .ok a) (store : s.store = S) : IsOutcome r S (.ok a s)
  | fault {f : Fault} {s : State} (outcome : r = .error f) (store : s.store = S) :
    IsOutcome r S (.error (.fault f) s)
  | cut {stop : Stop} {s : State} (cut : stop.IsCut) : IsOutcome r S (.error stop s)

/-- From one store a run comes to an outcome and a store, if it is not cut short. -/
def Comes (f : Run α) (S : Store) (r : Except Fault α) (S' : Store) : Prop :=
  ∀ s : State, s.store = S → IsOutcome r S' (f s)

variable {f : Run α} {g : α → Run β} {S S' S'' : Store}

theorem comes_pure (a : α) (S : Store) : Comes (pure a) S (.ok a) S := fun _ hs => .ok rfl hs

theorem comes_throw (e : Fault) (S : Store) : Comes (throw (.fault e) : Run α) S (.error e) S :=
  fun _ hs => .fault rfl hs

theorem comes_of_cut {stop : Stop} (h : stop.IsCut) {r : Except Fault α} :
    Comes (throw stop) S r S' := fun _ _ => .cut h

theorem Comes.bind {a : α} (hf : Comes f S (.ok a) S') {r : Except Fault β}
    (hg : Comes (g a) S' r S'') : Comes (f >>= g) S r S'' := by
  intro s hs
  have h := hf s hs
  cases hr : f s with
  | ok b s' =>
    rw [hr] at h
    rw [bind_of_ok hr]
    cases h with
    | ok outcome store =>
      cases outcome
      exact hg s' store
  | error stop s' =>
    rw [hr] at h
    rw [bind_of_error hr]
    cases h with
    | fault outcome => cases outcome
    | cut cut => exact .cut cut

theorem Comes.bind_fault {e : Fault} (hf : Comes f S (.error e) S') :
    Comes (f >>= g) S (.error e) S' := by
  intro s hs
  have h := hf s hs
  cases hr : f s with
  | ok b s' =>
    rw [hr] at h
    cases h with
    | ok outcome => cases outcome
  | error stop s' =>
    rw [hr] at h
    rw [bind_of_error hr]
    cases h with
    | fault outcome store =>
      cases outcome
      exact .fault rfl store
    | cut cut => exact .cut cut

theorem comes_ofExcept {x : Except Stop α} {r : Except Fault α}
    (h : x = r.mapError .fault ∨ ∃ b, x = .error (.breakdown b)) : Comes (ofExcept x) S r S := by
  obtain rfl | ⟨b, rfl⟩ := h
  · cases r with
    | ok a => exact comes_pure a S
    | error e => exact comes_throw e S
  · exact comes_of_cut .breakdown

end

section
variable {S : Store}

theorem comes_print (text : String) (S : Store) :
    Comes (print text) S (.ok ()) ⟨S.environment, S.output ++ [text]⟩ := by
  rintro s rfl
  exact .ok (s := { s with output := s.output.push text }) rfl (by simp [State.store])

theorem comes_traceFrom (level : Nat) (settings : Settings) (text : Unit → String) (S : Store) :
    Comes (traceFrom level settings text) S (.ok ()) S := by
  unfold traceFrom
  split
  · exact fun s hs => .ok (s := { s with trace := s.trace.push (text ()) }) rfl hs
  · exact comes_pure () S

theorem comes_traceDeclare (settings : Settings) (name : Token) (v : Value) (S : Store) :
    Comes (traceDeclare settings name v) S (.ok ()) S := by
  unfold traceDeclare
  split
  · unfold kindOf
    cases v.kind? with
    | some kind =>
      exact fun s hs => .ok (s := { s with trace := s.trace.push _ }) rfl hs
    | none => exact fun _ _ => .cut .breakdown
  · exact comes_pure () S

theorem comes_rangeOf (k : Token) (m n : Int) (S : Store) :
    Comes (rangeOf k (.int m) (.int n)) S (.ok (m, n)) S := comes_pure (m, n) S

theorem comes_rangeOf_of_ne (k : Token) {v w : Value} (h : ∀ m n, ¬ (v = .int m ∧ w = .int n))
    (S : Store) : Comes (rangeOf k v w) S (Semantics.fault k .rangeNotNumbers) S := by
  unfold rangeOf
  split
  · exact absurd ⟨rfl, rfl⟩ (h _ _)
  · exact comes_throw _ S

variable {name : Token}

/-- A variable without a proper name is never touched. -/
theorem comes_of_not_isScalar {α : Type} (hn : ¬ name.lexeme.isScalar = true) {g : Json → Run α}
    {r : Except Fault α} {S' : Store} : Comes (nameOf name >>= g) S r S' := by
  rw [nameOf, if_neg hn]
  exact fun _ _ => .cut .breakdown

theorem comes_readVar {v : Value} (h : S.environment.get? name.lexeme = some v) :
    Comes (readVar name) S (.ok v) S := by
  by_cases hn : name.lexeme.isScalar = true
  · rintro s rfl
    rw [readVar_eq hn, show s.environment.get? name.lexeme = some v from h]
    exact .ok rfl rfl
  · exact comes_of_not_isScalar hn

theorem comes_readVar_of_none (h : S.environment.get? name.lexeme = none) :
    Comes (readVar name) S (Semantics.fault name (.undefinedVariable name.text)) S := by
  by_cases hn : name.lexeme.isScalar = true
  · rintro s rfl
    rw [readVar_eq hn, show s.environment.get? name.lexeme = none from h]
    exact .fault rfl rfl
  · exact comes_of_not_isScalar hn

theorem comes_assignVar (v : Value) (h : S.environment.contains name.lexeme = true) :
    Comes (assignVar name v) S (.ok ()) ⟨S.environment.define name.lexeme v, S.output⟩ := by
  by_cases hn : name.lexeme.isScalar = true
  · rintro s rfl
    rw [assignVar_eq hn, Environment.assign?,
      if_pos (show s.environment.contains name.lexeme = true from h)]
    exact .ok rfl rfl
  · exact comes_of_not_isScalar hn

theorem comes_assignVar_of_not (v : Value) (h : S.environment.contains name.lexeme = false) :
    Comes (assignVar name v) S (Semantics.fault name (.undefinedVariable name.text)) S := by
  by_cases hn : name.lexeme.isScalar = true
  · rintro s rfl
    have hc : ¬ s.environment.contains name.lexeme = true := (Bool.not_eq_true _).mpr h
    rw [assignVar_eq hn, Environment.assign?, if_neg hc]
    exact .fault rfl rfl
  · exact comes_of_not_isScalar hn

theorem comes_defineVar (name : Token) (v : Value) (S : Store) :
    Comes (defineVar name v) S (.ok ()) ⟨S.environment.define name.lexeme v, S.output⟩ := by
  by_cases hn : name.lexeme.isScalar = true
  · rintro s rfl
    rw [defineVar_eq hn]
    exact .ok rfl rfl
  · exact comes_of_not_isScalar hn

end

end Run

namespace Semantics
variable {o : Token} {a b : Value} {r : Except Fault Value}

theorem applyUnary_of_unary (h : Unary o a r) :
    Operator.applyUnary o a = r.mapError .fault := by
  cases h with
  | not kind | minus kind =>
    simp only [Operator.applyUnary, kind]
    rfl
  | notNumber kind operand =>
    unfold Operator.applyUnary
    split
    · simp_all
    · exact absurd rfl (operand _)
    · rfl
    · simp_all

theorem equal_eq (a b : Value) : Operator.equal a b = .ok (decide (a = b)) ∨
    ∃ breakdown, Operator.equal a b = .error (.breakdown breakdown) := by
  unfold Operator.equal
  cases h : a.equal b with
  | error v => exact .inr ⟨.notAValue v, rfl⟩
  | ok result =>
    left
    unfold Value.equal at h
    split at h
    · cases h
      rfl
    · cases ha : a.kind with
      | error v => simp [ha, bind, Except.bind] at h
      | ok k =>
        cases hb : b.kind with
        | error v => simp [ha, hb, bind, Except.bind] at h
        | ok k' =>
          rw [ha, hb] at h
          cases h
          rfl

theorem onNumbers_of_ne (h : ∀ m n, ¬ (a = .int m ∧ b = .int n)) :
    Operator.onNumbers o a b = Operator.faultAt o .operandsNotNumbers := by
  unfold Operator.onNumbers
  split
  · exact absurd ⟨rfl, rfl⟩ (h _ _)
  · rfl

theorem applyBinary_of_notNumbers (kind : o.kind ∈ Operator.numericKinds)
    (operands : ∀ m n, ¬ (a = .int m ∧ b = .int n))
    (texts : o.kind = .plus → ∀ s t, ¬ (a = .str s ∧ b = .str t)) :
    Operator.applyBinary o a b = Operator.faultAt o .operandsNotNumbers := by
  unfold Operator.applyBinary
  split
  · next hk => simp [hk, Operator.numericKinds] at kind
  · next hk => simp [hk, Operator.numericKinds] at kind
  · next hk => simp [hk, Operator.numericKinds] at kind
  · next hk =>
    split
    · exact absurd ⟨rfl, rfl⟩ (texts hk _ _)
    · exact onNumbers_of_ne operands
  · exact onNumbers_of_ne operands

theorem power?_eq_none {m n : Int} (h : ∀ x y, Binary64.ofInt? m = some x →
    Binary64.ofInt? n = some y → (x.pow y).isFinite = false) : Number.power? m n = none := by
  unfold Number.power?
  cases hm : Binary64.ofInt? m with
  | none => rfl
  | some x =>
    cases hn : Binary64.ofInt? n with
    | none => rfl
    | some y =>
      have hf := h x y hm hn
      simp [hf]

theorem power?_eq_some {m n : Int} {x y : Binary64} (hm : Binary64.ofInt? m = some x)
    (hn : Binary64.ofInt? n = some y) (hf : (x.pow y).isFinite = true) :
    Number.power? m n = some (x.pow y).truncate := by
  simp [Number.power?, hm, hn, hf]

/-- A power is not computed to tell which operator is at work. -/
theorem applyBinary_caret {m n : Int} {power : Option Int} (kind : o.kind = .caret)
    (h : Number.power? m n = power) : Operator.applyBinary o (.int m) (.int n) =
      power.elim (Operator.faultAt o .powerOutOfRange) fun result => .ok (.int result) := by
  have ha : Operator.arithmetic o m n =
      power.elim (Operator.faultAt o .powerOutOfRange) fun result => .ok (.int result) := by
    unfold Operator.arithmetic
    generalize Number.power? m n = p, o.kind = k at kind h ⊢
    subst kind h
    cases p <;> rfl
  rw [← ha]
  simp only [Operator.applyBinary, kind, Operator.onNumbers]

/-- The operators agree with their meaning, but for a comparison of values that are none. -/
theorem applyBinary_of_binary (h : Binary o a b r) :
    Operator.applyBinary o a b = r.mapError .fault ∨
      ∃ breakdown, Operator.applyBinary o a b = .error (.breakdown breakdown) := by
  cases h with
  -- Only comparisons can break down, on values that are none; the rest is on the left.
  | equal kind =>
    simp only [Operator.applyBinary, kind]
    refine (equal_eq a b).imp (fun h => by rw [h]; rfl) ?_
    rintro ⟨x, h⟩
    exact ⟨x, by rw [h]; rfl⟩
  | notEqual kind =>
    simp only [Operator.applyBinary, kind]
    obtain h | ⟨x, h⟩ := equal_eq a b
    · left
      rw [h, decide_not]
      rfl
    · exact .inr ⟨x, by rw [h]; rfl⟩
  | exact result range =>
    left
    rw [Operator.applyBinary_of_exactResult? result, Operator.inRange, if_pos range]
    rfl
  | tooLarge result range =>
    left
    rw [Operator.applyBinary_of_exactResult? result, Operator.inRange, if_neg range]
    rfl
  | divide kind divisor =>
    left
    simp only [Operator.applyBinary, Operator.onNumbers, Operator.arithmetic, kind, Number.divide?,
      if_neg divisor, Number.divide_eq_tdiv]
    rfl
  | power kind base exponent finite =>
    exact .inl (applyBinary_caret kind (power?_eq_some base exponent finite))
  | powerOutOfRange kind infinite =>
    exact .inl (applyBinary_caret kind (power?_eq_none infinite))
  | comma kind | concat kind | divideByZero kind | greater kind | greaterEqual kind | less kind
  | lessEqual kind =>
    left
    simp only [Operator.applyBinary, Operator.onNumbers, Operator.arithmetic, kind]
    rfl
  | notNumbers kind operands texts => exact .inl (applyBinary_of_notNumbers kind operands texts)

theorem exists_unary (h : o.kind ∈ [.bang, .minus]) (a : Value) : ∃ r, Unary o a r := by
  simp only [List.mem_cons, List.not_mem_nil, or_false] at h
  obtain hk | hk := h
  · exact ⟨_, .not hk⟩
  · by_cases ha : ∃ n, a = .int n
    · obtain ⟨n, rfl⟩ := ha
      exact ⟨_, .minus hk⟩
    · exact ⟨_, .notNumber hk (not_exists.1 ha)⟩

theorem exists_exact {m n : Int} (result : Int) (h : Operator.exactResult? o.kind m n = some result) :
    ∃ r, Binary o (.int m) (.int n) r := by
  by_cases hr : Number.InRange result
  · exact ⟨_, .exact h hr⟩
  · exact ⟨_, .tooLarge h hr⟩

theorem exists_arithmetic (h : o.kind ∈ Operator.numericKinds) (m n : Int) :
    ∃ r, Binary o (.int m) (.int n) r := by
  simp only [Operator.numericKinds, List.mem_cons, List.not_mem_nil, or_false] at h
  obtain hk | hk | hk | hk | hk | hk | hk | hk | hk := h
  · exact exists_exact (m + n) (by rw [hk]; rfl)
  · exact exists_exact (m - n) (by rw [hk]; rfl)
  · exact exists_exact (m * n) (by rw [hk]; rfl)
  · by_cases hn : n = 0
    · subst hn
      exact ⟨_, .divideByZero hk⟩
    · exact ⟨_, .divide hk hn⟩
  · by_cases hp : ∃ x y, Binary64.ofInt? m = some x ∧ Binary64.ofInt? n = some y ∧
        (x.pow y).isFinite = true
    · obtain ⟨x, y, hm, hn, hf⟩ := hp
      exact ⟨_, .power hk hm hn hf⟩
    · refine ⟨_, .powerOutOfRange hk fun x y hm hn => ?_⟩
      exact Bool.eq_false_iff.2 fun hf => hp ⟨x, y, hm, hn, hf⟩
  · exact ⟨_, .greater hk⟩
  · exact ⟨_, .greaterEqual hk⟩
  · exact ⟨_, .less hk⟩
  · exact ⟨_, .lessEqual hk⟩

theorem exists_binary (h : o.kind = .caret ∨ o.kind ∈ Node.chainedKinds) (a b : Value) :
    ∃ r, Binary o a b r := by
  by_cases hc : o.kind = .comma
  · exact ⟨_, .comma hc⟩
  by_cases he : o.kind = .equalEqual
  · exact ⟨_, .equal he⟩
  by_cases hn : o.kind = .notEqual
  · exact ⟨_, .notEqual hn⟩
  have hk := Operator.numeric_of_binary h hc he hn
  by_cases hi : ∃ m n, a = .int m ∧ b = .int n
  · obtain ⟨m, n, rfl, rfl⟩ := hi
    exact exists_arithmetic hk m n
  by_cases ht : o.kind = .plus ∧ ∃ s t, a = .str s ∧ b = .str t
  · obtain ⟨hp, s, t, rfl, rfl⟩ := ht
    exact ⟨_, .concat hp⟩
  · exact ⟨_, .notNumbers hk (fun m n h => hi ⟨m, n, h⟩) fun hp s t h => ht ⟨hp, s, t, h⟩⟩

end Semantics

namespace Run
variable {settings : Settings}

theorem comes_eval_of_succ {e : Node} {S S' : Store} {r : Except Fault Value}
    (h : ∀ depth, Comes (eval settings (depth + 1) e) S r S') :
    ∀ depth, Comes (eval settings depth e) S r S'
  | 0 => comes_of_cut .tooDeep
  | depth + 1 => h depth

/-- An expression comes to what it evaluates to, if there are levels enough. -/
theorem comes_eval {e : Node} {env env' : Environment} {r : Except Fault Value}
    (h : Evaluates e env r env') (output : List String) :
    ∀ depth, Comes (eval settings depth e) ⟨env, output⟩ r ⟨env', output⟩ := by
  -- On the derivation, for all levels at once: with none the expression is cut off, which is
  -- allowed however it evaluates, and with one more its parts come to their values.
  induction h with
  | literal => exact comes_eval_of_succ fun depth => comes_pure _ _
  | grouping inner ih => exact comes_eval_of_succ ih
  | var defined => exact comes_eval_of_succ fun depth => comes_readVar defined
  | undefined undefined => exact comes_eval_of_succ fun depth => comes_readVar_of_none undefined
  | assign value declared ih =>
    refine comes_eval_of_succ fun depth => (ih depth).bind ?_
    refine (comes_assignVar _ declared).bind ?_
    exact (comes_traceFrom 2 settings _ _).bind (comes_pure _ _)
  | assignUndeclared value undeclared ih =>
    refine comes_eval_of_succ fun depth => (ih depth).bind ?_
    exact (comes_assignVar_of_not _ undeclared).bind_fault
  | assignFault value ih | logicalFault left ih | unaryFault operand ih | leftFault left ih =>
    exact comes_eval_of_succ fun depth => (ih depth).bind_fault
  | and kind left truthy right ihl ihr =>
    refine comes_eval_of_succ fun depth => (ihl depth).bind ?_
    rw [if_neg (by rw [kind, truthy]; exact nofun)]
    exact ihr depth
  | andDecided kind left falsy ih =>
    refine comes_eval_of_succ fun depth => (ih depth).bind ?_
    rw [if_pos (by rw [kind, falsy]; rfl)]
    exact comes_pure _ _
  | or kind left falsy right ihl ihr =>
    refine comes_eval_of_succ fun depth => (ihl depth).bind ?_
    rw [if_neg (by rw [kind, falsy]; exact nofun)]
    exact ihr depth
  | orDecided kind left truthy ih =>
    refine comes_eval_of_succ fun depth => (ih depth).bind ?_
    rw [if_pos (by rw [kind, truthy]; rfl)]
    exact comes_pure _ _
  | unary operand operation ih =>
    refine comes_eval_of_succ fun depth => (ih depth).bind ?_
    exact comes_ofExcept (.inl (applyUnary_of_unary operation))
  | binary left right operation ihl ihr =>
    refine comes_eval_of_succ fun depth => (ihl depth).bind ((ihr depth).bind ?_)
    exact comes_ofExcept (applyBinary_of_binary operation)
  | rightFault left right ihl ihr =>
    exact comes_eval_of_succ fun depth => (ihl depth).bind (ihr depth).bind_fault

section
variable {c : Node} {env env' : Environment}

theorem comes_ifTest {v : Value} (h : Evaluates c env (.ok v) env') (output : List String)
    (depth : Nat) :
    Comes (ifTest settings depth c) ⟨env, output⟩ (.ok v.isTruthy) ⟨env', output⟩ :=
  (comes_eval h output depth).bind ((comes_traceFrom 3 settings _ _).bind (comes_pure _ _))

theorem comes_whileTest {v : Value} (h : Evaluates c env (.ok v) env') (output : List String)
    (depth : Nat) :
    Comes (whileTest settings depth c) ⟨env, output⟩ (.ok v.isTruthy) ⟨env', output⟩ :=
  (comes_eval h output depth).bind ((comes_traceFrom 3 settings _ _).bind (comes_pure _ _))

end

/-- Does the work, a loop with so many passes. -/
def perform (settings : Settings) (passes depth : Nat) : Work → Run Unit
  | .statement s => exec settings depth s
  | .block body => sequence (exec settings depth) body
  | .loop c body => whileLoop (whileTest settings depth c) (sequence (exec settings depth) body) passes
  | .times count body => times (sequence (exec settings depth) body) count

/-- With so many passes and more, work comes to an outcome and a store. -/
def ComesWithin (limit levels verbosity : Nat) (w : Work) (S : Store) (r : Except Fault Unit)
    (S' : Store) : Prop :=
  ∀ bound ≥ limit, ∀ passes ≥ limit, ∀ depth,
    Comes (perform ⟨levels, bound, verbosity⟩ passes depth w) S r S'

theorem comesWithin_of_succ {limit levels verbosity : Nat} {s : Node} {S S' : Store}
    {r : Except Fault Unit} (h : ∀ bound ≥ limit, ∀ depth,
      Comes (exec ⟨levels, bound, verbosity⟩ (depth + 1) s) S r S') :
    ComesWithin limit levels verbosity (.statement s) S r S' := by
  intro bound hb passes hp depth
  cases depth with
  | zero => exact comes_of_cut .tooDeep
  | succ depth => exact h bound hb depth

/-- A statement without statements in it needs no passes. -/
theorem exists_comesWithin {levels verbosity : Nat} {s : Node} {S S' : Store}
    {r : Except Fault Unit} (h : ∀ bound depth,
      Comes (exec ⟨levels, bound, verbosity⟩ (depth + 1) s) S r S') :
    ∃ limit, ComesWithin limit levels verbosity (.statement s) S r S' :=
  ⟨0, comesWithin_of_succ fun bound _ depth => h bound depth⟩

/-- Work comes to what it performs, if there are passes and levels enough. -/
theorem exists_comes_of_performs (levels verbosity : Nat) {w : Work} {S S' : Store}
    {r : Except Fault Unit} (h : Performs w S r S') :
    ∃ limit, ComesWithin limit levels verbosity w S r S' := by
  -- the limit grows with the derivation: each part has one of its own, and a pass adds one
  induction h with
  | exprStmt value =>
    refine exists_comesWithin fun bound depth => ?_
    exact (comes_eval value _ depth).bind (comes_pure _ _)
  | exprFault value | printFault value =>
    exact exists_comesWithin fun bound depth => (comes_eval value _ depth).bind_fault
  | printStmt value =>
    refine exists_comesWithin fun bound depth => ?_
    exact (comes_eval value _ depth).bind (comes_print _ _)
  | varDecl =>
    refine exists_comesWithin fun bound depth => ?_
    rw [exec_varDecl, initialValue, if_pos rfl]
    exact (comes_pure _ _).bind ((comes_defineVar _ _ _).bind (comes_traceDeclare _ _ _ _))
  | initialized present value =>
    refine exists_comesWithin fun bound depth => ?_
    rw [exec_varDecl, initialValue, if_neg present]
    refine (comes_eval value _ depth).bind ?_
    exact (comes_defineVar _ _ _).bind (comes_traceDeclare _ _ _ _)
  | initializerFault present value =>
    refine exists_comesWithin fun bound depth => ?_
    rw [exec_varDecl, initialValue, if_neg present]
    exact (comes_eval value _ depth).bind_fault
  | ifTrue condition truthy branch ih =>
    obtain ⟨limit, ih⟩ := ih
    refine ⟨limit, comesWithin_of_succ fun bound hb depth => ?_⟩
    rw [exec_ifStmt]
    refine (comes_ifTest condition _ depth).bind ?_
    rw [if_pos truthy]
    exact ih bound hb bound hb depth
  | ifFalse condition falsy present branch ih =>
    obtain ⟨limit, ih⟩ := ih
    refine ⟨limit, comesWithin_of_succ fun bound hb depth => ?_⟩
    rw [exec_ifStmt]
    refine (comes_ifTest condition _ depth).bind ?_
    rw [falsy, if_neg Bool.false_ne_true, if_neg present]
    exact ih bound hb bound hb depth
  | ifNothing condition falsy =>
    refine exists_comesWithin fun bound depth => ?_
    rw [exec_ifStmt]
    refine (comes_ifTest condition _ depth).bind ?_
    rw [falsy, if_neg Bool.false_ne_true, if_pos rfl]
    exact comes_pure _ _
  | ifFault condition =>
    exact exists_comesWithin fun bound depth => (comes_eval condition _ depth).bind_fault
  | whileStmt loop ih =>
    obtain ⟨limit, ih⟩ := ih
    exact ⟨limit, comesWithin_of_succ fun bound hb depth => ih bound hb bound hb depth⟩
  | forStmt start finish passes ih =>
    obtain ⟨limit, ih⟩ := ih
    refine ⟨limit, comesWithin_of_succ fun bound hb depth => ?_⟩
    refine (comes_eval start _ depth).bind ((comes_eval finish _ depth).bind ?_)
    refine (comes_rangeOf _ _ _ _).bind ((comes_traceFrom 3 _ _ _).bind ?_)
    exact ih bound hb bound hb depth
  | notNumbers start finish range =>
    refine exists_comesWithin fun bound depth => ?_
    refine (comes_eval start _ depth).bind ((comes_eval finish _ depth).bind ?_)
    exact (comes_rangeOf_of_ne _ range _).bind_fault
  | startFault start =>
    exact exists_comesWithin fun bound depth => (comes_eval start _ depth).bind_fault
  | finishFault start finish =>
    refine exists_comesWithin fun bound depth => ?_
    exact (comes_eval start _ depth).bind (comes_eval finish _ depth).bind_fault
  | blockEnd => exact ⟨0, fun bound _ passes _ depth => comes_pure _ _⟩
  | blockNext first others ihf iho =>
    obtain ⟨limit, ihf⟩ := ihf
    obtain ⟨limit', iho⟩ := iho
    refine ⟨max limit limit', fun bound hb passes hp depth => ?_⟩
    rw [ge_iff_le, Nat.max_le] at hb hp
    exact (ihf bound hb.1 passes hp.1 depth).bind (iho bound hb.2 passes hp.2 depth)
  | blockFault first ih =>
    obtain ⟨limit, ih⟩ := ih
    exact ⟨limit, fun bound hb passes hp depth => (ih bound hb passes hp depth).bind_fault⟩
  | loopEnd condition falsy =>
    refine ⟨1, fun bound _ passes hp depth => ?_⟩
    obtain ⟨passes, rfl⟩ : ∃ n, passes = n + 1 := ⟨passes - 1, by omega⟩
    refine (comes_whileTest condition _ depth).bind ?_
    rw [if_neg (by rw [falsy]; exact Bool.false_ne_true)]
    exact comes_pure _ _
  | loopNext condition truthy pass again ihp iha =>
    obtain ⟨limit, ihp⟩ := ihp
    obtain ⟨limit', iha⟩ := iha
    -- the bound stays for the loops inside, while this loop counts its passes down
    refine ⟨max limit limit' + 1, fun bound hb passes hp depth => ?_⟩
    obtain ⟨passes, rfl⟩ : ∃ n, passes = n + 1 := ⟨passes - 1, by omega⟩
    refine (comes_whileTest condition _ depth).bind ?_
    rw [if_pos truthy]
    exact (ihp bound (by omega) bound (by omega) depth).bind
      (iha bound (by omega) _ (by omega) depth)
  | passFault condition truthy pass ih =>
    obtain ⟨limit, ih⟩ := ih
    refine ⟨limit + 1, fun bound hb passes hp depth => ?_⟩
    obtain ⟨passes, rfl⟩ : ∃ n, passes = n + 1 := ⟨passes - 1, by omega⟩
    refine (comes_whileTest condition _ depth).bind ?_
    rw [if_pos truthy]
    exact (ih bound (by omega) bound (by omega) depth).bind_fault
  | loopFault condition =>
    refine ⟨1, fun bound _ passes hp depth => ?_⟩
    obtain ⟨passes, rfl⟩ : ∃ n, passes = n + 1 := ⟨passes - 1, by omega⟩
    exact (comes_eval condition _ depth).bind_fault.bind_fault
  | timesEnd => exact ⟨0, fun bound _ passes _ depth => comes_pure _ _⟩
  | timesNext pass again ihp iha =>
    obtain ⟨limit, ihp⟩ := ihp
    obtain ⟨limit', iha⟩ := iha
    refine ⟨max limit limit', fun bound hb passes hp depth => ?_⟩
    rw [ge_iff_le, Nat.max_le] at hb hp
    exact (ihp bound hb.1 passes hp.1 depth).bind (iha bound hb.2 passes hp.2 depth)
  | timesFault pass ih =>
    obtain ⟨limit, ih⟩ := ih
    exact ⟨limit, fun bound hb passes hp depth => (ih bound hb passes hp depth).bind_fault⟩

end Run

end LetLang
