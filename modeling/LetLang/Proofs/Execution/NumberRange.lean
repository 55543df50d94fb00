import LetLang.Proofs.Execution.Part
import LetLang.Proofs.Execution.Safety

namespace LetLang

namespace Node

mutual
/-- The values of all literals in a tree. -/
def literals : Node → List Value
  | .literal v => [v]
  | .grouping e | .unary _ e | .assign _ e | .exprStmt e | .printStmt e | .varDecl _ e => e.literals
  | .binary l _ r | .logical l _ r => l.literals ++ r.literals
  | .ifStmt c a b => c.literals ++ (a.literals ++ b.literals)
  | .forStmt _ a b body => a.literals ++ (b.literals ++ allLiterals body)
  | .whileStmt c body => c.literals ++ allLiterals body
  | .absent | .var _ => []
def allLiterals : List Node → List Value
  | [] => []
  | node :: nodes => node.literals ++ allLiterals nodes
end

variable {P : Value → Prop}

theorem IsExpression.forall_literals (hP : Admits P) {n : Nat} {tokens : List Token} {node : Node}
    (h : IsExpression n tokens node) (ht : ∀ t ∈ tokens, t.Suits P) : ∀ v ∈ node.literals, P v := by
  induction h with
  | truth b => exact List.forall_mem_singleton.2 (hP.bool b)
  | literal kind used =>
    have hm := used.subset (List.mem_singleton_self _)
    exact List.forall_mem_singleton.2 ((ht _ hm).literal kind)
  | var => exact List.forall_mem_nil _
  | grouping level inner ih => exact ih ht
  | unary level kind operand used ih | assign level kind value used ih =>
    exact ih fun t hm => ht t (used.subset (List.mem_cons_of_mem _ hm))
  | power level kind left right used ihl ihr | binary kind left right used ihl ihr
  | logical kind left right used ihl ihr =>
    refine List.forall_mem_append.2 ⟨ihl fun t hm => ?_, ihr fun t hm => ?_⟩
    · exact ht t (used.subset (List.mem_append_left _ hm))
    · exact ht t (used.subset (List.mem_append_right _ (List.mem_cons_of_mem _ hm)))

mutual
theorem IsStatement.forall_literals (hP : Admits P) {n : Nat} {tokens : List Token} {node : Node} :
    IsStatement n tokens node → (∀ t ∈ tokens, t.Suits P) → ∀ v ∈ node.literals, P v
  | .exprStmt h, ht | .printStmt h, ht => h.forall_literals hP ht
  | .ifThen _ condition thenBranch used, ht => by
    have hu := List.forall_mem_append.1 fun t hm => ht t (used.subset hm)
    have ha := IsStatement.forall_literals hP thenBranch hu.2
    simp only [literals, List.append_nil, List.forall_mem_append]
    exact ⟨condition.forall_literals hP hu.1, ha⟩
  | .ifElse _ _ condition thenBranch elseBranch used, ht => by
    have hu := List.forall_mem_append.1 fun t hm => ht t (used.subset hm)
    have hv := List.forall_mem_append.1 hu.2
    have ha := IsStatement.forall_literals hP thenBranch hv.1
    have hb := IsStatement.forall_literals hP elseBranch hv.2
    simp only [literals, List.forall_mem_append]
    exact ⟨condition.forall_literals hP hu.1, ha, hb⟩
  | .forStmt _ start finish inside used, ht => by
    have hu := List.forall_mem_append.1 (List.forall_mem_cons.1 fun t hm => ht t (used.subset hm)).2
    have hv := List.forall_mem_append.1 hu.2
    have hb := IsBody.forall_literals hP inside hv.2
    simp only [literals, List.forall_mem_append]
    exact ⟨start.forall_literals hP hu.1, finish.forall_literals hP hv.1, hb⟩
  | .whileStmt condition inside used, ht => by
    have hu := List.forall_mem_append.1 fun t hm => ht t (used.subset hm)
    have hb := IsBody.forall_literals hP inside hu.2
    simp only [literals, List.forall_mem_append]
    exact ⟨condition.forall_literals hP hu.1, hb⟩
theorem IsDeclaration.forall_literals (hP : Admits P) {n : Nat} {tokens : List Token} {node : Node} :
    IsDeclaration n tokens node → (∀ t ∈ tokens, t.Suits P) → ∀ v ∈ node.literals, P v
  | .varDecl _ _, _ => List.forall_mem_nil _
  | .initialized _ value used, ht =>
    value.forall_literals hP fun t hm => ht t (used.subset (List.mem_cons_of_mem _ hm))
  | .statement h, ht => IsStatement.forall_literals hP h ht
theorem IsBody.forall_literals (hP : Admits P) {n : Nat} {tokens : List Token} {body : List Node} :
    IsBody n tokens body → (∀ t ∈ tokens, t.Suits P) → ∀ v ∈ allLiterals body, P v
  | .nil, _ => List.forall_mem_nil _
  | .cons _ first others used, ht => by
    have hu := List.forall_mem_append.1 fun t hm => ht t (used.subset hm)
    have hd := IsDeclaration.forall_literals hP first hu.1
    have hs := IsBody.forall_literals hP others hu.2
    simp only [allLiterals, List.forall_mem_append]
    exact ⟨hd, hs⟩
end

end Node

/-- The sum, the difference or the product that a sign stands for. -/
def Operator.exactResult? (kind : TokenKind) (m n : Int) : Option Int :=
  match kind with
  | .plus => some (m + n)
  | .minus => some (m - n)
  | .asterisk => some (m * n)
  | _ => none

theorem Operator.applyBinary_of_exactResult? {o : Token} {m n r : Int} (h : exactResult? o.kind m n = some r) :
    applyBinary o (.int m) (.int n) = inRange o r := by
  unfold exactResult? at h
  split at h <;> cases h <;> simp_all [applyBinary, onNumbers, arithmetic]

open Run in
/-- A result that is too large is not computed: its operands are all that was done. -/
theorem Run.eval_of_tooLarge {settings : Settings} {depth : Nat} {l r : Node} {o : Token}
    {m n result : Int} {s s' s'' : State} (left : eval settings depth l s = .ok (.int m) s')
    (right : eval settings depth r s' = .ok (.int n) s'')
    (exact : Operator.exactResult? o.kind m n = some result) (large : ¬ Number.InRange result) :
    eval settings (depth + 1) (.binary l o r) s = .error (.fault ⟨some o, .numberTooLarge⟩) s'' := by
  refine (bind_of_ok left).trans ((bind_of_ok right).trans ?_)
  rw [Operator.applyBinary_of_exactResult? exact, Operator.inRange, if_neg large]
  rfl

/-- A part of a run with all its numbers in range: the variables at its beginning and its end, and
its value, whose text is then not too long. -/
structure Part.IsInRange (settings : Settings) (p : Part) : Prop where
  before : p.state.environment.Holds Value.NumberInRange
  after : ∀ v s, p.result settings = .ok v s → s.environment.Holds Value.NumberInRange
  stopped : ∀ stop s, p.result settings = .error stop s → s.environment.Holds Value.NumberInRange
  value : ∀ n s, p.result settings = .ok (some (.int n)) s →
    Number.InRange n ∧ (Nat.toDigits 10 n.natAbs).length ≤ Number.maxDigits

theorem Part.isInRange_of_ends {settings : Settings} {p : Part} {E : Stop → Prop}
    (before : p.state.environment.Holds Value.NumberInRange)
    (h : Run.Ends (·.Holds Value.NumberInRange) (fun v => ∀ w, v = some w → w.NumberInRange) E
      (p.result settings)) : p.IsInRange settings := by
  refine ⟨before, fun v s hr => ?_, fun stop s hr => ?_, fun n s hr => ?_⟩
  · rw [hr] at h
    exact h.state_of_ok
  · rw [hr] at h
    cases h
    assumption
  · rw [hr] at h
    have hn := h.value _ rfl n rfl
    exact ⟨hn, (Number.inRange_iff_length n).1 hn⟩

theorem literals_of_text (text : String) :
    ∀ node ∈ (Source.ofText text).program, ∀ v ∈ node.literals, v.NumberInRange := by
  intro node hm
  obtain ⟨n, h⟩ := isDeclaration_of_mem_program text node hm
  exact h.forall_literals admits_numberInRange fun t ht => (isLexed_of_mem ht).suits admits_numberInRange

theorem isInRange_of_reached {settings : Settings} {env : Environment}
    (h : env.Holds Value.NumberInRange) {text : String} {p : Part}
    (hr : Reached settings env (Source.ofText text).program p) : p.IsInRange settings := by
  have hi := isInvariant_of_text admits_numberInRange text
  obtain ⟨ht, hs⟩ := hi.reached hr (isDeclaration_of_mem_program text) h
  exact Part.isInRange_of_ends hs (hi.task settings ht _ hs)

/-- A number that an expression comes to is in range. -/
theorem number_inRange_of_reached {settings : Settings} {env : Environment}
    (h : env.Holds Value.NumberInRange) {text : String} {depth : Nat} {e : Node} {s s' : State}
    (hr : Reached settings env (Source.ofText text).program ⟨.eval depth e, s⟩) {n : Int}
    (hn : Run.eval settings depth e s = .ok (.int n) s') : Number.InRange n :=
  ((isInRange_of_reached h hr).value n s' (Run.bind_of_ok hn)).1

/-- In a text that is run with numbers in range, no number leaves the range: no literal, nothing in
the variables, nothing that is computed at any part of the run. A sum, a difference or a product
that would leave it ends the run with what its operands have done; a sign, a quotient and a power
cannot leave it. -/
theorem numbers_inRange (settings : Settings) {env : Environment}
    (h : env.Holds Value.NumberInRange) (text : String) :
    (∀ node ∈ (Source.ofText text).program, ∀ v ∈ node.literals, v.NumberInRange) ∧
      (∀ p, Reached settings env (Source.ofText text).program p → p.IsInRange settings) ∧
      (runSource settings env text).result.environment.Holds Value.NumberInRange ∧
      (∀ depth l o r s m s' n s'' result,
        Reached settings env (Source.ofText text).program ⟨.eval (depth + 1) (.binary l o r), s⟩ →
        Run.eval settings depth l s = .ok (.int m) s' →
        Run.eval settings depth r s' = .ok (.int n) s'' →
        Operator.exactResult? o.kind m n = some result → ¬ Number.InRange result →
        (runSource settings env text).result.stop = some (.fault ⟨some o, .numberTooLarge⟩) ∧
          FaultCause.message .numberTooLarge = "Number is too large." ∧
          (runSource settings env text).result.environment = s''.environment ∧
          (runSource settings env text).result.output = s''.output.toList) ∧
      ∀ m n, Number.InRange m → Number.InRange (-m) ∧
        (∀ result, Number.divide? m n = some result → Number.InRange result) ∧
        ∀ result, Number.power? m n = some result → Number.InRange result := by
  refine ⟨literals_of_text text, fun p hr => isInRange_of_reached h hr, ?_, ?_, ?_⟩
  · exact ((isInvariant_of_text admits_numberInRange text).interpret settings
      (isDeclaration_of_mem_program text) h).1
  · -- the fault of one operation is that of the whole run, since it was reached
    intro depth l o r s m s' n s'' result hr left right exact large
    have hf : Part.result settings ⟨.eval (depth + 1) (.binary l o r), s⟩ =
        .error (.fault ⟨some o, .numberTooLarge⟩) s'' :=
      Run.value_eq_error_iff.2 (Run.eval_of_tooLarge left right exact large)
    have hi := interpret_of_reached hr hf
    exact ⟨congrArg RunResult.stop hi, rfl, congrArg RunResult.environment hi,
      congrArg RunResult.output hi⟩
  · intro m n hm
    exact ⟨Number.inRange_neg hm, fun _ => Number.inRange_divide? hm, fun _ => Number.inRange_power?⟩

/-- The largest number, doubled. -/
theorem numbers_inRange_doubled :
    Environment.Holds Value.NumberInRange ⟨[(.str "x", .int (Number.limit - 1))]⟩ ∧
      ∀ p, Reached ⟨1000, 1000, 0⟩ ⟨[(.str "x", .int (Number.limit - 1))]⟩
        (Source.ofText "print x + x;").program p → p.IsInRange ⟨1000, 1000, 0⟩ := by
  have h : Environment.Holds Value.NumberInRange ⟨[(.str "x", .int (Number.limit - 1))]⟩ := by
    refine List.forall_mem_singleton.2 fun n hn => ?_
    rw [Value.data.injEq, Json.int.injEq] at hn
    have hl := Number.limit_pos
    rw [Number.InRange, ← hn]
    generalize Number.limit = limit at hl
    omega
  exact ⟨h, (numbers_inRange ⟨1000, 1000, 0⟩ h "print x + x;").2.1⟩

end LetLang
