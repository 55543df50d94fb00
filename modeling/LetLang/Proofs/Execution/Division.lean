import LetLang.Proofs.Execution.NumberRange

namespace LetLang

namespace Operator
variable {o : Token} {a b v : Value}

theorem applyBinary_asterisk (hk : o.kind = .asterisk) (m n : Int) :
    applyBinary o (.int m) (.int n) = inRange o (m * n) :=
  applyBinary_of_exactResult? (by rw [hk]; rfl)

theorem onNumbers_slash_eq_ok_iff (hk : o.kind = .slash) {m n : Int} :
    onNumbers o (.int m) (.int n) = .ok v ↔ n ≠ 0 ∧ v = .int (Number.divide m n) := by
  unfold onNumbers arithmetic
  rw [hk]
  dsimp only
  split
  · next q hq =>
    obtain ⟨hn, rfl⟩ := Number.divide?_eq_some_iff.1 hq
    simp [hn, eq_comm]
  · next hq =>
    have hn : n = 0 := by simpa [Number.divide?] using hq
    simp [hn, faultAt]

/-- A division comes to a value for numbers only, and for no divisor of zero. -/
theorem applyBinary_slash_eq_ok_iff (hk : o.kind = .slash) : applyBinary o a b = .ok v ↔
    ∃ m n, a = .int m ∧ b = .int n ∧ n ≠ 0 ∧ v = .int (Number.divide m n) := by
  have happly : applyBinary o a b = onNumbers o a b := by
    unfold applyBinary
    rw [hk]
  rw [happly]
  constructor
  · intro h
    unfold onNumbers at h
    split at h
    · next m n => exact ⟨m, n, rfl, rfl, (onNumbers_slash_eq_ok_iff hk).1 h⟩
    · cases h
  · rintro ⟨m, n, rfl, rfl, h⟩
    exact (onNumbers_slash_eq_ok_iff hk).2 h

end Operator

namespace Run
variable {settings : Settings} {depth : Nat} {l r : Node} {o : Token} {v : Value} {s s' : State}

/-- The values of two operands, the left one first. -/
def operands (settings : Settings) (depth : Nat) (l r : Node) : Run (Value × Value) := do
  let a ← eval settings depth l
  let b ← eval settings depth r
  pure (a, b)

theorem operands_eq_ok_iff {a b : Value} : operands settings depth l r s = .ok (a, b) s' ↔
    ∃ t, eval settings depth l s = .ok a t ∧ eval settings depth r t = .ok b s' := by
  constructor
  · intro h
    obtain ⟨a', t, ha, h⟩ := bind_eq_ok h
    obtain ⟨b', t', hb, h⟩ := bind_eq_ok h
    cases h
    exact ⟨t, ha, hb⟩
  · rintro ⟨t, ha, hb⟩
    exact (bind_of_ok ha).trans (bind_of_ok hb)

theorem eval_binary_eq_ok_iff : eval settings (depth + 1) (.binary l o r) s = .ok v s' ↔
    ∃ a b, operands settings depth l r s = .ok (a, b) s' ∧ Operator.applyBinary o a b = .ok v := by
  simp only [operands_eq_ok_iff]
  constructor
  · intro h
    obtain ⟨a, t, ha, h⟩ := bind_eq_ok h
    obtain ⟨b, t', hb, h⟩ := bind_eq_ok h
    cases hv : Operator.applyBinary o a b with
    | ok w =>
      rw [hv] at h
      cases h
      exact ⟨a, b, ⟨t, ha, hb⟩, hv⟩
    | error stop =>
      rw [hv] at h
      cases h
  · rintro ⟨a, b, ⟨t, ha, hb⟩, hv⟩
    refine (bind_of_ok ha).trans ((bind_of_ok hb).trans ?_)
    rw [hv]
    rfl

theorem eval_slash_eq_ok_iff (hk : o.kind = .slash) :
    eval settings (depth + 1) (.binary l o r) s = .ok v s' ↔
      ∃ a b, operands settings depth l r s = .ok (.int a, .int b) s' ∧ b ≠ 0 ∧
        v = .int (Number.divide a b) := by
  simp only [eval_binary_eq_ok_iff, Operator.applyBinary_slash_eq_ok_iff hk]
  constructor
  · rintro ⟨_, _, h, a, b, rfl, rfl, hb, hv⟩
    exact ⟨a, b, h, hb, hv⟩
  · rintro ⟨a, b, h, hb, hv⟩
    exact ⟨_, _, h, a, b, rfl, rfl, hb, hv⟩

/-- Wherever the quotient of the two numbers is multiplied by the divisor, there is a product. -/
def MultipliesBack (a b : Int) : Prop :=
  ∀ settings depth e o f s s', o.kind = .asterisk →
    operands settings depth e f s = .ok (.int (Number.divide a b), .int b) s' →
    eval settings (depth + 1) (.binary e o f) s = .ok (.int (Number.divide a b * b)) s'

theorem multipliesBack_of_inRange {a : Int} (ha : Number.InRange a) (b : Int) :
    MultipliesBack a b := by
  intro settings depth e o f s s' hk h
  have hr := Number.inRange_of_natAbs_le ha (Number.natAbs_divide_mul_le a b)
  refine eval_binary_eq_ok_iff.2 ⟨_, _, h, ?_⟩
  rw [Operator.applyBinary_asterisk hk, Operator.inRange, if_pos hr]

end Run

/-- The numbers that an operator is applied to are in range. -/
theorem operands_inRange_of_reached {settings : Settings} {env : Environment}
    (h : env.Holds Value.NumberInRange) {text : String} {depth : Nat} {l r : Node} {o : Token}
    {s s' : State}
    (hr : Reached settings env (Source.ofText text).program ⟨.eval (depth + 1) (.binary l o r), s⟩)
    {a b : Int} (ho : Run.operands settings depth l r s = .ok (.int a, .int b) s') :
    Number.InRange a ∧ Number.InRange b := by
  obtain ⟨t, ha, hb⟩ := Run.operands_eq_ok_iff.1 ho
  exact ⟨number_inRange_of_reached h (hr.tail .left) ha,
    number_inRange_of_reached h (hr.tail (.right ha)) hb⟩

/-- The quotient of two numbers is the only integer that leaves a remainder smaller than the
divisor, with the sign of the dividend if it is not zero. So neither the quotient nor its product
with the divisor is larger than the dividend, and the quotient changes its sign with either number.
An expression with a slash comes to a value just when its operands are numbers and the divisor is
not zero, and the value is the quotient. If the dividend is in range, that quotient can be
multiplied by the divisor without a fault; in a text that is run with numbers in range, it always
is. -/
theorem division_truncates :
    (∀ a b : Int, b ≠ 0 →
      (∀ q, Number.IsQuotient a b q ↔ q = Number.divide a b) ∧
      (Number.divide a b).natAbs ≤ a.natAbs ∧
      Number.divide (-a) b = -Number.divide a b ∧
      Number.divide a (-b) = -Number.divide a b ∧
      (Number.divide a b * b).natAbs ≤ a.natAbs) ∧
    (∀ settings depth l o r s v s', o.kind = .slash →
      (Run.eval settings (depth + 1) (.binary l o r) s = .ok v s' ↔
        ∃ a b, Run.operands settings depth l r s = .ok (.int a, .int b) s' ∧ b ≠ 0 ∧
          v = .int (Number.divide a b))) ∧
    (∀ a b, Number.InRange a → Run.MultipliesBack a b) ∧
    ∀ settings env text depth l o r s v s', env.Holds Value.NumberInRange →
      Reached settings env (Source.ofText text).program ⟨.eval (depth + 1) (.binary l o r), s⟩ →
      o.kind = .slash → Run.eval settings (depth + 1) (.binary l o r) s = .ok v s' →
      ∃ a b, Run.operands settings depth l r s = .ok (.int a, .int b) s' ∧
        v = .int (Number.divide a b) ∧ Number.InRange a ∧ Number.InRange b ∧
        Run.MultipliesBack a b := by
  refine ⟨?_, ?_, ?_, ?_⟩
  · intro a b hb
    exact ⟨fun _ => Number.isQuotient_iff hb, Number.natAbs_divide_le a b, Number.neg_divide a b,
      Number.divide_neg a b, Number.natAbs_divide_mul_le a b⟩
  · intro settings depth l o r s v s' hk
    exact Run.eval_slash_eq_ok_iff hk
  · intro a b ha
    exact Run.multipliesBack_of_inRange ha b
  · intro settings env text depth l o r s v s' henv hr hk hv
    obtain ⟨a, b, ho, -, hq⟩ := (Run.eval_slash_eq_ok_iff hk).1 hv
    obtain ⟨ha, hb⟩ := operands_inRange_of_reached henv hr ho
    exact ⟨a, b, ho, hq, ha, hb, Run.multipliesBack_of_inRange ha b⟩

/-- Seven negated and divided by two. A quotient rounded down would come back to eight. -/
theorem division_truncates_negative :
    let b : Node := .var ⟨.identifier, .str "b", .str "b", 1⟩
    let quotient : Node :=
      .binary (.var ⟨.identifier, .str "a", .str "a", 1⟩) ⟨.slash, .str "/", .null, 1⟩ b
    let product : Node := .binary (.grouping quotient) ⟨.asterisk, .str "*", .null, 1⟩ b
    let program := (Source.ofText "print (a / b) * b;").program
    let env : Environment := ⟨[(.str "a", .int (-7)), (.str "b", .int 2)]⟩
    let s : State := ⟨env, #[], #[]⟩
    program = [.printStmt product] ∧
      env.Holds Value.NumberInRange ∧
      Reached ⟨10, 0, 0⟩ env program ⟨.eval 7 quotient, s⟩ ∧
      Number.IsQuotient (-7) 2 (-3) ∧
      Number.InRange (-7) ∧ Run.MultipliesBack (-7) 2 ∧
      Run.eval ⟨10, 0, 0⟩ 7 quotient s = .ok (.int (-3)) s ∧
      Run.eval ⟨10, 0, 0⟩ 9 product s = .ok (.int (-6)) s := by
  intro b quotient product program env s
  obtain ⟨hnumbers, hslash, hback, htext⟩ := division_truncates
  have hprogram : program = [.printStmt product] := by decide +kernel
  have hseven : Number.InRange (-7) := (Number.inRange_iff_length _).2 (by decide)
  have henv : env.Holds Value.NumberInRange := by
    have htwo : Number.InRange 2 := (Number.inRange_iff_length _).2 (by decide)
    refine List.forall_mem_cons.2 ⟨?_, List.forall_mem_singleton.2 ?_⟩
    · rintro _ ⟨⟩
      exact hseven
    · rintro _ ⟨⟩
      exact htwo
  have hr : Reached ⟨10, 0, 0⟩ env program ⟨.eval 7 quotient, s⟩ := by
    rw [hprogram]
    exact (((Relation.ReflTransGen.single (.statement rfl)).tail .printed).tail .left).tail .grouping
  have hquotient : Run.eval ⟨10, 0, 0⟩ 7 quotient s = .ok (.int (-3)) s :=
    (hslash ⟨10, 0, 0⟩ 6 _ _ _ s _ s rfl).2 ⟨-7, 2, rfl, by decide, rfl⟩
  obtain ⟨m, n, ho, -, -, -, hproduct⟩ := htext ⟨10, 0, 0⟩ env _ 6 _ _ _ s _ s henv hr rfl hquotient
  cases ho
  exact ⟨hprogram, henv, hr, ((hnumbers (-7) 2 (by decide)).1 (-3)).2 (by decide), hseven,
    hback (-7) 2 hseven, hquotient, hproduct ⟨10, 0, 0⟩ 8 _ _ _ s s rfl rfl⟩

end LetLang
