import LetLang.Execution.Environment
import LetLang.Execution.Operator
import LetLang.Proofs.Number.Bounds
import LetLang.Proofs.Parsing.Shape

namespace LetLang

/-- Nil, the truth values, the strings and the numbers in range. -/
def Value.IsRuntime : Value → Prop
  | .nil | .bool _ | .str _ => True
  | .int n => Number.InRange n
  | _ => False

/-- In range if it is a number. -/
def Value.NumberInRange (v : Value) : Prop := ∀ n, v = .int n → Number.InRange n

/-- A class that has all runtime values in it, and no number out of range. -/
structure Admits (P : Value → Prop) : Prop where
  runtime : ∀ {v}, v.IsRuntime → P v
  inRange : ∀ {n}, P (.int n) → Number.InRange n

section
variable {P : Value → Prop} (h : Admits P)
include h

theorem Admits.nil : P .nil := @Admits.runtime P h .nil trivial

theorem Admits.bool (b : Bool) : P (.bool b) := @Admits.runtime P h (.bool b) trivial

theorem Admits.str (s : String) : P (.str s) := @Admits.runtime P h (.str s) trivial

theorem Admits.int {n : Int} (hn : Number.InRange n) : P (.int n) := @Admits.runtime P h (.int n) hn

end

theorem admits_isRuntime : Admits Value.IsRuntime := ⟨id, id⟩

theorem admits_numberInRange : Admits Value.NumberInRange := by
  refine ⟨?_, fun h => h _ rfl⟩
  rintro _ h n rfl
  exact h

theorem Value.IsRuntime.isSome_kind? {v : Value} (h : v.IsRuntime) : v.kind?.isSome = true := by
  unfold Value.IsRuntime at h
  split at h <;> first | rfl | exact h.elim

theorem Value.kind_eq_error {a v : Value} (h : a.kind = .error v) : v.kind? = none ∧ v = a := by
  unfold Value.kind at h
  split at h
  · cases h
  · next hk =>
    cases h
    exact ⟨hk, rfl⟩

theorem Value.of_equal_error {a b v : Value} (h : a.equal b = .error v) :
    v.kind? = none ∧ (v = a ∨ v = b) := by
  unfold Value.equal at h
  split at h
  · cases h
  cases ha : a.kind with
  | error w =>
    rw [ha] at h
    cases h
    obtain ⟨hv, rfl⟩ := Value.kind_eq_error ha
    exact ⟨hv, .inl rfl⟩
  | ok k =>
    cases hb : b.kind with
    | error w =>
      rw [ha, hb] at h
      cases h
      obtain ⟨hv, rfl⟩ := Value.kind_eq_error hb
      exact ⟨hv, .inr rfl⟩
    | ok k' =>
      rw [ha, hb] at h
      cases h

/-- All values of the variables are in a class. -/
def Environment.Holds (P : Value → Prop) (env : Environment) : Prop :=
  ∀ binding ∈ env.bindings, P binding.2

namespace Environment
variable {P : Value → Prop}

theorem of_valueIn {bindings : List (Json × Value)} (h : ∀ binding ∈ bindings, P binding.2)
    {name : Json} {v : Value} (hv : valueIn name bindings = some v) : P v := by
  induction bindings with
  | nil => cases hv
  | cons binding bindings ih =>
    rw [List.forall_mem_cons] at h
    unfold valueIn at hv
    split at hv
    · cases hv
      exact h.1
    · exact ih h.2 hv

theorem Holds.get? {env : Environment} (h : env.Holds P) {name : Json} {v : Value}
    (hv : env.get? name = some v) : P v :=
  of_valueIn h hv

theorem forall_mem_setIn {bindings : List (Json × Value)} (h : ∀ binding ∈ bindings, P binding.2)
    (name : Json) {v : Value} (hv : P v) : ∀ binding ∈ setIn name v bindings, P binding.2 := by
  induction bindings with
  | nil => exact List.forall_mem_singleton.2 hv
  | cons binding bindings ih =>
    rw [List.forall_mem_cons] at h
    unfold setIn
    split
    · exact List.forall_mem_cons.2 ⟨hv, h.2⟩
    · exact List.forall_mem_cons.2 ⟨h.1, ih h.2⟩

theorem Holds.define {env : Environment} (h : env.Holds P) (name : Json) {v : Value} (hv : P v) :
    (env.define name v).Holds P :=
  forall_mem_setIn h name hv

theorem Holds.assign? {env env' : Environment} (h : env.Holds P) {name : Json} {v : Value}
    (hv : P v) (ha : env.assign? name v = some env') : env'.Holds P := by
  unfold Environment.assign? at ha
  split at ha
  · cases ha
    exact h.define name hv
  · cases ha

end Environment

/-- What can go wrong while a token is at work. -/
def FaultCause.Concerns (t : Token) : FaultCause → Prop
  | .undefinedVariable name => name = t.text
  | .nestsTooDeeply | .unsupportedUnary _ | .unsupportedBinary _ => False
  | _ => True

/-- The stops of a program made of the tokens, with values of a class: a fault has a token, unless
it is about the nesting, and the only thing that breaks down is a comparison of values that have
no kind. -/
inductive Stop.IsExpected (tokens : List Token) (P : Value → Prop) : Stop → Prop
  | fault {t : Token} {cause : FaultCause} (token : t ∈ tokens) (concerns : cause.Concerns t) :
    IsExpected tokens P (.fault ⟨some t, cause⟩)
  | nesting {t? : Option Token} (token : ∀ t, t? = some t → t ∈ tokens) :
    IsExpected tokens P (.fault ⟨t?, .nestsTooDeeply⟩)
  | notAValue {v : Value} (admitted : P v) (kind : v.kind? = none) :
    IsExpected tokens P (.breakdown (.notAValue v))
  | tooDeep : IsExpected tokens P .tooDeep
  | tooLong : IsExpected tokens P .tooLong

/-- Runtime values have kinds, so nothing breaks down. -/
theorem Stop.IsExpected.ne_breakdown {tokens : List Token} {stop : Stop}
    (h : stop.IsExpected tokens Value.IsRuntime) (b : Breakdown) : stop ≠ .breakdown b := by
  rintro rfl
  cases h with
  | notAValue admitted kind =>
    have hk := admitted.isSome_kind?
    rw [kind] at hk
    cases hk

/-- What holds of a result, or else of the stop. -/
inductive Delivers {α : Type} (Q : α → Prop) (E : Stop → Prop) : Except Stop α → Prop
  | ok {a : α} (h : Q a) : Delivers Q E (.ok a)
  | error {stop : Stop} (h : E stop) : Delivers Q E (.error stop)

theorem Delivers.mono {α : Type} {Q R : α → Prop} {E F : Stop → Prop} {r : Except Stop α}
    (h : Delivers Q E r) (hq : ∀ a, Q a → R a) (he : ∀ stop, E stop → F stop) : Delivers R F r := by
  cases h with
  | ok h => exact .ok (hq _ h)
  | error h => exact .error (he _ h)

theorem Delivers.map {α β : Type} {Q : α → Prop} {R : β → Prop} {E : Stop → Prop}
    {r : Except Stop α} (h : Delivers Q E r) {f : α → β} (hf : ∀ a, R (f a)) :
    Delivers R E (r.map f) := by
  cases h with
  | ok => exact .ok (hf _)
  | error h => exact .error h

namespace Operator

/-- The operators that take two numbers and give a number or a truth value. -/
def numericKinds : List TokenKind :=
  [.plus, .minus, .asterisk, .slash, .caret, .greater, .greaterEqual, .less, .lessEqual]

theorem numeric_of_binary {kind : TokenKind} (h : kind = .caret ∨ kind ∈ Node.chainedKinds)
    (hc : kind ≠ .comma) (he : kind ≠ .equalEqual) (hn : kind ≠ .notEqual) :
    kind ∈ numericKinds := by
  simpa [Node.chainedKinds, numericKinds, hc, he, hn, or_left_comm, or_assoc, or_comm] using h

variable {P : Value → Prop} {tokens : List Token} {o : Token}

theorem delivers_faultAt {α : Type} {Q : α → Prop} {cause : FaultCause} (ho : o ∈ tokens)
    (hc : cause.Concerns o) : Delivers Q (Stop.IsExpected tokens P) (faultAt o cause) :=
  .error (.fault ho hc)

/-- Values are compared unless one of them has no kind. -/
theorem delivers_equal {a b : Value} (ha : P a) (hb : P b) :
    Delivers (fun _ => True) (Stop.IsExpected tokens P) (equal a b) := by
  unfold equal
  split
  · exact .ok trivial
  · next v h =>
    obtain ⟨hv, rfl | rfl⟩ := Value.of_equal_error h
    · exact .error (.notAValue ha hv)
    · exact .error (.notAValue hb hv)

variable (hP : Admits P) (ho : o ∈ tokens)
include hP ho

theorem delivers_inRange (n : Int) : Delivers P (Stop.IsExpected tokens P) (inRange o n) := by
  unfold inRange
  split
  · next h => exact .ok (hP.int h)
  · exact delivers_faultAt ho trivial

theorem delivers_applyUnary (hk : o.kind ∈ [.bang, .minus]) {a : Value} (ha : P a) :
    Delivers P (Stop.IsExpected tokens P) (applyUnary o a) := by
  unfold applyUnary
  split
  · exact .ok (hP.bool _)
  · exact .ok (hP.int (Number.inRange_neg (hP.inRange ha)))
  · exact delivers_faultAt ho trivial
  · simp_all

theorem delivers_arithmetic (hk : o.kind ∈ numericKinds) {m n : Int} (hm : Number.InRange m) :
    Delivers P (Stop.IsExpected tokens P) (arithmetic o m n) := by
  have hr : ∀ r, Number.power? m n = some r → Number.InRange r := fun _ => Number.inRange_power?
  unfold arithmetic
  -- nothing may be computed with a power while the cases are told apart
  generalize Number.power? m n = power, o.kind = kind at hr hk ⊢
  simp only [numericKinds, List.mem_cons, List.not_mem_nil, or_false] at hk
  obtain rfl | rfl | rfl | rfl | rfl | rfl | rfl | rfl | rfl := hk
  · exact delivers_inRange hP ho _
  · exact delivers_inRange hP ho _
  · exact delivers_inRange hP ho _
  · dsimp only
    split
    · next h => exact .ok (hP.int (Number.inRange_divide? hm h))
    · exact delivers_faultAt ho trivial
  · cases power with
    | some r => exact .ok (hP.int (hr r rfl))
    | none => exact delivers_faultAt ho trivial
  · exact .ok (hP.bool _)
  · exact .ok (hP.bool _)
  · exact .ok (hP.bool _)
  · exact .ok (hP.bool _)

theorem delivers_onNumbers (hk : o.kind ∈ numericKinds) {a b : Value} (ha : P a) :
    Delivers P (Stop.IsExpected tokens P) (onNumbers o a b) := by
  unfold onNumbers
  split
  · exact delivers_arithmetic hP ho hk (hP.inRange ha)
  · exact delivers_faultAt ho trivial

/-- Every result that is not an operand is a runtime value; an operator that was parsed fails with a
fault of its own. -/
theorem delivers_applyBinary (hk : o.kind = .caret ∨ o.kind ∈ Node.chainedKinds) {a b : Value}
    (ha : P a) (hb : P b) : Delivers P (Stop.IsExpected tokens P) (applyBinary o a b) := by
  unfold applyBinary
  split
  · exact .ok hb
  · exact (delivers_equal ha hb).map fun _ => hP.bool _
  · exact (delivers_equal ha hb).map fun _ => hP.bool _
  · split
    · exact .ok (hP.str _)
    · next hk' _ _ _ => exact delivers_onNumbers hP ho (by simp [hk', numericKinds]) ha
  · next hc he hn _ => exact delivers_onNumbers hP ho (numeric_of_binary hk hc he hn) ha

end Operator

end LetLang
