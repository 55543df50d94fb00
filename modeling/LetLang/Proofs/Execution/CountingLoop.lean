import LetLang.Proofs.Execution.Hidden
import LetLang.Proofs.Execution.Soundness

namespace LetLang

open Semantics

/-- A token of some kind with some text. -/
def Token.Is (kind : TokenKind) (text : String) (t : Token) : Prop :=
  t.kind = kind ∧ t.lexeme = .str text

/-- The tokens that a loop over a range is written out with, besides those of its own. Where they
stand makes no difference. -/
structure Counting (counter limit : String) where
  declared : Token
  limitDeclared : Token
  tested : Token
  less : Token
  limitTested : Token
  assigned : Token
  read : Token
  plus : Token
  declared_is : declared.Is .identifier counter
  limitDeclared_is : limitDeclared.Is .identifier limit
  tested_is : tested.Is .identifier counter
  less_is : less.Is .less "<"
  limitTested_is : limitTested.Is .identifier limit
  assigned_is : assigned.Is .identifier counter
  read_is : read.Is .identifier counter
  plus_is : plus.Is .plus "+"
  distinct : counter ≠ limit

namespace Counting
variable {k m : String} (c : Counting k m)

/-- `k < m` -/
def test : Node := .binary (.var c.tested) c.less (.var c.limitTested)

/-- `k = k + 1;` -/
def increment : Node :=
  .exprStmt (.assign c.assigned (.binary (.var c.read) c.plus (.literal (.int 1))))

/-- `let k = a; let m = b; while k < m begin body k = k + 1; end` -/
def written (a b : Node) (body : List Node) : List Node :=
  [.varDecl c.declared a, .varDecl c.limitDeclared b,
    .whileStmt c.test (body ++ [c.increment])]

end Counting

namespace Semantics

section
variable {xs ys : List Node} {node : Node} {S S' S'' : Store} {r : Except Fault Unit} {f : Fault}

theorem Performs.block_append (h : Performs (.block xs) S (.ok ()) S')
    (h' : Performs (.block ys) S' r S'') : Performs (.block (xs ++ ys)) S r S'' := by
  induction xs generalizing S with
  | nil =>
    cases h with
    | blockEnd => exact h'
  | cons node nodes ih =>
    cases h with
    | blockNext first others => exact .blockNext first (ih others)

theorem Performs.block_append_fault (h : Performs (.block xs) S (.error f) S') :
    Performs (.block (xs ++ ys)) S (.error f) S' := by
  induction xs generalizing S with
  | nil => cases h
  | cons node nodes ih =>
    cases h with
    | blockNext first others => exact .blockNext first (ih others)
    | blockFault first => exact .blockFault first

theorem Performs.of_block_append (h : Performs (.block (xs ++ ys)) S r S'') :
    (∃ S', Performs (.block xs) S (.ok ()) S' ∧ Performs (.block ys) S' r S'') ∨
      ∃ f, r = .error f ∧ Performs (.block xs) S (.error f) S'' := by
  induction xs generalizing S with
  | nil => exact .inl ⟨S, .blockEnd, h⟩
  | cons node nodes ih =>
    cases h with
    | blockNext first others =>
      obtain ⟨S', h, h'⟩ | ⟨f, rfl, h⟩ := ih others
      · exact .inl ⟨S', .blockNext first h, h'⟩
      · exact .inr ⟨f, rfl, .blockNext first h⟩
    | blockFault first => exact .inr ⟨_, rfl, .blockFault first⟩

theorem performs_singleton_iff :
    Performs (.block [node]) S r S' ↔ Performs (.statement node) S r S' := by
  constructor
  · intro h
    cases h with
    | blockNext first others =>
      cases others with
      | blockEnd => exact first
    | blockFault first => exact first
  · intro h
    cases r with
    | ok => exact .blockNext h .blockEnd
    | error f => exact .blockFault h

end

/-- What comes of two values is what the operator makes of them. -/
theorem Binary.eq_ok {o : Token} {a b v : Value} {r : Except Fault Value} (h : Binary o a b r)
    (hv : Operator.applyBinary o a b = .ok v) : r = .ok v := by
  obtain hr | ⟨_, hr⟩ := applyBinary_of_binary h
  · rw [hv] at hr
    cases r with
    | ok w => exact congrArg _ (Except.ok.inj hr).symm
    | error f => cases hr
  · rw [hv] at hr
    cases hr

end Semantics

namespace Counting
variable {k m : String} (c : Counting k m)

/-- The two names. -/
abbrev hidden (_ : Counting k m) : List Json := [.str k, .str m]

/-- The counter and the limit have these values. -/
structure At (_ : Counting k m) (i j : Int) (env : Environment) : Prop where
  counter : env.get? (.str k) = some (.int i)
  limit : env.get? (.str m) = some (.int j)

variable {c} {i j : Int} {env env' : Environment}

theorem At.keeps (h : c.At i j env) (hk : env.Keeps c.hidden env') : c.At i j env' where
  counter := hk (.str k) List.mem_cons_self ▸ h.counter
  limit := hk (.str m) (List.mem_cons_of_mem _ List.mem_cons_self) ▸ h.limit

theorem At.next (h : c.At i j env) (n : Int) : c.At n j (env.define (.str k) (.int n)) where
  counter := by rw [Environment.get?_define, if_pos rfl]
  limit := by
    rw [Environment.get?_define, if_neg, h.limit]
    exact fun he => c.distinct (Json.str.inj he).symm

variable (c) in
/-- Counting on one side only makes no difference but in the counter. -/
theorem alike_counter {other : Environment} (h : env.Alike c.hidden other) (v : Value) :
    env.Alike c.hidden (other.define (.str k) v) :=
  h.define_hidden List.mem_cons_self v

variable (c) in
theorem alike_limit {other : Environment} (h : env.Alike c.hidden other) (v : Value) :
    env.Alike c.hidden (other.define (.str m) v) :=
  h.define_hidden (List.mem_cons_of_mem _ List.mem_cons_self) v

theorem At.get?_counter (h : c.At i j env) {t : Token} (ht : t.Is .identifier k) :
    env.get? t.lexeme = some (.int i) := ht.2 ▸ h.counter

theorem At.get?_limit (h : c.At i j env) {t : Token} (ht : t.Is .identifier m) :
    env.get? t.lexeme = some (.int j) := ht.2 ▸ h.limit

/-- A variable that has a value is read. -/
theorem evaluates_var {t : Token} {v : Value} {r : Except Fault Value}
    (hv : env.get? t.lexeme = some v) (h : Evaluates (.var t) env r env') :
    r = .ok v ∧ env' = env := by
  cases h with
  | var defined =>
    rw [hv] at defined
    cases defined
    exact ⟨rfl, rfl⟩
  | undefined undefined =>
    rw [hv] at undefined
    cases undefined

theorem evaluates_test_iff (h : c.At i j env) {r : Except Fault Value} :
    Evaluates c.test env r env' ↔ r = .ok (.bool (decide (i < j))) ∧ env' = env := by
  have hk := h.get?_counter c.tested_is
  have hm := h.get?_limit c.limitTested_is
  constructor
  · intro he
    cases he with
    | binary left right operation =>
      obtain ⟨⟨⟩, rfl⟩ := evaluates_var hk left
      obtain ⟨⟨⟩, rfl⟩ := evaluates_var hm right
      refine ⟨operation.eq_ok ?_, rfl⟩
      simp [Operator.applyBinary, Operator.onNumbers, Operator.arithmetic, c.less_is.1]
    | leftFault left => cases (evaluates_var hk left).1
    | rightFault left right =>
      obtain ⟨⟨⟩, rfl⟩ := evaluates_var hk left
      cases (evaluates_var hm right).1
  · rintro ⟨rfl, rfl⟩
    exact .binary (.var hk) (.var hm) (.less c.less_is.1)

theorem performs_increment_iff {T T' : Store} (h : c.At i j T.environment)
    (hi : Number.InRange (i + 1)) {r : Except Fault Unit} :
    Performs (.block [c.increment]) T r T' ↔
      r = .ok () ∧ T' = ⟨T.environment.define (.str k) (.int (i + 1)), T.output⟩ := by
  have hk := h.get?_counter c.read_is
  have hc : T.environment.contains c.assigned.lexeme = true := by
    rw [Environment.contains, h.get?_counter c.assigned_is]
    rfl
  have happly : Operator.applyBinary c.plus (.int i) (.int 1) = .ok (.int (i + 1)) := by
    simp [Operator.applyBinary, Operator.onNumbers, Operator.arithmetic, Operator.inRange,
      c.plus_is.1, hi]
  -- The sum cannot fault, since the next number is in range.
  have hsum {r : Except Fault Value} {env' : Environment}
      (he : Evaluates (.binary (.var c.read) c.plus (.literal (.int 1))) T.environment r env') :
      r = .ok (.int (i + 1)) ∧ env' = T.environment := by
    cases he with
    | binary left right operation =>
      obtain ⟨⟨⟩, rfl⟩ := evaluates_var hk left
      cases right
      exact ⟨operation.eq_ok happly, rfl⟩
    | leftFault left => cases (evaluates_var hk left).1
    | rightFault left right => cases right
  rw [performs_singleton_iff, ← c.assigned_is.2]
  constructor
  · intro hp
    cases hp with
    | exprStmt value =>
      cases value with
      | assign value declared =>
        obtain ⟨⟨⟩, rfl⟩ := hsum value
        exact ⟨rfl, rfl⟩
    -- No fault is left: the counter is a variable, and so may be assigned to.
    | exprFault value =>
      cases value with
      | assignUndeclared value undeclared =>
        obtain ⟨-, rfl⟩ := hsum value
        rw [hc] at undeclared
        cases undeclared
      | assignFault value => cases (hsum value).1
  · rintro ⟨rfl, rfl⟩
    have hr : Operator.exactResult? c.plus.kind i 1 = some (i + 1) := by
      rw [c.plus_is.1]
      rfl
    exact .exprStmt (.assign (.binary (.var hk) .literal (.exact hr hi)) hc)

theorem inRange_succ {i j : Int} (hi : Number.InRange i) (hj : Number.InRange j) (h : i < j) :
    Number.InRange (i + 1) := by
  unfold Number.InRange at *
  omega

variable {body : List Node} {r : Except Fault Unit} {S S' T T' : Store} {count : Nat}

/-- The loop with the condition does what so many passes do. -/
theorem performs_loop (ha : Avoids c.hidden (Node.allUses body)) (hj : Number.InRange j)
    (h : Performs (.times count body) S r S') (hi : Number.InRange i)
    (hc : (j - i).toNat = count) (alike : S.Alike c.hidden T) (hat : c.At i j T.environment) :
    ∃ T', Performs (.loop c.test (body ++ [c.increment])) T r T' ∧ S'.Alike c.hidden T' := by
  -- On the passes left. The body keeps the counter and the limit, whose names it avoids, so at the
  -- end of a pass only the increment has changed the counter.
  induction count generalizing i S T with
  | zero =>
    have ht := (evaluates_test_iff hat).2 ⟨rfl, rfl⟩
    cases h with
    | timesEnd => exact ⟨T, .loopEnd ht (decide_eq_false (by omega)), alike⟩
  | succ count ih =>
    have ht := (evaluates_test_iff hat).2 ⟨rfl, rfl⟩
    have hlt : i < j := by omega
    have truthy : (Value.bool (decide (i < j))).isTruthy = true := decide_eq_true hlt
    cases h with
    | timesFault pass =>
      obtain ⟨T', hp, alike⟩ := pass.alike ha alike
      exact ⟨T', .passFault ht truthy hp.block_append_fault, alike⟩
    | timesNext pass again =>
      obtain ⟨T₁, hp, alike⟩ := pass.alike ha alike
      have hat₁ := hat.keeps (hp.keeps ha)
      have hinc := (performs_increment_iff hat₁ (inRange_succ hi hj hlt)).2 ⟨rfl, rfl⟩
      have alike₁ := c.alike_counter alike.environment (.int (i + 1))
      obtain ⟨T', hl, alike⟩ := ih again (inRange_succ hi hj hlt) (by omega)
        (T := ⟨_, T₁.output⟩) ⟨alike₁, alike.output⟩ (hat₁.next (i + 1))
      exact ⟨T', .loopNext ht truthy (hp.block_append hinc) hl, alike⟩

/-- So many passes do what the loop with the condition does. -/
theorem performs_times (ha : Avoids c.hidden (Node.allUses body)) (hj : Number.InRange j)
    (h : Performs (.loop c.test (body ++ [c.increment])) T r T') (hi : Number.InRange i)
    (hc : (j - i).toNat = count) (alike : T.Alike c.hidden S) (hat : c.At i j T.environment) :
    ∃ S', Performs (.times count body) S r S' ∧ T'.Alike c.hidden S' := by
  induction count generalizing i S T with
  | zero =>
    cases h with
    | loopEnd condition falsy =>
      obtain ⟨-, rfl⟩ := (evaluates_test_iff hat).1 condition
      exact ⟨S, .timesEnd, alike⟩
    | loopNext condition truthy | passFault condition truthy =>
      obtain ⟨⟨⟩, -⟩ := (evaluates_test_iff hat).1 condition
      have hlt : i < j := of_decide_eq_true truthy
      omega
    | loopFault condition => cases ((evaluates_test_iff hat).1 condition).1
  | succ count ih =>
    have hlt : i < j := by omega
    cases h with
    | loopEnd condition falsy =>
      obtain ⟨⟨⟩, -⟩ := (evaluates_test_iff hat).1 condition
      exact absurd hlt (of_decide_eq_false falsy)
    | loopFault condition => cases ((evaluates_test_iff hat).1 condition).1
    | loopNext condition truthy pass again =>
      obtain ⟨⟨⟩, rfl⟩ := (evaluates_test_iff hat).1 condition
      obtain ⟨T₁, hp, hinc⟩ | ⟨f, ⟨⟩, -⟩ := pass.of_block_append
      have hat₁ := hat.keeps (hp.keeps ha)
      obtain ⟨-, rfl⟩ := (performs_increment_iff hat₁ (inRange_succ hi hj hlt)).1 hinc
      obtain ⟨S₁, hp, alike⟩ := hp.alike ha alike
      have alike₁ := (c.alike_counter alike.environment.symm (.int (i + 1))).symm
      obtain ⟨S', ht, alike⟩ := ih again (inRange_succ hi hj hlt) (by omega)
        (S := S₁) ⟨alike₁, alike.output⟩ (hat₁.next (i + 1))
      exact ⟨S', .timesNext hp ht, alike⟩
    | passFault condition truthy pass =>
      obtain ⟨⟨⟩, rfl⟩ := (evaluates_test_iff hat).1 condition
      obtain ⟨T₁, hp, hinc⟩ | ⟨f, ⟨⟩, hp⟩ := pass.of_block_append
      · -- the body has been done, so it is the counter that would fault
        have hat₁ := hat.keeps (hp.keeps ha)
        cases ((performs_increment_iff hat₁ (inRange_succ hi hj hlt)).1 hinc).1
      · obtain ⟨S', hp, alike⟩ := hp.alike ha alike
        exact ⟨S', .timesFault hp, alike⟩

/-- If the two ends have values, these are numbers of the language. -/
def RangesOver (a b : Node) (env : Environment) : Prop :=
  ∀ v w env₁ env₂, Evaluates a env (.ok v) env₁ → Evaluates b env₁ (.ok w) env₂ →
    ∃ i j, v = .int i ∧ w = .int j ∧ Number.InRange i ∧ Number.InRange j

variable {kw : Token} {a b : Node}

/-- The second end is evaluated with the counter defined, which makes no difference to it. -/
theorem at_of_evaluates {env₁ env₂ : Environment} {r : Except Fault Value}
    (hb : Avoids c.hidden b.uses) (h : Evaluates b (env₁.define (.str k) (.int i)) r env₂)
    (j : Int) : c.At i j (env₂.define (.str m) (.int j)) where
  counter := by
    have hne : (Json.str k).meaning ≠ (Json.str m).meaning :=
      fun he => c.distinct (Json.str.inj he)
    rw [Environment.get?_define, if_neg hne, ← h.keeps hb (.str k) List.mem_cons_self,
      Environment.get?_define, if_pos rfl]
  limit := by rw [Environment.get?_define, if_pos rfl]

variable (c) in
/-- The written out loop does what the loop over the range does. -/
theorem performs_written (hb : Avoids c.hidden b.uses)
    (hbody : Avoids c.hidden (Node.allUses body)) (pa : a ≠ .absent) (pb : b ≠ .absent)
    (hr : RangesOver a b S.environment) (h : Performs (.statement (.forStmt kw a b body)) S r S') :
    ∃ T', Performs (.block (c.written a b body)) S r T' ∧ S'.Alike c.hidden T' := by
  have hk := c.declared_is.2
  have hm := c.limitDeclared_is.2
  -- the second end, with the counter defined
  have hsecond (v : Value) {r : Except Fault Value} {env₁ env₂ : Environment}
      (finish : Evaluates b env₁ r env₂) :
      ∃ env₃, Evaluates b (env₁.define (.str k) v) r env₃ ∧ env₂.Alike c.hidden env₃ :=
    finish.alike hb (c.alike_counter (.refl env₁) v)
  cases h with
  | startFault start => exact ⟨_, .blockFault (.initializerFault pa start), .refl _, rfl⟩
  | @finishFault _ _ _ _ v _ _ _ _ start finish =>
    obtain ⟨env₃, hf, alike⟩ := hsecond v finish
    rw [← hk] at hf
    exact ⟨_, .blockNext (.initialized pa start) (.blockFault (.initializerFault pb hf)),
      alike, rfl⟩
  | notNumbers start finish range =>
    obtain ⟨i, j, hi, hj, -⟩ := hr _ _ _ _ start finish
    exact absurd ⟨hi, hj⟩ (range i j)
  | @forStmt _ _ _ _ i j _ _ _ _ _ start finish passes =>
    obtain ⟨_, _, ⟨⟩, ⟨⟩, hi, hj⟩ := hr _ _ _ _ start finish
    obtain ⟨env₃, hf, alike⟩ := hsecond (.int i) finish
    have alike₁ := c.alike_limit alike (.int j)
    obtain ⟨T', hl, alike⟩ := performs_loop hbody hj passes hi rfl
      (T := ⟨env₃.define (.str m) (.int j), S.output⟩) ⟨alike₁, rfl⟩ (at_of_evaluates hb hf j)
    rw [← hk] at hf
    rw [← hm] at hl
    exact ⟨T', .blockNext (.initialized pa start) (.blockNext (.initialized pb hf)
      (performs_singleton_iff.2 (.whileStmt hl))), alike⟩

/-- The loop over the range does what the written out loop does. -/
theorem performs_forStmt (hb : Avoids c.hidden b.uses)
    (hbody : Avoids c.hidden (Node.allUses body)) (pa : a ≠ .absent) (pb : b ≠ .absent)
    (hr : RangesOver a b S.environment) (h : Performs (.block (c.written a b body)) S r T') :
    ∃ S', Performs (.statement (.forStmt kw a b body)) S r S' ∧ T'.Alike c.hidden S' := by
  have hk := c.declared_is.2
  have hm := c.limitDeclared_is.2
  -- the second end, without the counter
  have hsecond {v : Value} {r : Except Fault Value} {env₁ env₂ : Environment}
      (finish : Evaluates b (env₁.define (.str k) v) r env₂) :
      ∃ env₃, Evaluates b env₁ r env₃ ∧ env₂.Alike c.hidden env₃ :=
    finish.alike hb (c.alike_counter (.refl env₁) v).symm
  cases h with
  | blockFault first =>
    cases first with
    | initializerFault present start => exact ⟨_, .startFault start, .refl _, rfl⟩
  | blockNext first others =>
    cases first with
    | varDecl => exact absurd rfl pa
    | initialized present start =>
      rw [hk] at others
      cases others with
      | blockFault second =>
        cases second with
        | initializerFault present finish =>
          obtain ⟨env₃, hf, alike⟩ := hsecond finish
          exact ⟨_, .finishFault start hf, alike, rfl⟩
      | blockNext second others =>
        cases second with
        | varDecl => exact absurd rfl pb
        | initialized present finish =>
          obtain ⟨env₃, hf, alike⟩ := hsecond finish
          obtain ⟨i, j, rfl, rfl, hi, hj⟩ := hr _ _ _ _ start hf
          rw [hm] at others
          cases performs_singleton_iff.1 others with
          | whileStmt loop =>
            have alike₁ := (c.alike_limit alike.symm (.int j)).symm
            obtain ⟨S', ht, alike⟩ := performs_times hbody hj loop hi rfl
              (S := ⟨env₃, S.output⟩) ⟨alike₁, rfl⟩ (at_of_evaluates hb finish j)
            exact ⟨S', .forStmt start hf ht, alike⟩

end Counting

end LetLang
