import LetLang.Proofs.Execution.Congruence

namespace LetLang

namespace Node

mutual
/-- The levels inside one another, of statements and then of an expression. A part that may be
missing has none when it is. -/
def height : Node → Nat
  | .absent | .literal _ | .var _ => 1
  | .grouping e | .unary _ e | .assign _ e | .exprStmt e | .printStmt e => e.height + 1
  | .binary l _ r | .logical l _ r => max l.height r.height + 1
  | .varDecl _ e => (if e = .absent then 0 else e.height) + 1
  | .ifStmt c a b => max c.height (max a.height (if b = .absent then 0 else b.height)) + 1
  | .forStmt _ a b body => max a.height (max b.height (bodyHeight body)) + 1
  | .whileStmt c body => max c.height (bodyHeight body) + 1
def bodyHeight : List Node → Nat
  | [] => 0
  | node :: nodes => max node.height (bodyHeight nodes)
end

theorem height_pos (node : Node) : 0 < node.height := by
  cases node <;> simp [height]

theorem height_le_bodyHeight {node : Node} {body : List Node} (h : node ∈ body) :
    node.height ≤ bodyHeight body := by
  induction body with
  | nil => cases h
  | cons first others ih =>
    rw [bodyHeight]
    obtain rfl | h := List.mem_cons.1 h
    · exact Nat.le_max_left _ _
    · exact Nat.le_trans (ih h) (Nat.le_max_right _ _)

end Node

/-- A stop that comes of what a program does, and not of how deep its trees are. -/
inductive Stop.IsOrdinary : Stop → Prop
  | fault {f : Fault} (cause : f.cause ≠ .nestsTooDeeply) : IsOrdinary (.fault f)
  | breakdown {b : Breakdown} : IsOrdinary (.breakdown b)
  | tooLong : IsOrdinary .tooLong

/-- A stop that comes of an operator and its operands, and neither of a variable nor of the
nesting. -/
inductive Stop.IsOfOperator : Stop → Prop
  | fault {t : Token} {cause : FaultCause} (named : ∀ name, cause ≠ .undefinedVariable name)
    (nesting : cause ≠ .nestsTooDeeply) : IsOfOperator (.fault ⟨some t, cause⟩)
  | breakdown {b : Breakdown} : IsOfOperator (.breakdown b)

theorem Stop.IsOfOperator.isOrdinary {stop : Stop} (h : stop.IsOfOperator) : stop.IsOrdinary := by
  cases h with
  | fault named nesting => exact .fault nesting
  | breakdown => exact .breakdown

namespace Operator

/-- A result, or a stop of an operator. -/
abbrev IsPlain {α : Type} (r : Except Stop α) : Prop :=
  Delivers (fun _ => True) Stop.IsOfOperator r

theorem isPlain_faultAt {α : Type} {o : Token} {cause : FaultCause}
    (hn : ∀ name, cause ≠ .undefinedVariable name) (hl : cause ≠ .nestsTooDeeply) :
    IsPlain (faultAt o cause : Except Stop α) :=
  .error (.fault hn hl)

theorem isPlain_applyUnary (o : Token) (a : Value) : IsPlain (applyUnary o a) := by
  unfold applyUnary
  split
  · exact .ok trivial
  · exact .ok trivial
  · exact isPlain_faultAt nofun nofun
  · exact isPlain_faultAt nofun nofun

theorem isPlain_inRange (o : Token) (n : Int) : IsPlain (inRange o n) := by
  unfold inRange
  split
  · exact .ok trivial
  · exact isPlain_faultAt nofun nofun

theorem isPlain_arithmetic (o : Token) (m n : Int) : IsPlain (arithmetic o m n) := by
  unfold arithmetic
  -- nothing may be computed with a power while the cases are told apart
  generalize Number.power? m n = power, Number.divide? m n = quotient, o.kind = kind
  cases kind with
  | plus | minus | asterisk => exact isPlain_inRange o _
  | slash => cases quotient with
    | some result => exact .ok trivial
    | none => exact isPlain_faultAt nofun nofun
  | caret => cases power with
    | some result => exact .ok trivial
    | none => exact isPlain_faultAt nofun nofun
  | greater | greaterEqual | less | lessEqual => exact .ok trivial
  | _ => exact isPlain_faultAt nofun nofun

theorem isPlain_onNumbers (o : Token) (a b : Value) : IsPlain (onNumbers o a b) := by
  unfold onNumbers
  split
  · exact isPlain_arithmetic o _ _
  · exact isPlain_faultAt nofun nofun

theorem isPlain_equal (a b : Value) : IsPlain (equal a b) := by
  unfold equal
  split
  · exact .ok trivial
  · exact .error .breakdown

theorem isPlain_applyBinary (o : Token) (a b : Value) : IsPlain (applyBinary o a b) := by
  unfold applyBinary
  split
  · exact .ok trivial
  · exact (isPlain_equal a b).map fun _ => trivial
  · exact (isPlain_equal a b).map fun _ => trivial
  · split
    · exact .ok trivial
    · exact isPlain_onNumbers o a b
  · exact isPlain_onNumbers o a b

end Operator

namespace Run

/-- If the run stops at all, it stops in one of these ways. -/
abbrev StopsAs {α : Type} (E : Stop → Prop) (p : Run α) : Prop :=
  Keeps (fun _ => True) (fun _ => True) E p

theorem StopsAs.of_error {α : Type} {E : Stop → Prop} {p : Run α} (h : StopsAs E p) {s s' : State}
    {stop : Stop} (hp : p s = .error stop s') : E stop := by
  have he := h s trivial
  rw [hp] at he
  cases he with
  | error expected => exact expected

section
variable {E : Stop → Prop} (hE : ∀ stop, stop.IsOrdinary → E stop)
include hE

theorem stopsAs_ofExcept {α : Type} {r : Except Stop α} (h : Operator.IsPlain r) :
    StopsAs E (ofExcept r) := by
  cases h with
  | ok h => exact keeps_pure h
  | error h => exact keeps_throw (hE _ h.isOrdinary)

theorem stopsAs_onVariables {α : Type} {g : Environment → Except Stop (α × Environment)}
    (h : ∀ env, Delivers (fun _ => True) Stop.IsOrdinary (g env)) : StopsAs E (onVariables g) := by
  intro s _
  have hg := h s.environment
  unfold onVariables
  generalize g s.environment = r at hg
  cases hg with
  | ok => exact .ok trivial trivial
  | error h => exact .error (hE _ h) trivial

theorem stopsAs_readVar (name : Token) : StopsAs E (readVar name) := by
  rw [readVar_eq_onVariables]
  refine stopsAs_onVariables hE fun env => ?_
  unfold readIn
  split
  · cases env.get? name.lexeme with
    | some value => exact .ok trivial
    | none => exact .error (.fault nofun)
  · exact .error .breakdown

theorem stopsAs_assignVar (name : Token) (value : Value) : StopsAs E (assignVar name value) := by
  rw [assignVar_eq_onVariables]
  refine stopsAs_onVariables hE fun env => ?_
  unfold assignIn
  split
  · cases env.assign? name.lexeme value with
    | some env => exact .ok trivial
    | none => exact .error (.fault nofun)
  · exact .error .breakdown

theorem stopsAs_defineVar (name : Token) (value : Value) : StopsAs E (defineVar name value) := by
  rw [defineVar_eq_onVariables]
  refine stopsAs_onVariables hE fun env => ?_
  unfold defineIn
  split
  · exact .ok trivial
  · exact .error .breakdown

variable (settings : Settings)

theorem stopsAs_eval {depth : Nat} {e : Node} (h : E .tooDeep ∨ e.height ≤ depth) :
    StopsAs E (eval settings depth e) := by
  induction depth generalizing e with
  | zero =>
    obtain h | h := h
    · exact keeps_throw h
    · exact absurd h (Nat.not_le.2 e.height_pos)
  | succ depth ih =>
    -- Parts are lower than the whole, so one level less is enough for them.
    have hpart (c : Node) (hc : c.height < e.height) : StopsAs E (eval settings depth c) :=
      ih (h.imp_right fun h => by omega)
    cases e with
    | literal v => exact keeps_pure trivial
    | grouping e => exact hpart e (by simp [Node.height])
    | var name => exact stopsAs_readVar hE name
    | assign name e =>
      exact (hpart e (by simp [Node.height])).bind fun v _ =>
        (stopsAs_assignVar hE name v).bind fun _ _ =>
          (keeps_traceFrom 2 settings _).bind fun _ _ => keeps_pure trivial
    | logical l o r =>
      have hl := hpart l (by simp only [Node.height]; omega)
      have hr := hpart r (by simp only [Node.height]; omega)
      exact hl.bind fun v _ => .ite (fun _ => keeps_pure trivial) fun _ => hr
    | unary o e =>
      exact (hpart e (by simp [Node.height])).bind fun v _ =>
        stopsAs_ofExcept hE (Operator.isPlain_applyUnary o v)
    | binary l o r =>
      have hl := hpart l (by simp only [Node.height]; omega)
      have hr := hpart r (by simp only [Node.height]; omega)
      exact hl.bind fun a _ => hr.bind fun b _ =>
        stopsAs_ofExcept hE (Operator.isPlain_applyBinary o a b)
    | _ => exact keeps_throw (hE _ .breakdown)

theorem stopsAs_ifTest {depth : Nat} {e : Node} (h : E .tooDeep ∨ e.height ≤ depth) :
    StopsAs E (ifTest settings depth e) :=
  (stopsAs_eval hE settings h).bind fun _ _ => (keeps_traceFrom 3 settings _).bind fun _ _ =>
    keeps_pure trivial

theorem stopsAs_whileTest {depth : Nat} {e : Node} (h : E .tooDeep ∨ e.height ≤ depth) :
    StopsAs E (whileTest settings depth e) :=
  (stopsAs_eval hE settings h).bind fun _ _ => (keeps_traceFrom 3 settings _).bind fun _ _ =>
    keeps_pure trivial

theorem stopsAs_forRange {depth : Nat} {a b : Node} (keyword : Token)
    (ha : E .tooDeep ∨ a.height ≤ depth) (hb : E .tooDeep ∨ b.height ≤ depth) :
    StopsAs E (forRange settings depth keyword a b) :=
  (stopsAs_eval hE settings ha).bind fun x _ => (stopsAs_eval hE settings hb).bind fun y _ =>
    (keeps_rangeOf (hE _ (.fault nofun)) x y).bind fun _ _ =>
      (keeps_traceFrom 3 settings _).bind fun _ _ => keeps_pure trivial

/-- A statement with levels enough stops in ordinary ways only. -/
theorem stopsAs_exec {depth : Nat} {s : Node} (h : E .tooDeep ∨ s.height ≤ depth) :
    StopsAs E (exec settings depth s) := by
  induction depth generalizing s with
  | zero =>
    obtain h | h := h
    · exact keeps_throw h
    · exact absurd h (Nat.not_le.2 s.height_pos)
  | succ depth ih =>
    -- As with expressions, except that all statements of a body share the level below this one.
    have hpart (c : Node) (hc : c.height < s.height) : E .tooDeep ∨ c.height ≤ depth :=
      h.imp_right fun h => by omega
    have hbody {body : List Node} (hb : Node.bodyHeight body < s.height) :
        StopsAs E (sequence (exec settings depth) body) :=
      keeps_sequence fun node hm => ih (hpart node (Nat.lt_of_le_of_lt (Node.height_le_bodyHeight hm) hb))
    cases s with
    | exprStmt e =>
      exact (stopsAs_eval hE settings (hpart e (by simp [Node.height]))).bind fun _ _ =>
        keeps_pure trivial
    | printStmt e =>
      exact (stopsAs_eval hE settings (hpart e (by simp [Node.height]))).bind fun _ _ =>
        keeps_print _
    | varDecl name e =>
      rw [exec_varDecl]
      have hv : StopsAs E (initialValue settings depth e) :=
        .ite (fun _ => keeps_pure trivial) fun hne =>
          stopsAs_eval hE settings (hpart e (by simp [Node.height, hne]))
      exact hv.bind fun v _ => (stopsAs_defineVar hE name v).bind fun _ _ =>
        keeps_traceDeclare (fun _ => hE _ .breakdown) settings name
    | ifStmt c a b =>
      rw [exec_ifStmt]
      have hc := hpart c (by simp only [Node.height]; omega)
      have ha := hpart a (by simp only [Node.height]; omega)
      refine (stopsAs_ifTest hE settings hc).bind fun _ _ => ?_
      refine .ite (fun _ => ih ha) fun _ => .ite (fun _ => keeps_pure trivial) fun hne => ih ?_
      exact hpart b (by simp only [Node.height, if_neg hne]; omega)
    | whileStmt c body =>
      rw [exec_whileStmt]
      have hc := hpart c (by simp only [Node.height]; omega)
      exact keeps_whileLoop (hE _ .tooLong) (stopsAs_whileTest hE settings hc)
        (hbody (by simp only [Node.height]; omega)) _
    | forStmt k a b body =>
      rw [exec_forStmt]
      have ha := hpart a (by simp only [Node.height]; omega)
      have hb := hpart b (by simp only [Node.height]; omega)
      exact (stopsAs_forRange hE settings k ha hb).bind fun _ _ =>
        keeps_times (hbody (by simp only [Node.height]; omega)) _
    | _ => exact keeps_throw (hE _ .breakdown)

end

/-- The stops of a statement of the program: ordinary ones, and that of a statement which lacks
levels, with the token to blame. -/
def StatementStop (settings : Settings) (node : Node) (stop : Stop) : Prop :=
  stop.IsOrdinary ∨ settings.depth < node.height ∧ stop = .fault ⟨node.anchor?, .nestsTooDeeply⟩

/-- No fault of a program is about nesting but that of a statement which lacks levels. -/
theorem stopsAs_runTraced (settings : Settings) (node : Node) :
    StopsAs (StatementStop settings node) (runTraced settings node) := by
  refine (keeps_traceFrom 1 settings _).bind fun _ _ s hs => ?_
  have he : StopsAs (fun stop => stop.IsOrdinary ∨
      settings.depth < node.height ∧ stop = .tooDeep) (exec settings settings.depth node) := by
    refine stopsAs_exec (fun _ => .inl) settings ?_
    obtain h | h := Nat.lt_or_ge settings.depth node.height
    · exact .inl (.inr ⟨h, rfl⟩)
    · exact .inr h
  have he := he s hs
  unfold runStatement
  generalize exec settings settings.depth node s = r at he
  cases he with
  | ok value state => exact .ok value state
  | @error stop s' expected state =>
    obtain h | ⟨h, rfl⟩ := expected
    · cases h <;> exact .error (.inl (by constructor <;> assumption)) state
    · exact .error (.inr ⟨h, rfl⟩) state

end Run

end LetLang
