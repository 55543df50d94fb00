import LetLang.Proofs.Execution.DepthLimit
import LetLang.Proofs.Parsing.WellFormed

namespace LetLang

namespace Node

mutual
/-- The tree with the inside of each pair of parentheses in its place. -/
def ungrouped : Node → Node
  | .absent => .absent
  | .literal v => .literal v
  | .var name => .var name
  | .grouping e => e.ungrouped
  | .unary o e => .unary o e.ungrouped
  | .assign name e => .assign name e.ungrouped
  | .binary l o r => .binary l.ungrouped o r.ungrouped
  | .logical l o r => .logical l.ungrouped o r.ungrouped
  | .exprStmt e => .exprStmt e.ungrouped
  | .printStmt e => .printStmt e.ungrouped
  | .varDecl name e => .varDecl name e.ungrouped
  | .ifStmt c a b => .ifStmt c.ungrouped a.ungrouped b.ungrouped
  | .forStmt k a b body => .forStmt k a.ungrouped b.ungrouped (ungroupedAll body)
  | .whileStmt c body => .whileStmt c.ungrouped (ungroupedAll body)
def ungroupedAll : List Node → List Node
  | [] => []
  | node :: nodes => node.ungrouped :: ungroupedAll nodes
end

theorem anchor?_ungrouped : ∀ node : Node, node.ungrouped.anchor? = node.anchor?
  | .absent | .literal _ | .binary _ _ _ | .unary _ _ | .logical _ _ _ | .var _ | .assign _ _
  | .varDecl _ _ | .forStmt _ _ _ _ => rfl
  | .grouping e | .exprStmt e | .printStmt e | .ifStmt e _ _ | .whileStmt e _ =>
    anchor?_ungrouped e

theorem kindName_ungrouped {node : Node} (h : node.isStatement = true) :
    node.ungrouped.kindName = node.kindName := by
  cases node <;> first | rfl | cases h

mutual
/-- Expressions are where expressions belong, and statements where statements do. Only an
initializer and an `else` branch may be missing. -/
def IsPlaced : Node → Prop
  | .absent | .literal _ | .var _ => True
  | .grouping e | .unary _ e | .assign _ e | .exprStmt e | .printStmt e =>
    e.isExpression = true ∧ e.IsPlaced
  | .binary l _ r | .logical l _ r =>
    l.isExpression = true ∧ r.isExpression = true ∧ l.IsPlaced ∧ r.IsPlaced
  | .varDecl _ e => (e = .absent ∨ e.isExpression = true) ∧ e.IsPlaced
  | .ifStmt c a b => c.isExpression = true ∧ a.isStatement = true ∧
      (b = .absent ∨ b.isStatement = true) ∧ c.IsPlaced ∧ a.IsPlaced ∧ b.IsPlaced
  | .forStmt _ a b body => a.isExpression = true ∧ b.isExpression = true ∧ a.IsPlaced ∧
      b.IsPlaced ∧ ArePlaced body
  | .whileStmt c body => c.isExpression = true ∧ c.IsPlaced ∧ ArePlaced body
/-- The statements of a program or a block. -/
def ArePlaced : List Node → Prop
  | [] => True
  | s :: body => s.isStatement = true ∧ s.IsPlaced ∧ ArePlaced body
end

theorem isStatement_of_isBranch {node : Node} (h : node.isBranch = true) :
    node.isStatement = true := by
  cases node <;> first | exact h | cases h

mutual
theorem isPlaced_of_isWellFormed {tokens : List Token} : ∀ node : Node,
    node.IsWellFormed tokens → node.IsPlaced
  | .absent, _ | .literal _, _ | .var _, _ => True.intro
  | .grouping e, ⟨he, h⟩ | .unary _ e, ⟨_, he, h⟩ | .assign _ e, ⟨_, he, h⟩
  | .exprStmt e, ⟨he, h⟩ | .printStmt e, ⟨he, h⟩ | .varDecl _ e, ⟨_, he, h⟩ =>
    ⟨he, isPlaced_of_isWellFormed e h⟩
  | .binary l _ r, ⟨_, hl, hr, h, h'⟩ | .logical l _ r, ⟨_, hl, hr, h, h'⟩ =>
    ⟨hl, hr, isPlaced_of_isWellFormed l h, isPlaced_of_isWellFormed r h'⟩
  | .ifStmt c a b, ⟨hc, ha, hb, h, h', h''⟩ =>
    ⟨hc, isStatement_of_isBranch ha, hb.imp id isStatement_of_isBranch,
      isPlaced_of_isWellFormed c h, isPlaced_of_isWellFormed a h', isPlaced_of_isWellFormed b h''⟩
  | .forStmt _ a b body, ⟨_, ha, hb, h, h', h''⟩ =>
    ⟨ha, hb, isPlaced_of_isWellFormed a h, isPlaced_of_isWellFormed b h',
      arePlaced_of_areWellFormed body h''⟩
  | .whileStmt c body, ⟨hc, h, h'⟩ =>
    ⟨hc, isPlaced_of_isWellFormed c h, arePlaced_of_areWellFormed body h'⟩
theorem arePlaced_of_areWellFormed {tokens : List Token} : ∀ body : List Node,
    AreWellFormed tokens body → ArePlaced body
  | [], _ => True.intro
  | s :: body, ⟨hs, h, h'⟩ =>
    ⟨hs, isPlaced_of_isWellFormed s h, arePlaced_of_areWellFormed body h'⟩
end

/-- Every program that is parsed is of this form. -/
theorem arePlaced_ofText (text : String) : ArePlaced (Source.ofText text).program :=
  arePlaced_of_areWellFormed _ ((Parser.isBody_parse (tokenize text).tokens).isBodyWithin
    (List.Subset.refl _)).form

/-- There is an expression inside of all parentheses. -/
theorem isExpression_ungrouped : ∀ e : Node, e.isExpression = true → e.IsPlaced →
    e.ungrouped.isExpression = true
  | .grouping e, _, hp => isExpression_ungrouped e hp.1 hp.2
  | .literal _, _, _ | .var _, _, _ | .unary _ _, _, _ | .assign _ _, _, _
  | .binary _ _ _, _, _ | .logical _ _ _, _, _ => rfl

theorem ungrouped_initializer {e : Node} (h : e = .absent ∨ e.isExpression = true)
    (hp : e.IsPlaced) : e.ungrouped = .absent ↔ e = .absent := by
  rcases h with rfl | h
  · exact Iff.rfl
  · apply iff_of_false
    · intro ha
      have he := isExpression_ungrouped e h hp
      rw [ha] at he
      cases he
    · rintro rfl
      cases h

theorem ungrouped_branch {b : Node} (h : b = .absent ∨ b.isStatement = true) :
    b.ungrouped = .absent ↔ b = .absent := by
  rcases h with rfl | h
  · exact Iff.rfl
  · cases b <;> simp [isStatement, ungrouped] at h ⊢

end Node

namespace Run
open Node

/-- The first run does what the second one does, or there are not levels enough for it. -/
def Shortens (settings : Settings) {α : Type} (p q : Run α) : Prop :=
  Grows q ∧ Truncates settings settings p q

theorem congruence_shortens (settings : Settings) :
    Congruence id settings settings (Shortens settings) :=
  congruence_truncates ⟨Nat.le_refl _, Nat.le_refl _, rfl⟩

section
variable (settings : Settings) {d d' : Nat}

theorem shortens_eval_ungrouped (hd : d ≤ d') (e : Node) :
    Shortens settings (eval settings d e) (eval settings d' e.ungrouped) := by
  have h := congruence_shortens settings
  induction d generalizing d' e with
  | zero =>
    have hg := grows_eval settings d' e.ungrouped
    exact ⟨hg, truncates_of_grows .tooDeep hg⟩
  | succ d ih =>
    obtain ⟨k, rfl⟩ : ∃ k, d' = k + 1 := ⟨d' - 1, by omega⟩
    have hk : d ≤ k := by omega
    cases e with
    -- the only case in which the second run stays on its level
    | grouping e => exact ih (Nat.le_succ_of_le hk) e
    | literal value => exact h.pure value
    | var name => exact h.readVar Token.keepsContent_id name
    | assign name e =>
      exact h.bind (ih hk e) fun value =>
        h.bind (h.assignVar Token.keepsContent_id name value) fun _ =>
          h.bind (h.traceFrom 2 _) fun _ => h.pure value
    | logical l o r =>
      exact h.bind (ih hk l) fun value => relates_ite (h.pure value) (ih hk r)
    | unary o e =>
      exact h.bind (ih hk e) fun value => h.ofExcept (mapError_map_id _).symm
    | binary l o r =>
      exact h.bind (ih hk l) fun a => h.bind (ih hk r) fun b =>
        h.ofExcept (mapError_map_id _).symm
    | _ => exact h.throw (.breakdown (.unknownExpression _))

theorem shortens_initialValue (hd : d ≤ d') {e : Node} (h : e = .absent ∨ e.isExpression = true)
    (hp : e.IsPlaced) :
    Shortens settings (initialValue settings d e) (initialValue settings d' e.ungrouped) := by
  unfold initialValue
  simp only [ungrouped_initializer h hp]
  exact relates_ite ((congruence_shortens settings).pure Value.nil)
    (shortens_eval_ungrouped settings hd e)

theorem shortens_ifTest (hd : d ≤ d') (c : Node) :
    Shortens settings (ifTest settings d c) (ifTest settings d' c.ungrouped) :=
  have h := congruence_shortens settings
  h.bind (shortens_eval_ungrouped settings hd c) fun _ => h.bind (h.traceFrom 3 _) fun _ => h.pure _

theorem shortens_whileTest (hd : d ≤ d') (c : Node) :
    Shortens settings (whileTest settings d c) (whileTest settings d' c.ungrouped) :=
  have h := congruence_shortens settings
  h.bind (shortens_eval_ungrouped settings hd c) fun _ => h.bind (h.traceFrom 3 _) fun _ => h.pure _

theorem shortens_forRange (hd : d ≤ d') (keyword : Token) (a b : Node) :
    Shortens settings (forRange settings d keyword a b)
      (forRange settings d' keyword a.ungrouped b.ungrouped) :=
  have h := congruence_shortens settings
  h.bind (shortens_eval_ungrouped settings hd a) fun x =>
    h.bind (shortens_eval_ungrouped settings hd b) fun y =>
      h.bind (h.rangeOf keyword x y) fun _ => h.bind (h.traceFrom 3 _) fun _ => h.pure _

variable {settings}

theorem shortens_sequence {p q : Node → Run Unit}
    (hpq : ∀ node : Node, node.isStatement = true → node.IsPlaced →
      Shortens settings (p node) (q node.ungrouped)) {nodes : List Node} (hn : ArePlaced nodes) :
    Shortens settings (sequence p nodes) (sequence q (ungroupedAll nodes)) := by
  have h := congruence_shortens settings
  induction nodes with
  | nil => exact h.pure ()
  | cons node nodes ih =>
    obtain ⟨hs, hp, hn⟩ := hn
    exact h.bind (hpq node hs hp) fun _ => ih hn

theorem shortens_exec_ungrouped (hd : d ≤ d') {s : Node} (hs : s.isStatement = true)
    (hp : s.IsPlaced) : Shortens settings (exec settings d s) (exec settings d' s.ungrouped) := by
  have h := congruence_shortens settings
  induction d generalizing d' s with
  | zero =>
    -- The run on the left is cut off before anything is observed; the other one only adds to it.
    have hg := grows_exec settings d' s.ungrouped
    exact ⟨hg, truncates_of_grows .tooDeep hg⟩
  | succ d ih =>
    -- A statement without its groupings is not lower, so both sides give up one level.
    obtain ⟨k, rfl⟩ : ∃ k, d' = k + 1 := ⟨d' - 1, by omega⟩
    have hk : d ≤ k := by omega
    have hbody {body : List Node} (hb : ArePlaced body) :
        Shortens settings (sequence (exec settings d) body)
          (sequence (exec settings k) (ungroupedAll body)) :=
      shortens_sequence (fun node hs hp => ih hk hs hp) hb
    cases s with
    | exprStmt e => exact h.bind (shortens_eval_ungrouped settings hk e) fun _ => h.pure ()
    | printStmt e => exact h.bind (shortens_eval_ungrouped settings hk e) fun _ => h.print _
    | varDecl name e =>
      rw [ungrouped, exec_varDecl, exec_varDecl]
      exact h.bind (shortens_initialValue settings hk hp.1 hp.2) fun value =>
        h.bind (h.defineVar Token.keepsContent_id name value) fun _ =>
          h.traceDeclare Token.keepsContent_id name value
    | ifStmt c a b =>
      obtain ⟨-, ha, hb, -, hpa, hpb⟩ := hp
      rw [ungrouped, exec_ifStmt, exec_ifStmt]
      apply h.bind (shortens_ifTest settings hk c)
      intro truth
      simp only [ungrouped_branch hb]
      apply relates_ite (ih hk ha hpa)
      -- The else is absent, and kept so, or a statement.
      rcases hb with rfl | hb
      · exact h.pure ()
      · exact relates_ite (h.pure ()) (ih hk hb hpb)
    | forStmt keyword a b body =>
      rw [ungrouped, exec_forStmt, exec_forStmt]
      exact h.bind (shortens_forRange settings hk keyword a b) fun range =>
        h.times (hbody hp.2.2.2.2) _
    | whileStmt c body =>
      rw [ungrouped, exec_whileStmt, exec_whileStmt]
      exact h.whileLoop (shortens_whileTest settings hk c) (hbody hp.2.2)
    | _ => cases hs

theorem shortens_program {nodes : List Node} (hn : ArePlaced nodes) :
    Shortens settings (sequence (runTraced settings) nodes)
      (sequence (runTraced settings) (ungroupedAll nodes)) := by
  have h := congruence_shortens settings
  apply shortens_sequence _ hn
  intro node hs hp
  obtain ⟨hg, ht⟩ := @shortens_exec_ungrouped settings _ _ (Nat.le_refl settings.depth) node hs hp
  unfold runTraced
  rw [kindName_ungrouped hs]
  exact h.bind (h.traceFrom 1 _) fun _ => Truncates.runStatement (anchor?_ungrouped node) hg ht

end

end Run

section
variable {settings : Settings} {env : Environment} {program : List Node}
  (levels : ∀ f, (interpret settings env program).stop = some (.fault f) →
    f.cause ≠ .nestsTooDeeply)
include levels

/-- A run with levels enough only meets the bound on the passes. -/
theorem eq_tooLong_of_meetsBound {a b : Settings} {stop : Stop}
    (hs : (interpret settings env program).stop = some stop) (hm : stop.MeetsBound a b) :
    stop = .tooLong ∧ a.passes < b.passes := by
  cases hm with
  | tooDeep => exact absurd hs (interpret_stop_ne_tooDeep settings env program)
  | nestsTooDeeply => exact absurd rfl (levels _ hs)
  | tooLong more => exact ⟨rfl, more⟩

/-- With levels enough a program does what it does without its parentheses. -/
theorem interpret_ungroupedAll (hp : Node.ArePlaced program) :
    interpret settings env (Node.ungroupedAll program) = interpret settings env program := by
  rcases (@Run.shortens_program settings program hp).2 ⟨env, #[], #[]⟩ with he | ⟨stop, s, hr, hbound, -⟩
  · simp only [interpret, he]
  · have hlt := (eq_tooLong_of_meetsBound levels (interpret_stop_of_error hr) hbound).2
    exact absurd hlt (Nat.lt_irrefl _)

/-- A run that ends within some number of passes is the same with more of them. -/
theorem interpret_more_passes {passes : Nat} (hl : (interpret settings env program).stop ≠
    some .tooLong) (hle : settings.passes ≤ passes) :
    interpret { settings with passes := passes } env program = interpret settings env program := by
  have hw : settings.Within { settings with passes := passes } := ⟨Nat.le_refl _, hle, rfl⟩
  apply interpret_eq_of_not_meetsBound hw
  intro stop hs hm
  rw [(eq_tooLong_of_meetsBound levels hs hm).1] at hs
  exact hl hs

end

/-- Parentheses mean nothing to a run. Of two programs that are the same without them one ends just
when the other one does, and then with the same variables, the same output and the same fault if
there is one, unless the levels of evaluation are used up in one of the runs. -/
theorem interpret_eq_of_ungroupedAll_eq {program program' : List Node}
    (hp : Node.ArePlaced program) (hp' : Node.ArePlaced program')
    (h : Node.ungroupedAll program = Node.ungroupedAll program') (env : Environment)
    (settings : Settings)
    (levels : ∀ passes f, (interpret { settings with passes := passes } env program).stop =
      some (.fault f) → f.cause ≠ .nestsTooDeeply)
    (levels' : ∀ passes f, (interpret { settings with passes := passes } env program').stop =
      some (.fault f) → f.cause ≠ .nestsTooDeeply) :
    ((∃ passes, (interpret { settings with passes := passes } env program).stop ≠ some .tooLong) ↔
      ∃ passes, (interpret { settings with passes := passes } env program').stop ≠
        some .tooLong) ∧
    ∀ passes passes',
      let result := interpret { settings with passes := passes } env program
      let result' := interpret { settings with passes := passes' } env program'
      result.stop ≠ some .tooLong → result'.stop ≠ some .tooLong → result = result' := by
  have hsame (passes : Nat) : interpret { settings with passes := passes } env program =
      interpret { settings with passes := passes } env program' := by
    rw [← interpret_ungroupedAll (levels passes) hp, h, interpret_ungroupedAll (levels' passes) hp']
  constructor
  · simp only [hsame]
  · intro passes passes' result result' hl hl'
    -- both runs are the same with the larger number of passes
    have hmore := interpret_more_passes (levels passes) hl (Nat.le_max_left passes passes')
    have hmore' := interpret_more_passes (levels' passes') hl' (Nat.le_max_right passes passes')
    exact hmore.symm.trans ((hsame _).trans hmore')

/-- Both programs set the variable before they fault at the minus. -/
theorem interpret_eq_of_ungroupedAll_eq_assignment :
    let program := (Source.ofText "print (x); (x = 1) and -\x22x\x22;").program
    let program' := (Source.ofText "print x; ((x = (1))) and -(\x22x\x22);").program
    let env : Environment := ⟨[(.str "x", .int 0)]⟩
    let result := interpret ⟨10, 0, 0⟩ env program
    result.stop = some (.fault ⟨some ⟨.minus, .str "-", .null, 1⟩, .operandNotNumber⟩) ∧
      result.output = ["0"] ∧ result.environment = ⟨[(.str "x", .int 1)]⟩ ∧
      result = interpret ⟨10, 0, 0⟩ env program' := by
  intro program program' env result
  have hungrouped : Node.ungroupedAll program = Node.ungroupedAll program' := by decide +kernel
  have hheight : ∀ node ∈ program, node.height ≤ 10 := by decide +kernel
  have hheight' : ∀ node ∈ program', node.height ≤ 10 := by decide +kernel
  have hstop : result.stop =
      some (.fault ⟨some ⟨.minus, .str "-", .null, 1⟩, .operandNotNumber⟩) := by decide +kernel
  refine ⟨hstop, by decide +kernel, by decide +kernel, ?_⟩
  apply (interpret_eq_of_ungroupedAll_eq (Node.arePlaced_ofText _) (Node.arePlaced_ofText _)
    hungrouped env ⟨10, 0, 0⟩ (fun passes _ => cause_ne_nestsTooDeeply ⟨10, passes, 0⟩ hheight)
    fun passes _ => cause_ne_nestsTooDeeply ⟨10, passes, 0⟩ hheight').2 0 0
  · rw [hstop]
    nofun
  · decide +kernel

end LetLang
