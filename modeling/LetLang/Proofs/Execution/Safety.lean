import LetLang.Proofs.Execution.Invariant
import LetLang.Proofs.Lexing.Tokens
import LetLang.Proofs.Parsing.Building
import LetLang.Workspace

namespace LetLang

/-- A token with a text for its lexeme, whose literal may be a value. -/
structure Token.Suits (P : Value → Prop) (t : Token) : Prop where
  lexeme : ∃ s, t.lexeme = .str s
  literal : t.kind = .number ∨ t.kind = .string → P (.data t.literal)

namespace Node
variable {n : Nat} {tokens : List Token} {node : Node}

theorem IsExpression.anchor_mem (h : IsExpression n tokens node) :
    ∀ t, node.anchor? = some t → t ∈ tokens := by
  induction h with
  | truth | literal => exact nofun
  | var kind used =>
    rintro _ ⟨⟩
    exact used.subset (List.mem_singleton_self _)
  | grouping level inner ih => exact ih
  | unary level kind operand used =>
    rintro _ ⟨⟩
    exact used.subset List.mem_cons_self
  | power level kind left right used | binary kind left right used | logical kind left right used =>
    rintro _ ⟨⟩
    exact used.subset (List.mem_append_right _ List.mem_cons_self)
  | assign level kind value used =>
    rintro _ ⟨⟩
    exact used.subset List.mem_cons_self

theorem IsStatement.anchor_mem (h : IsStatement n tokens node) :
    ∀ t, node.anchor? = some t → t ∈ tokens := by
  cases h with
  | exprStmt h | printStmt h => exact h.anchor_mem
  | ifThen level condition thenBranch used | ifElse level level' condition thenBranch elseBranch used
  | whileStmt condition inside used =>
    exact fun t ht => used.subset (List.mem_append_left _ (condition.anchor_mem t ht))
  | forStmt kind start finish inside used =>
    rintro _ ⟨⟩
    exact used.subset List.mem_cons_self

theorem IsDeclaration.anchor_mem (h : IsDeclaration n tokens node) :
    ∀ t, node.anchor? = some t → t ∈ tokens := by
  cases h with
  | varDecl kind used | initialized kind value used =>
    rintro _ ⟨⟩
    exact used.subset List.mem_cons_self
  | statement h => exact h.anchor_mem

theorem IsExpression.isExpression (h : IsExpression n tokens node) : node.isExpression = true := by
  cases h <;> rfl

theorem IsDeclaration.isStatement (h : IsDeclaration n tokens node) : node.isStatement = true := by
  cases h with
  | varDecl | initialized => rfl
  | statement h => cases h <;> rfl

/-- The declarations of a body, each on its own. -/
theorem IsBody.isDeclaration {body : List Node} (h : IsBody n tokens body) :
    ∀ node ∈ body, ∃ m, IsDeclaration m tokens node := by
  induction body generalizing tokens with
  | nil => exact List.forall_mem_nil _
  | cons d ds ih =>
    cases h with
    | cons level first others used =>
      refine List.forall_mem_cons.2 ⟨⟨_, first.within ?_⟩, ?_⟩
      · exact (List.sublist_append_left ..).trans used
      · exact ih (others.within ((List.sublist_append_right ..).trans used))

end Node

namespace Run
open Node

variable {P : Value → Prop} {tokens : List Token} {name : Token}

theorem isScalar_of_suits (h : name.Suits P) : name.lexeme.isScalar = true := by
  obtain ⟨s, hs⟩ := h.lexeme
  rw [hs]
  rfl

theorem keeps_readVar (hm : name ∈ tokens) (hn : name.Suits P) :
    Keeps (·.Holds P) P (Stop.IsExpected tokens P) (readVar name) := by
  intro s hs
  rw [readVar_eq (isScalar_of_suits hn)]
  split
  · next v hv => exact .ok (hs.get? hv) hs
  · exact .error (.fault hm rfl) hs

theorem keeps_assignVar (hm : name ∈ tokens) (hn : name.Suits P) {v : Value} (hv : P v) :
    Keeps (·.Holds P) (fun _ => True) (Stop.IsExpected tokens P) (assignVar name v) := by
  intro s hs
  rw [assignVar_eq (isScalar_of_suits hn)]
  split
  · next env he => exact .ok trivial (hs.assign? hv he)
  · exact .error (.fault hm rfl) hs

theorem keeps_defineVar {E : Stop → Prop} (hn : name.Suits P) {v : Value} (hv : P v) :
    Keeps (·.Holds P) (fun _ => True) E (defineVar name v) := by
  intro s hs
  rw [defineVar_eq (isScalar_of_suits hn)]
  exact .ok trivial (hs.define name.lexeme hv)

/-- Programs made of tokens keep a class of values and stop as expected. -/
theorem isInvariant_of_tokens (hP : Admits P) (ht : ∀ t ∈ tokens, t.Suits P) :
    IsInvariant (fun e => ∃ n, IsExpression n tokens e) (fun s => ∃ n, IsDeclaration n tokens s)
      (·.Holds P) P (Stop.IsExpected tokens P) where
  -- The tree of an expression comes with the tokens it is made of, which suit the class of values:
  -- that is what each operator and each name below is taken from.
  nil := hP.nil
  tooDeep := .tooDeep
  tooLong := .tooLong
  notAValue := .notAValue
  literal := by
    rintro v ⟨n, h⟩
    cases h with
    | truth b => exact hP.bool b
    | literal kind used => exact (ht _ (used.subset (List.mem_singleton_self _))).literal kind
  grouping := by
    rintro e ⟨n, h⟩
    exact h.of_grouping
  var := by
    rintro name ⟨n, h⟩
    exact keeps_readVar h.of_var (ht name h.of_var)
  assign := by
    rintro name e ⟨n, h⟩
    obtain ⟨hm, value⟩ := h.of_assign
    exact ⟨value, fun v hv => keeps_assignVar hm (ht name hm) hv⟩
  logical := by
    rintro l r o ⟨n, h⟩
    obtain ⟨left, right⟩ := h.of_logical
    exact ⟨⟨n, left⟩, ⟨n, right⟩⟩
  unary := by
    rintro o e ⟨n, h⟩
    obtain ⟨hm, kind, operand⟩ := h.of_unary
    exact ⟨operand, fun v hv => Operator.delivers_applyUnary hP hm kind hv⟩
  binary := by
    rintro l r o ⟨n, h⟩
    obtain ⟨hm, kind, left, right⟩ := h.of_binary
    exact ⟨left, right, fun a b ha hb => Operator.delivers_applyBinary hP hm kind ha hb⟩
  otherExpression := by
    rintro node ⟨n, h⟩ hf
    simp [h.isExpression] at hf
  exprStmt := by
    rintro e ⟨n, h⟩
    cases h with
    | statement h =>
      cases h with
      | exprStmt h => exact ⟨n, h⟩
  printStmt := by
    rintro e ⟨n, h⟩
    cases h with
    | statement h =>
      cases h with
      | printStmt h => exact ⟨n, h⟩
  varDecl := by
    rintro name e ⟨n, h⟩
    obtain ⟨hm, value⟩ := h.of_varDecl
    exact ⟨fun present => ⟨n, value present⟩, fun v hv => keeps_defineVar (ht name hm) hv⟩
  ifStmt := by
    rintro c a b ⟨n, h⟩
    cases h with
    | statement h =>
      obtain ⟨condition, ⟨m, thenBranch⟩, elseBranch⟩ := h.of_ifStmt
      refine ⟨⟨n, condition⟩, ⟨m, .statement thenBranch⟩, fun present => ?_⟩
      obtain ⟨m', elseBranch⟩ := elseBranch present
      exact ⟨m', .statement elseBranch⟩
  whileStmt := by
    rintro c body ⟨n, h⟩
    cases h with
    | statement h =>
      obtain ⟨condition, inside⟩ := h.of_whileStmt
      exact ⟨⟨n, condition⟩, inside.isDeclaration⟩
  forStmt := by
    rintro k a b body ⟨n, h⟩
    cases h with
    | statement h =>
      obtain ⟨hk, start, finish, inside⟩ := h.of_forStmt
      exact ⟨⟨n, start⟩, ⟨n, finish⟩, inside.isDeclaration, .fault hk trivial⟩
  otherStatement := by
    rintro node ⟨n, h⟩ hf
    simp [h.isStatement] at hf
  anchor := by
    rintro node ⟨n, h⟩
    exact .nesting h.anchor_mem

end Run

theorem runSource_eq (settings : Settings) (env : Environment) (text : String) :
    runSource settings env text = ⟨interpret settings env (Source.ofText text).program,
      ⟨(Source.ofText text).reports,
        (interpret settings env (Source.ofText text).program).reports⟩⟩ := by
  rw [runSource, Workspace.runText, Workspace.runProgram]
  generalize interpret _ _ _ = result
  rfl

theorem Token.IsLexed.suits {P : Value → Prop} (hP : Admits P) {text : String} {t : Token}
    (h : t.IsLexed text) : t.Suits P := by
  refine ⟨h.lexeme, ?_⟩
  rintro (hk | hk)
  · obtain ⟨n, hn, hr⟩ := h.number hk
    rw [hn]
    exact hP.int hr
  · obtain ⟨s, hs⟩ := h.string hk
    rw [hs]
    exact hP.str s

/-- The statements that are parsed are made of the tokens, whatever else is among them. -/
theorem isDeclaration_of_mem_parse (tokens : List Token) :
    ∀ node ∈ (Parser.parse tokens).program, ∃ n, Node.IsDeclaration n tokens node :=
  ((Parser.isBody_parse tokens).within (List.takeWhile_prefix _).sublist).isDeclaration

theorem isDeclaration_of_mem_program (text : String) : ∀ node ∈ (Source.ofText text).program,
    ∃ n, Node.IsDeclaration n (tokenize text).tokens node :=
  isDeclaration_of_mem_parse (tokenize text).tokens

/-- Running the statements of a text keeps a class of values. -/
theorem isInvariant_of_text {P : Value → Prop} (hP : Admits P) (text : String) :
    Run.IsInvariant (fun e => ∃ n, Node.IsExpression n (tokenize text).tokens e)
      (fun s => ∃ n, Node.IsDeclaration n (tokenize text).tokens s) (·.Holds P) P
      (Stop.IsExpected (tokenize text).tokens P) :=
  Run.isInvariant_of_tokens hP fun _ ht => (isLexed_of_mem ht).suits hP

/-- The messages of faults that name no variable. -/
def faultMessages : List String := ["Operand must be a number.", "Operands must be numbers.",
  "Number is too large.", "Division by zero is undefined.", "Exponent result is out of range.",
  "Range must be specified by numbers.", "Expression nests too deeply."]

theorem FaultCause.message_mem {cause : FaultCause} {t : Token} (h : cause.Concerns t) :
    cause.message ∈ faultMessages ∨ cause = .undefinedVariable t.text := by
  cases cause with
  | undefinedVariable name => exact .inr (congrArg _ h)
  | nestsTooDeeply | unsupportedUnary | unsupportedBinary => exact h.elim
  | operandNotNumber => exact .inl (List.mem_of_getElem? (i := 0) rfl)
  | operandsNotNumbers => exact .inl (List.mem_of_getElem? (i := 1) rfl)
  | numberTooLarge => exact .inl (List.mem_of_getElem? (i := 2) rfl)
  | divisionByZero => exact .inl (List.mem_of_getElem? (i := 3) rfl)
  | powerOutOfRange => exact .inl (List.mem_of_getElem? (i := 4) rfl)
  | rangeNotNumbers => exact .inl (List.mem_of_getElem? (i := 5) rfl)

/-- A fault that a text may end in: it blames a token of the text, unless that nests too deeply. -/
structure Fault.IsOfText (text : String) (f : Fault) : Prop where
  message : f.message ∈ faultMessages ∨
    ∃ t, f.token = some t ∧ f.message = "Undefined variable '" ++ t.text ++ "'."
  token : ∀ t, f.token = some t →
    t ∈ (tokenize text).tokens ∧ 1 ≤ t.line ∧ t.line ≤ 1 + text.toList.count '\n'
  noToken : f.token = none → f.message = "Expression nests too deeply."

theorem Fault.isOfText_of_isExpected {text : String} {P : Value → Prop} {f : Fault}
    (h : Stop.IsExpected (tokenize text).tokens P (.fault f)) : f.IsOfText text := by
  cases h with
  | @fault t cause token concerns =>
    refine ⟨(FaultCause.message_mem concerns).imp_right ?_, ?_, nofun⟩
    · rintro rfl
      exact ⟨t, rfl, rfl⟩
    · rintro _ ⟨⟩
      exact ⟨token, (isLexed_of_mem token).line⟩
  | nesting token =>
    refine ⟨.inl ?_, fun t ht => ⟨token t ht, (isLexed_of_mem (token t ht)).line⟩, fun _ => rfl⟩
    exact List.mem_of_getElem? (i := 6) rfl

/-- A text that is run with runtime values leaves only such values, and nothing but a fault of the
text can stop it, if it ends. -/
theorem runSource_isSafe (settings : Settings) {env : Environment}
    (h : env.Holds Value.IsRuntime) (text : String) :
    (runSource settings env text).result.environment.Holds Value.IsRuntime ∧
      ((runSource settings env text).result.stop = none ∨
        (runSource settings env text).result.stop = some .tooLong ∨
        ∃ f, (runSource settings env text).result.stop = some (.fault f) ∧ f.IsOfText text) := by
  obtain ⟨he, hs⟩ := (isInvariant_of_text admits_isRuntime text).interpret settings
    (isDeclaration_of_mem_program text) h
  refine ⟨he, ?_⟩
  cases hr : (runSource settings env text).result.stop with
  | none => exact .inl rfl
  | some stop =>
    obtain ⟨hx, hd⟩ := hs stop hr
    cases stop with
    | fault f => exact .inr (.inr ⟨f, rfl, Fault.isOfText_of_isExpected hx⟩)
    | breakdown b =>
      cases hx with
      | notAValue admitted kind =>
        have hk := admitted.isSome_kind?
        rw [kind] at hk
        cases hk
    | tooDeep => exact absurd rfl hd
    | tooLong => exact .inr (.inl rfl)

/-- A sign in front of a string is a fault. -/
theorem runSource_isSafe_negated_string :
    let env : Environment := ⟨[(.str "x", .str "one")]⟩
    let result := (runSource ⟨1000, 1000, 0⟩ env "print -x;").result
    env.Holds Value.IsRuntime ∧ result.environment.Holds Value.IsRuntime ∧
      ∃ f, result.stop = some (.fault f) ∧ f.IsOfText "print -x;" := by
  intro env result
  have h : env.Holds Value.IsRuntime := List.forall_mem_singleton.2 trivial
  obtain ⟨he, hs⟩ := runSource_isSafe ⟨1000, 1000, 0⟩ h "print -x;"
  have hends : result.stop ≠ none ∧ result.stop ≠ some .tooLong := by decide +kernel
  exact ⟨h, he, (hs.resolve_left hends.1).resolve_left hends.2⟩

end LetLang
