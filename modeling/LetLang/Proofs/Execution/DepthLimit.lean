import LetLang.Proofs.Execution.Levels
import LetLang.Proofs.Execution.Relabeling
import LetLang.Source

namespace LetLang

namespace Run

/-- All that was printed up to the end of a run. -/
def printed {α : Type} : EStateM.Result Stop State α → List String
  | .ok _ s | .error _ s => s.output.toList

/-- A run prints after what is printed, and takes nothing back. -/
def Grows {α : Type} (p : Run α) : Prop :=
  ∀ s, s.output.toList <+: printed (p s)

section
variable {α β : Type}

theorem Grows.bind {p : Run α} {k : α → Run β} (hp : Grows p) (hk : ∀ x, Grows (k x)) :
    Grows (p >>= k) := by
  intro s
  have h := hp s
  cases hr : p s with
  | ok x s' =>
    rw [hr] at h
    rw [bind_of_ok hr]
    exact h.trans (hk x s')
  | error stop s' =>
    rw [hr] at h
    rwa [bind_of_error hr]

theorem grows_throw (stop : Stop) : Grows (throw stop : Run α) := fun _ => List.prefix_rfl

theorem grows_onVariables (g : Environment → Except Stop (α × Environment)) :
    Grows (onVariables g) := by
  intro s
  unfold onVariables
  cases g s.environment <;> exact List.prefix_rfl

theorem grows_print (text : String) : Grows (print text) := fun s => by
  change s.output.toList <+: (s.output.push text).toList
  rw [Array.toList_push]
  exact List.prefix_append _ _

theorem grows_note (level : Nat) (settings : Settings) (line : Except Breakdown String) :
    Grows (note level settings line) := by
  unfold note
  intro s
  split
  · cases line <;> exact List.prefix_rfl
  · exact List.prefix_rfl

theorem congruence_grows (settings : Settings) :
    Congruence id settings settings fun _ q => Grows q :=
  congruence_of_bounds rfl rfl Grows.bind (fun _ => grows_onVariables _) grows_print
    fun level line => grows_note level settings line

theorem grows_eval (settings : Settings) (depth : Nat) (e : Node) :
    Grows (eval settings depth e) := by
  have hg := (congruence_grows settings).eval Token.keepsContent_id depth e
  rwa [Nat.sub_self, Node.map_id] at hg

theorem grows_exec (settings : Settings) (depth : Nat) (s : Node) :
    Grows (exec settings depth s) := by
  have hg := (congruence_grows settings).execWithin Token.keepsContent_id depth s
  rwa [Nat.sub_self, Node.map_id] at hg

theorem grows_whileLoop {condition : Run Bool} {body : Run Unit} (hc : Grows condition)
    (hb : Grows body) (passes : Nat) : Grows (whileLoop condition body passes) := by
  induction passes with
  | zero => exact grows_throw _
  | succ passes ih =>
    refine hc.bind fun truth => ?_
    cases truth with
    | true => exact hb.bind fun _ => ih
    | false => exact fun _ => List.prefix_rfl

end

end Run

/-- The second settings allow what the first ones do, and maybe more. -/
structure Settings.Within (a b : Settings) : Prop where
  depth : a.depth ≤ b.depth
  passes : a.passes ≤ b.passes
  verbosity : a.verbosity = b.verbosity

/-- A stop at one of the first bounds, where the second ones may allow to go on. -/
inductive Stop.MeetsBound (a b : Settings) : Stop → Prop
  | tooDeep : MeetsBound a b .tooDeep
  | nestsTooDeeply {token : Option Token} : MeetsBound a b (.fault ⟨token, .nestsTooDeeply⟩)
  | tooLong (more : a.passes < b.passes) : MeetsBound a b .tooLong

namespace Run

/-- The first run does what the second one does, or it is cut, and has printed the beginning of
what the second one prints. -/
def Truncates {α : Type} (a b : Settings) (p q : Run α) : Prop :=
  ∀ s, q s = p s ∨
    ∃ stop s', p s = .error stop s' ∧ stop.MeetsBound a b ∧ s'.output.toList <+: printed (q s)

section
variable {α β : Type} {a b : Settings}

theorem Truncates.refl (p : Run α) : Truncates a b p p := fun _ => .inl rfl

theorem truncates_of_grows {stop : Stop} (h : stop.MeetsBound a b) {q : Run α} (hq : Grows q) :
    Truncates a b (throw stop) q :=
  fun s => .inr ⟨stop, s, rfl, h, hq s⟩

theorem Truncates.bind {p q : Run α} {k l : α → Run β} (hp : Truncates a b p q)
    (hk : ∀ x, Truncates a b (k x) (l x)) (hl : ∀ x, Grows (l x)) :
    Truncates a b (p >>= k) (q >>= l) := by
  intro s
  obtain hq | ⟨stop, s', hr, hbound, hout⟩ := hp s
  · cases hr : p s with
    | ok x s' =>
      rw [hr] at hq
      rw [bind_of_ok hq, bind_of_ok hr]
      exact hk x s'
    | error stop s' =>
      rw [hr] at hq
      exact .inl (by rw [bind_of_error hq, bind_of_error hr])
  -- Cut off in the first part: what the longer run does afterwards only adds to its output.
  · refine .inr ⟨stop, s', bind_of_error hr, hbound, hout.trans ?_⟩
    cases hq : q s with
    | ok x s'' =>
      rw [bind_of_ok hq]
      exact hl x s''
    | error stop s'' => simp only [bind_of_error hq, printed, List.prefix_rfl]

theorem congruence_truncates (h : Settings.Within a b) :
    Congruence id a b fun p q => Grows q ∧ Truncates a b p q where
  depth := h.depth
  passes := h.passes
  bind hp hk := ⟨hp.1.bind fun x => (hk x).1, hp.2.bind (fun x => (hk x).2) fun x => (hk x).1⟩
  onVariables g := by
    simp only [mapError_map_id]
    exact ⟨grows_onVariables g, .refl _⟩
  print text := ⟨grows_print text, .refl _⟩
  note level line := by
    have hn : note level a line = note level b line := by rw [note.eq_def, note.eq_def, h.verbosity]
    rw [hn]
    exact ⟨grows_note level b line, .refl _⟩
  evalTooDeep e :=
    have hg := grows_eval b (b.depth - a.depth) e
    ⟨hg, truncates_of_grows .tooDeep hg⟩
  execTooDeep s :=
    have hg := grows_exec b (b.depth - a.depth) s
    ⟨hg, truncates_of_grows .tooDeep hg⟩
  tooLong hc hb := by
    -- With as many passes on both sides both loops stop here.
    obtain he | hlt := Nat.eq_or_lt_of_le h.passes
    · rw [he, Nat.sub_self]
      exact ⟨grows_throw _, .refl _⟩
    · have hg := grows_whileLoop hc.1 hb.1 (b.passes - a.passes)
      exact ⟨hg, truncates_of_grows (.tooLong hlt) hg⟩

theorem printed_runStatement (settings : Settings) (node : Node) (s : State) :
    printed (runStatement settings node s) = printed (exec settings settings.depth node s) := by
  unfold runStatement
  cases exec settings settings.depth node s with
  | ok x s' => rfl
  | error stop s' => cases stop <;> rfl

/-- Statements that the same token is blamed for. -/
theorem Truncates.runStatement {node node' : Node} (hanchor : node'.anchor? = node.anchor?)
    (hg : Grows (exec b b.depth node'))
    (ht : Truncates a b (exec a a.depth node) (exec b b.depth node')) :
    Grows (runStatement b node') ∧ Truncates a b (runStatement a node) (runStatement b node') := by
  refine ⟨fun s => ?_, fun s => ?_⟩
  · rw [printed_runStatement]
    exact hg s
  · rw [printed_runStatement]
    obtain he | ⟨stop, s', hr, hbound, hout⟩ := ht s
    · exact .inl (by rw [Run.runStatement, Run.runStatement, he, hanchor])
    · refine .inr ?_
      rw [Run.runStatement, hr]
      cases hbound with
      | tooDeep => exact ⟨_, s', rfl, .nestsTooDeeply, hout⟩
      | nestsTooDeeply => exact ⟨_, s', rfl, .nestsTooDeeply, hout⟩
      | tooLong more => exact ⟨_, s', rfl, .tooLong more, hout⟩

theorem truncates_runStatement (h : Settings.Within a b) (node : Node) :
    Grows (runStatement b node) ∧ Truncates a b (runStatement a node) (runStatement b node) :=
  have he := (congruence_truncates h).sameExec node
  he.2.runStatement rfl he.1

/-- Within larger bounds a program does the same, or goes on from where it was cut. -/
theorem truncates_program (h : Settings.Within a b) (nodes : List Node) :
    Grows (sequence (runTraced b) nodes) ∧
      Truncates a b (sequence (runTraced a) nodes) (sequence (runTraced b) nodes) :=
  (congruence_truncates h).sameProgram (truncates_runStatement h) nodes

theorem exists_of_sequence_error {exec : Node → Run Unit} {nodes : List Node} {s s' : State}
    {stop : Stop} (h : sequence exec nodes s = .error stop s') :
    ∃ before node after s₁, nodes = before ++ node :: after ∧
      sequence exec before s = .ok () s₁ ∧ exec node s₁ = .error stop s' := by
  induction nodes generalizing s with
  | nil => cases h
  | cons first nodes ih =>
    cases hf : exec first s with
    | error stop' s₁ =>
      rw [sequence, bind_of_error hf] at h
      cases h
      exact ⟨[], first, nodes, s, rfl, rfl, hf⟩
    | ok x s₁ =>
      rw [sequence, bind_of_ok hf] at h
      obtain ⟨before, node, after, s₂, rfl, hb, hn⟩ := ih h
      exact ⟨first :: before, node, after, s₂, rfl, by rw [sequence, bind_of_ok hf, hb], hn⟩

end

end Run

section
variable {settings : Settings} {env : Environment} {program : List Node}

theorem interpret_output (settings : Settings) (env : Environment) (program : List Node) :
    (interpret settings env program).output =
      Run.printed (Run.sequence (Run.runTraced settings) program ⟨env, #[], #[]⟩) := by
  unfold interpret
  cases Run.sequence (Run.runTraced settings) program ⟨env, #[], #[]⟩ with
  | ok x s => rfl
  | error stop s => cases stop <;> rfl

theorem interpret_stop_of_error {stop : Stop} {s : State}
    (h : Run.sequence (Run.runTraced settings) program ⟨env, #[], #[]⟩ = .error stop s) :
    (interpret settings env program).stop = some stop := by
  unfold interpret
  rw [h]
  cases stop <;> rfl

theorem sequence_of_stop {stop : Stop} (h : (interpret settings env program).stop = some stop) :
    ∃ s, Run.sequence (Run.runTraced settings) program ⟨env, #[], #[]⟩ = .error stop s := by
  unfold interpret at h
  cases hr : Run.sequence (Run.runTraced settings) program ⟨env, #[], #[]⟩ with
  | ok x s =>
    rw [hr] at h
    cases h
  | error stop' s =>
    rw [hr] at h
    cases stop' <;> cases h <;> exact ⟨s, rfl⟩

/-- A run that stops does so at one statement, and never comes to what follows. -/
theorem exists_of_stop {stop : Stop} (h : (interpret settings env program).stop = some stop) :
    ∃ before node after, program = before ++ node :: after ∧
      (interpret settings env before).stop = none ∧ Run.StatementStop settings node stop ∧
      ∀ rest, interpret settings env (before ++ node :: rest) =
        interpret settings env program := by
  obtain ⟨s, hr⟩ := sequence_of_stop h
  obtain ⟨before, node, after, s₁, rfl, hb, hn⟩ := Run.exists_of_sequence_error hr
  have hstop (rest : List Node) :
      Run.sequence (Run.runTraced settings) (before ++ node :: rest) ⟨env, #[], #[]⟩ =
        .error stop s := by
    rw [Run.sequence_append, Run.bind_of_ok hb, Run.sequence, Run.bind_of_error hn]
  refine ⟨before, node, after, rfl, ?_, (Run.stopsAs_runTraced settings node).of_error hn, ?_⟩
  · rw [interpret, hb]
  · intro rest
    rw [interpret, interpret, hstop, hstop]

/-- A statement that is too deep faults, so no program stops for that. -/
theorem interpret_stop_ne_tooDeep (settings : Settings) (env : Environment) (program : List Node) :
    (interpret settings env program).stop ≠ some .tooDeep := by
  intro h
  obtain ⟨before, node, after, -, -, hs | ⟨-, hs⟩, -⟩ := exists_of_stop h
  · cases hs
  · cases hs

/-- Where the levels suffice, no fault is about the nesting. -/
theorem cause_ne_nestsTooDeeply (settings : Settings) {env : Environment} {program : List Node}
    (h : ∀ node ∈ program, node.height ≤ settings.depth) {f : Fault}
    (hs : (interpret settings env program).stop = some (.fault f)) :
    f.cause ≠ .nestsTooDeeply := by
  obtain ⟨before, node, after, rfl, -, hstop, -⟩ := exists_of_stop hs
  obtain ho | ⟨hlt, -⟩ := hstop
  · cases ho with
    | fault cause => exact cause
  · exact absurd (h node (by simp)) (Nat.not_le.2 hlt)

end

section
variable {a b : Settings} (h : Settings.Within a b) (env : Environment) (program : List Node)
include h

theorem interpret_output_grows :
    (interpret a env program).output <+: (interpret b env program).output := by
  rw [interpret_output, interpret_output]
  obtain he | ⟨stop, s, hr, -, hout⟩ := (Run.truncates_program h program).2 ⟨env, #[], #[]⟩
  · simp only [he, List.prefix_rfl]
  · rw [hr]
    exact hout

/-- A run that is not cut is the same within larger bounds. -/
theorem interpret_eq_of_not_meetsBound
    (hc : ∀ stop, (interpret a env program).stop = some stop → ¬ stop.MeetsBound a b) :
    interpret b env program = interpret a env program := by
  obtain he | ⟨stop, s, hr, hbound, -⟩ := (Run.truncates_program h program).2 ⟨env, #[], #[]⟩
  · simp only [interpret, he, faultTrace, h.verbosity]
  · exact absurd hbound (hc stop (interpret_stop_of_error hr))

end

theorem FaultCause.message_eq_iff (cause : FaultCause) :
    cause.message = "Expression nests too deeply." ↔ cause = .nestsTooDeeply := by
  have htext (a b c : String) (h : a.toList.head? = some 'U') :
      a ++ b ++ c ≠ "Expression nests too deeply." := by
    intro he
    have hh := congrArg (fun t => t.toList.head?) he
    simp only [String.toList_append, List.head?_append, h, Option.some_or] at hh
    exact absurd hh (by decide)
  cases cause with
  | undefinedVariable name => exact iff_of_false (htext _ _ _ (by decide)) nofun
  | unsupportedUnary o => exact iff_of_false (htext _ _ _ (by decide)) nofun
  | unsupportedBinary o => exact iff_of_false (htext _ _ _ (by decide)) nofun
  | _ => decide

/-- The levels of evaluation only ever cut a run short, and it is cut at a statement that lacks
them: with more levels it prints at least as much, and all of it is the same if it was not cut. -/
theorem interpret_truncates (settings : Settings) {n m : Nat} (h : n ≤ m) (env : Environment)
    (program : List Node) :
    let low := interpret { settings with depth := n } env program
    let high := interpret { settings with depth := m } env program
    ((∀ fault, low.stop = some (.fault fault) → fault.message ≠ "Expression nests too deeply.") →
      high = low) ∧
    (∀ fault, low.stop = some (.fault fault) → fault.message = "Expression nests too deeply." →
      ∃ before node after, program = before ++ node :: after ∧
        (interpret { settings with depth := n } env before).stop = none ∧
        fault.token = node.anchor? ∧
        ∀ rest, interpret { settings with depth := n } env (before ++ node :: rest) = low) ∧
    low.output <+: high.output ∧
    ((∀ node ∈ program, node.height ≤ n) → ∀ fault, low.stop = some (.fault fault) →
      fault.message ≠ "Expression nests too deeply.") := by
  intro low high
  have hw : Settings.Within { settings with depth := n } { settings with depth := m } :=
    ⟨h, Nat.le_refl _, rfl⟩
  refine ⟨fun hne => ?_, fun fault hstop hmessage => ?_, interpret_output_grows hw env program, ?_⟩
  · refine interpret_eq_of_not_meetsBound hw env program fun stop hstop hbound => ?_
    cases hbound with
    | nestsTooDeeply => exact hne _ hstop rfl
    | tooLong more => exact absurd more (Nat.lt_irrefl _)
    | tooDeep =>
      -- no statement leaves this stop as it is
      obtain ⟨before, node, after, -, -, hs | ⟨-, hs⟩, -⟩ := exists_of_stop hstop
      · cases hs
      · cases hs
  · obtain ⟨before, node, after, hp, hb, hs | ⟨-, hs⟩, hrest⟩ := exists_of_stop hstop
    · cases hs with
      | fault hc => exact absurd ((FaultCause.message_eq_iff _).1 hmessage) hc
    · cases hs
      exact ⟨before, node, after, hp, hb, rfl, hrest⟩
  · intro hheight fault hstop hmessage
    obtain ⟨before, node, after, rfl, -, hs | ⟨hlt, -⟩, -⟩ := exists_of_stop hstop
    · cases hs with
      | fault hc => exact hc ((FaultCause.message_eq_iff _).1 hmessage)
    · exact absurd (hheight node (by simp)) (Nat.not_le.2 hlt)

/-- Of these statements the first one needs two levels and the second one needs four. -/
theorem interpret_truncates_second_statement :
    let program := (Source.ofText "print 1; print 1 + 1 + 1;").program
    let low := interpret ⟨3, 10, 0⟩ .empty program
    let high := interpret ⟨4, 10, 0⟩ .empty program
    low.stop = some (.fault ⟨some ⟨.plus, .str "+", .null, 1⟩, .nestsTooDeeply⟩) ∧
    low.output = ["1"] ∧ high.output = ["1", "3"] ∧ low.output <+: high.output ∧
    ∃ before node after, program = before ++ node :: after ∧
      (interpret ⟨3, 10, 0⟩ .empty before).stop = none ∧
      some ⟨.plus, .str "+", .null, 1⟩ = node.anchor? := by
  intro program low high
  obtain ⟨-, htoo, hout, -⟩ :=
    interpret_truncates ⟨0, 10, 0⟩ (by decide : 3 ≤ 4) .empty program
  have hstop : low.stop = some (.fault ⟨some ⟨.plus, .str "+", .null, 1⟩, .nestsTooDeeply⟩) := by
    decide +kernel
  obtain ⟨before, node, after, hp, hb, ht, -⟩ := htoo _ hstop rfl
  exact ⟨hstop, by decide +kernel, by decide +kernel, hout, before, node, after, hp, hb, ht⟩

end LetLang
