import LetLang.Proofs.Execution.Congruence
import LetLang.Proofs.Execution.Safety

namespace LetLang

/-- The two states differ in what was told, and less was told in the first one. -/
structure State.IsQuieter (s t : State) : Prop where
  environment : s.environment = t.environment
  output : s.output = t.output
  trace : s.trace.toList.Sublist t.trace.toList

namespace Run

/-- The two runs end in the same way, unless the second one breaks down. -/
inductive Agree {α : Type} : EStateM.Result Stop State α → EStateM.Result Stop State α → Prop
  | ok {x : α} {s t : State} (state : s.IsQuieter t) : Agree (.ok x s) (.ok x t)
  | error {stop : Stop} {s t : State} (state : s.IsQuieter t) : Agree (.error stop s) (.error stop t)
  | breakdown {r : EStateM.Result Stop State α} {b : Breakdown} {t : State} :
    Agree r (.error (.breakdown b) t)

/-- The first run does what the second one does, and tells less. -/
def Quieter {α : Type} (p q : Run α) : Prop :=
  ∀ s t, s.IsQuieter t → Agree (p s) (q t)

section
variable {α β : Type}

theorem Quieter.bind {p q : Run α} {k l : α → Run β} (hp : Quieter p q)
    (hk : ∀ x, Quieter (k x) (l x)) : Quieter (p >>= k) (q >>= l) := by
  intro s t hst
  have h := hp s t hst
  generalize hr : p s = r, hr' : q t = r' at h
  cases h with
  | @ok x s' t' state =>
    rw [bind_of_ok hr, bind_of_ok hr']
    exact hk x s' t' state
  | error state =>
    rw [bind_of_error hr, bind_of_error hr']
    exact .error state
  | breakdown =>
    rw [bind_of_error hr']
    exact .breakdown

theorem quieter_pure (x : α) : Quieter (pure x) (pure x) := fun _ _ => .ok

theorem quieter_throw (stop : Stop) : Quieter (throw stop : Run α) (throw stop) := fun _ _ => .error

theorem quieter_onVariables (g : Environment → Except Stop (α × Environment)) :
    Quieter (onVariables g) (onVariables g) := by
  intro s t h
  unfold onVariables
  rw [h.environment]
  cases g t.environment with
  | ok x => exact .ok ⟨rfl, h.output, h.trace⟩
  | error stop => exact .error h

theorem quieter_print (text : String) : Quieter (print text) (print text) := fun _ _ h =>
  .ok ⟨h.environment, congrArg (·.push text) h.output, h.trace⟩

theorem quieter_writeTrace (text : String) : Quieter (writeTrace text) (writeTrace text) := by
  intro s t h
  refine .ok ⟨h.environment, h.output, ?_⟩
  rw [Array.toList_push, Array.toList_push]
  exact h.trace.append (List.Sublist.refl _)

/-- A line that only the second run writes. -/
theorem quieter_pure_writeTrace (text : String) : Quieter (pure ()) (writeTrace text) := by
  intro s t h
  refine .ok ⟨h.environment, h.output, ?_⟩
  rw [Array.toList_push]
  exact h.trace.trans (List.sublist_append_left _ _)

theorem quieter_note {a b : Settings} (h : a.verbosity ≤ b.verbosity) (level : Nat)
    (line : Except Breakdown String) : Quieter (note level a line) (note level b line) := by
  unfold note
  by_cases ha : level ≤ a.verbosity
  · rw [if_pos ha, if_pos (Nat.le_trans ha h)]
    cases line with
    | ok text => exact quieter_writeTrace text
    | error b => exact quieter_throw _
  · rw [if_neg ha]
    split
    · cases line with
      | ok text => exact quieter_pure_writeTrace text
      | error b => exact fun _ _ _ => .breakdown
    · exact quieter_pure ()

end

section
variable {d d' : Nat} (h : d ≤ d') (settings : Settings)
include h

theorem congruence_quieter : Congruence id { settings with verbosity := d }
    { settings with verbosity := d' } Quieter := by
  refine congruence_of_bounds rfl rfl Quieter.bind (fun g => ?_) quieter_print (quieter_note h)
  simp only [mapError_map_id]
  exact quieter_onVariables g

theorem quieter_runStatement (node : Node) : Quieter
    (runStatement { settings with verbosity := d } node)
    (runStatement { settings with verbosity := d' } node) := by
  intro s t hst
  have he := (congruence_quieter h settings).sameExec node s t hst
  unfold runStatement
  generalize exec { settings with verbosity := d } _ node s = r,
    exec { settings with verbosity := d' } _ node t = r' at he
  cases he with
  | ok state => exact .ok state
  | @error stop _ _ state => cases stop <;> exact .error state
  | breakdown => exact .breakdown

theorem quieter_program (nodes : List Node) : Quieter
    (sequence (runTraced { settings with verbosity := d }) nodes)
    (sequence (runTraced { settings with verbosity := d' }) nodes) :=
  (congruence_quieter h settings).sameProgram (quieter_runStatement h settings) nodes

end

end Run

/-- The two results differ in what was told, and less was told in the first one. -/
structure RunResult.IsQuieter (r r' : RunResult) : Prop where
  environment : r.environment = r'.environment
  output : r.output = r'.output
  stop : r.stop = r'.stop
  trace : r.trace.Sublist r'.trace

theorem RunResult.reports_eq_of_stop {r r' : RunResult} (h : r.stop = r'.stop) :
    r.reports = r'.reports := by
  simp only [reports, fault?, h]

section
variable {d d' : Nat} (h : d ≤ d')
include h

theorem faultTrace_sublist (settings : Settings) (f : Fault) :
    (faultTrace { settings with verbosity := d } f).Sublist
      (faultTrace { settings with verbosity := d' } f) := by
  unfold faultTrace
  by_cases hd : 1 ≤ d
  · simp only [if_pos hd, if_pos (Nat.le_trans hd h), List.Sublist.refl]
  · rw [if_neg hd]
    exact List.nil_sublist _

/-- What a run tells does not change what it does. -/
theorem interpret_isQuieter (settings : Settings) (env : Environment) (program : List Node)
    (hb : ∀ b, (interpret { settings with verbosity := d' } env program).stop ≠
      some (.breakdown b)) :
    (interpret { settings with verbosity := d } env program).IsQuieter
      (interpret { settings with verbosity := d' } env program) := by
  have hq := Run.quieter_program h settings program ⟨env, #[], #[]⟩ ⟨env, #[], #[]⟩
    ⟨rfl, rfl, List.Sublist.refl _⟩
  unfold interpret at hb ⊢
  generalize Run.sequence (Run.runTraced { settings with verbosity := d }) _ _ = r,
    Run.sequence (Run.runTraced { settings with verbosity := d' }) _ _ = r' at hq hb
  cases hq with
  | ok state => exact ⟨state.environment, congrArg Array.toList state.output, rfl, state.trace⟩
  -- A trace can break down on what it cannot show, which the hypothesis excludes.
  | breakdown => exact absurd rfl (hb _)
  | @error stop s t state =>
    have hout := congrArg Array.toList state.output
    cases stop with
    | fault f =>
      exact ⟨state.environment, hout, rfl, state.trace.append (faultTrace_sublist h settings f)⟩
    | breakdown b => exact absurd rfl (hb b)
    | tooDeep => exact ⟨state.environment, hout, rfl, state.trace⟩
    | tooLong => exact ⟨state.environment, hout, rfl, state.trace⟩

end

section
variable {env : Environment} (henv : env.Holds Value.IsRuntime) {text : String}
  {program : List Node} (hp : program ⊆ (Source.ofText text).program)
include henv hp

/-- Statements of a text leave runtime values, and never break down. -/
theorem interpret_text_holds (settings : Settings) :
    (interpret settings env program).environment.Holds Value.IsRuntime ∧
      ∀ b, (interpret settings env program).stop ≠ some (.breakdown b) := by
  obtain ⟨he, hs⟩ := (isInvariant_of_text admits_isRuntime text).interpret settings
    (fun node hm => isDeclaration_of_mem_program text node (hp hm)) henv
  exact ⟨he, fun b hstop => (hs _ hstop).1.ne_breakdown b rfl⟩

/-- The statements of a text with runtime values never break down, so their run tells more and does
the same. -/
theorem interpret_text_isQuieter {d d' : Nat} (h : d ≤ d') (settings : Settings) :
    (interpret { settings with verbosity := d } env program).IsQuieter
      (interpret { settings with verbosity := d' } env program) :=
  interpret_isQuieter h settings env program (interpret_text_holds henv hp _).2

theorem interpret_text_verbosity (settings : Settings) (verbosity : Nat) :
    (interpret { settings with verbosity := verbosity } env program).environment =
        (interpret settings env program).environment ∧
      (interpret { settings with verbosity := verbosity } env program).output =
        (interpret settings env program).output ∧
      (interpret { settings with verbosity := verbosity } env program).stop =
        (interpret settings env program).stop := by
  obtain h | h := Nat.le_total verbosity settings.verbosity
  · have hq := interpret_text_isQuieter henv hp h settings
    exact ⟨hq.environment, hq.output, hq.stop⟩
  · have hq := interpret_text_isQuieter henv hp h settings
    exact ⟨hq.environment.symm, hq.output.symm, hq.stop.symm⟩

end

end LetLang
