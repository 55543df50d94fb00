import LetLang.Proofs.Execution.Congruence

namespace LetLang

/-- The state when all this was written before. -/
def State.after (output trace : Array String) (s : State) : State :=
  ⟨s.environment, output ++ s.output, trace ++ s.trace⟩

namespace Run
open Node (map mapAll)

section
variable {α β : Type}

/-- The second run does what the first one does, but on changed tokens and after other output. -/
def Tracks (f : Token → Token) (output trace : Array String) (p q : Run α) : Prop :=
  ∀ s, q (s.after output trace) =
    match p s with
    | .ok a s' => .ok a (s'.after output trace)
    | .error stop s' => .error (stop.map f) (s'.after output trace)

variable {f : Token → Token} {output trace : Array String}

theorem Tracks.bind {p q : Run α} {k l : α → Run β} (h : Tracks f output trace p q)
    (hk : ∀ a, Tracks f output trace (k a) (l a)) : Tracks f output trace (p >>= k) (q >>= l) := by
  intro s
  have hq := h s
  cases hp : p s with
  | ok a s' =>
    rw [hp] at hq
    rw [bind_of_ok hq, bind_of_ok hp]
    exact hk a s'
  | error stop s' =>
    rw [hp] at hq
    rw [bind_of_error hq, bind_of_error hp]

theorem tracks_onVariables (g : Environment → Except Stop (α × Environment)) :
    Tracks f output trace (onVariables g)
      (onVariables fun env => (g env).mapError (Stop.map f)) := by
  intro s
  simp only [onVariables, State.after]
  cases g s.environment <;> rfl

theorem tracks_print (text : String) : Tracks f output trace (print text) (print text) := by
  intro s
  change EStateM.Result.ok () { s.after output trace with output := (output ++ s.output).push text } =
    .ok () (State.after output trace { s with output := s.output.push text })
  rw [State.after, State.after, Array.append_push]

theorem tracks_writeTrace (text : String) :
    Tracks f output trace (writeTrace text) (writeTrace text) := by
  intro s
  change EStateM.Result.ok () { s.after output trace with trace := (trace ++ s.trace).push text } =
    .ok () (State.after output trace { s with trace := s.trace.push text })
  rw [State.after, State.after, Array.append_push]

theorem tracks_note (level : Nat) (settings : Settings) (line : Except Breakdown String) :
    Tracks f output trace (note level settings line) (note level settings line) := by
  unfold note
  split
  · cases line with
    | ok text => exact tracks_writeTrace text
    | error b => exact fun _ => rfl
  · exact fun _ => rfl

end

variable {f : Token → Token} {output trace : Array String}

/-- On other lines and after other output a run does the same, and blames the same token. -/
theorem congruence_tracks (settings : Settings) :
    Congruence f settings settings (Tracks f output trace) :=
  congruence_of_bounds rfl rfl Tracks.bind tracks_onVariables tracks_print fun level line =>
    tracks_note level settings line

variable (hf : Token.KeepsContent f)
include hf

theorem tracks_runStatement (settings : Settings) (node : Node) :
    Tracks f output trace (runStatement settings node) (runStatement settings (map f node)) := by
  intro s
  have h : Tracks f output trace _ _ := (congruence_tracks settings).exec hf node
  have h := h s
  unfold runStatement
  rw [h, Node.anchor?_map]
  cases exec settings settings.depth node s with
  | ok a s' => rfl
  | error stop s' => cases stop <;> rfl

theorem tracks_program (settings : Settings) (nodes : List Node) :
    Tracks f output trace (sequence (runTraced settings) nodes)
      (sequence (runTraced settings) (mapAll f nodes)) :=
  (congruence_tracks settings).program (tracks_runStatement hf settings) nodes

end Run

theorem Run.sequence_append (exec : Node → Run Unit) (left right : List Node) :
    sequence exec (left ++ right) = sequence exec left >>= fun _ => sequence exec right := by
  induction left with
  | nil => rfl
  | cons node left ih => simp only [List.cons_append, sequence, ih, bind_assoc]

section
variable {settings : Settings} {env : Environment} {left : List Node}

/-- After a stop in the first part the second one is not begun. -/
theorem interpret_append_of_stop {stop : Stop} (h : (interpret settings env left).stop = some stop)
    (right : List Node) : interpret settings env (left ++ right) = interpret settings env left := by
  unfold interpret at h ⊢
  rw [Run.sequence_append]
  cases hl : Run.sequence (Run.runTraced settings) left ⟨env, #[], #[]⟩ with
  | ok a s =>
    rw [hl] at h
    cases h
  | error stop s => rw [Run.bind_of_error hl]

/-- Without one the second part goes on with the variables that the first one left, also when its
tokens stand on other lines. -/
theorem interpret_append {f : Token → Token} (hf : Token.KeepsContent f)
    (h : (interpret settings env left).stop = none) (right : List Node) :
    (interpret settings env (left ++ Node.mapAll f right)).environment =
        (interpret settings (interpret settings env left).environment right).environment ∧
      (interpret settings env (left ++ Node.mapAll f right)).output =
        (interpret settings env left).output ++
          (interpret settings (interpret settings env left).environment right).output ∧
      (interpret settings env (left ++ Node.mapAll f right)).stop =
        (interpret settings (interpret settings env left).environment right).stop.map (.map f) := by
  unfold interpret at h ⊢
  rw [Run.sequence_append]
  cases hl : Run.sequence (Run.runTraced settings) left ⟨env, #[], #[]⟩ with
  | error stop s =>
    rw [hl] at h
    cases stop <;> cases h
  | ok a s =>
    -- the second part starts in a state that has only the output before it more
    have hs : s = State.after s.output s.trace ⟨s.environment, #[], #[]⟩ := by
      simp [State.after]
    have ht : Run.Tracks f s.output s.trace _ _ := Run.tracks_program hf settings right
    have hr := ht ⟨s.environment, #[], #[]⟩
    rw [← hs] at hr
    rw [Run.bind_of_ok hl, hr]
    cases Run.sequence (Run.runTraced settings) right ⟨s.environment, #[], #[]⟩ with
    | ok a s' => simp [State.after]
    | error stop s' => cases stop <;> simp [State.after, Stop.map]

end

/-- On other lines a program does the same. -/
theorem interpret_map {f : Token → Token} (hf : Token.KeepsContent f) (settings : Settings)
    (env : Environment) (program : List Node) :
    (interpret settings env (Node.mapAll f program)).environment =
        (interpret settings env program).environment ∧
      (interpret settings env (Node.mapAll f program)).output =
        (interpret settings env program).output ∧
      (interpret settings env (Node.mapAll f program)).stop =
        (interpret settings env program).stop.map (.map f) :=
  interpret_append hf (rfl : (interpret settings env []).stop = none) program

end LetLang
