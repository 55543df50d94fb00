import LetLang.Proofs.Execution.DepthLimit
import LetLang.Proofs.Execution.Variables

namespace LetLang

open Run

namespace Environment

theorem get?_congr (env : Environment) {name other : Json} (h : name.meaning = other.meaning) :
    env.get? name = env.get? other := by
  unfold get?
  induction env.bindings with
  | nil => rfl
  | cons binding bindings ih => rw [valueIn, valueIn, h, ih]

theorem contains_congr (env : Environment) {name other : Json}
    (h : name.meaning = other.meaning) : env.contains name = env.contains other := by
  rw [contains, contains, env.get?_congr h]

theorem contains_define_iff {env : Environment} {name other : Json} {v : Value} :
    (env.define name v).contains other = true ↔
      other.meaning = name.meaning ∨ env.contains other = true := by
  rw [contains, contains, get?_define]
  split
  · next h => simp [h]
  · next h => simp [h]

theorem assign?_eq_some {env env' : Environment} {name : Json} {v : Value}
    (h : env.assign? name v = some env') : env.contains name = true ∧ env' = env.define name v := by
  unfold assign? at h
  split at h
  · next hc => exact ⟨hc, (Option.some.inj h).symm⟩
  · cases h

end Environment

/-- One part is begun in the course of another one. -/
def Within (settings : Settings) : Part → Part → Prop := Relation.ReflTransGen (Begins settings)

theorem Within.uses_subset {settings : Settings} {p q : Part} (h : Within settings p q) :
    q.task.uses ⊆ p.task.uses := by
  induction h with
  | refl => exact List.Subset.refl _
  | tail _ hb ih => exact List.Subset.trans hb.uses_subset ih

/-- A declaration that is carried out, and with which the name becomes one of a variable. -/
structure Part.Creates (settings : Settings) (q : Part) (name : Json) : Prop where
  declares : ∃ d t e, q.task = .exec d (.varDecl t e) ∧ t.lexeme.meaning = name.meaning
  carriedOut : ∀ f s, q.result settings ≠ .error (.fault f) s
  before : q.state.environment.contains name = false
  after : (q.after settings).contains name = true

/-- Variables that come of those at the start of a part by declarations and assignments in it. -/
structure Part.Frames (settings : Settings) (p : Part) (env : Environment) : Prop where
  kept {name : Json} : p.state.environment.contains name = true → env.contains name = true
  created {name : Json} : env.contains name = true → p.state.environment.contains name = true ∨
    ∃ q, Within settings p q ∧ q.Creates settings name
  untouched {name : Json} :
    (∀ use ∈ p.task.uses, use.1 ≠ .read → use.2.lexeme.meaning ≠ name.meaning) →
      env.get? name = p.state.environment.get? name

namespace Part
variable {settings : Settings} {p q : Part} {env env' : Environment}

theorem Frames.refl (p : Part) : p.Frames settings p.state.environment :=
  ⟨id, .inl, fun _ => rfl⟩

/-- What comes of a part comes of the one that it is in. -/
theorem Frames.through (h : p.Frames settings q.state.environment) (hw : Within settings p q)
    (h' : q.Frames settings env) : p.Frames settings env where
  kept hn := h'.kept (h.kept hn)
  created hn := by
    obtain hn | ⟨r, hr, hc⟩ := h'.created hn
    · exact h.created hn
    · exact .inr ⟨r, hw.trans hr, hc⟩
  untouched hn := (h'.untouched fun use hu => hn use (hw.uses_subset hu)).trans (h.untouched hn)

theorem Frames.assign {d : Nat} {t : Token} {e : Node} {v : Value} (h : p.Frames settings env)
    (task : p.task = .eval (d + 1) (.assign t e)) (change : env.assign? t.lexeme v = some env') :
    p.Frames settings env' := by
  obtain ⟨hc, rfl⟩ := Environment.assign?_eq_some change
  refine ⟨fun hn => Environment.contains_define_iff.2 (.inr (h.kept hn)), fun hn => ?_,
    fun hn => ?_⟩
  · obtain hm | hn := Environment.contains_define_iff.1 hn
    · exact h.created (env.contains_congr hm ▸ hc)
    · exact h.created hn
  · have hm := hn (.assigned, t) (by rw [task]; exact List.mem_cons_self) nofun
    rw [Environment.get?_define, if_neg (Ne.symm hm), h.untouched hn]

theorem Frames.declare {d : Nat} {t : Token} {e : Node} {v : Value} (h : p.Frames settings env)
    (task : p.task = .exec (d + 1) (.varDecl t e))
    (last : p.after settings = env.define t.lexeme v)
    (carriedOut : ∀ f s, p.result settings ≠ .error (.fault f) s) :
    p.Frames settings (env.define t.lexeme v) := by
  refine ⟨fun hn => Environment.contains_define_iff.2 (.inr (h.kept hn)), fun {name} hn => ?_,
    fun hn => ?_⟩
  · by_cases hp : p.state.environment.contains name = true
    · exact .inl hp
    obtain hm | hn' := Environment.contains_define_iff.1 hn
    · exact .inr ⟨p, .refl, ⟨_, t, e, task, hm.symm⟩, carriedOut,
        (Bool.not_eq_true _).mp hp, last ▸ hn⟩
    · exact h.created hn'
  · have hm := hn (.declared, t) (by rw [task]; exact List.mem_cons_self) nofun
    rw [Environment.get?_define, if_neg (Ne.symm hm), h.untouched hn]

/-- All variables that there are in the course of a part come of those at its start. -/
theorem Has.frames (h : p.Has settings env) : p.Frames settings env := by
  induction p using Part.induction settings generalizing env with
  | h p ih =>
    induction h with
    | start => exact .refl p
    | part before begun before_ih =>
      exact before_ih.through (.single begun) (ih _ begun (has_after _))
    | assigned task before change before_ih => exact before_ih.assign task change
    | declared task before last carriedOut before_ih => exact before_ih.declare task last carriedOut

end Part

theorem Within.frames {settings : Settings} {p q : Part} (h : Within settings p q) :
    p.Frames settings q.state.environment := by
  induction h with
  | refl => exact .refl p
  | tail hw hb ih => exact ih.through hw hb.has.frames

section
variable {settings : Settings} {p q : Part}

theorem Begins.of_eval (h : Begins settings p q) (hp : ∃ d e, p.task = .eval d e) :
    ∃ d e, q.task = .eval d e := by
  obtain ⟨d, e, hp⟩ := hp
  cases h <;> first | exact ⟨_, _, rfl⟩ | cases hp

theorem Within.of_eval (h : Within settings p q) (hp : ∃ d e, p.task = .eval d e) :
    ∃ d e, q.task = .eval d e := by
  induction h with
  | refl => exact hp
  | tail _ hb ih => exact hb.of_eval ih

/-- An expression makes nothing a variable. -/
theorem Part.Frames.contains_of_eval {env : Environment} (h : p.Frames settings env)
    (hp : ∃ d e, p.task = .eval d e) (name : Json) :
    env.contains name = p.state.environment.contains name := by
  refine Bool.eq_iff_iff.2 ⟨fun hn => (h.created hn).resolve_right ?_, h.kept⟩
  rintro ⟨q, hw, hc⟩
  obtain ⟨d, e, hq⟩ := hw.of_eval hp
  obtain ⟨d', t, e', hq', -⟩ := hc.declares
  rw [hq] at hq'
  cases hq'

end

/-- There is no variable of this name, for a token that means it. -/
def Stop.Misses (name : Json) (stop : Stop) : Prop :=
  ∃ t text, stop = .fault ⟨some t, .undefinedVariable text⟩ ∧ t.lexeme.meaning = name.meaning

namespace Run
variable {name : Json} {t : Token}

theorem not_misses_of_contains {s : State} (hs : s.environment.contains name = true)
    (ht : s.environment.contains t.lexeme = false) (text : String) :
    ¬ Stop.Misses name (.fault ⟨some t, .undefinedVariable text⟩) := by
  rintro ⟨_, _, ⟨⟩, hm⟩
  rw [s.environment.contains_congr hm, hs] at ht
  cases ht

theorem keeps_readVar_contains (name : Json) (t : Token) : Keeps (·.contains name = true)
    (fun _ => True) (fun stop => ¬ stop.Misses name) (readVar t) := by
  intro s hs
  by_cases h : t.lexeme.isScalar = true
  · rw [readVar_eq h]
    cases hv : s.environment.get? t.lexeme with
    | some v => exact .ok trivial hs
    | none =>
      refine .error (not_misses_of_contains hs ?_ _) hs
      rw [Environment.contains, hv]
      rfl
  · rw [readVar, nameOf_bind_of_not h]
    exact .error (by rintro ⟨_, _, ⟨⟩, _⟩) hs

theorem keeps_assignVar_contains (name : Json) (t : Token) (v : Value) :
    Keeps (·.contains name = true) (fun _ => True) (fun stop => ¬ stop.Misses name)
      (assignVar t v) := by
  intro s hs
  by_cases h : t.lexeme.isScalar = true
  · rw [assignVar_eq h, Environment.assign?]
    by_cases hc : s.environment.contains t.lexeme = true
    · rw [if_pos hc]
      exact .ok trivial (Environment.contains_define_iff.2 (.inr hs))
    · rw [if_neg hc]
      exact .error (not_misses_of_contains hs ((Bool.not_eq_true _).mp hc) _) hs
  · rw [assignVar, nameOf_bind_of_not h]
    exact .error (by rintro ⟨_, _, ⟨⟩, _⟩) hs

theorem keeps_defineVar_contains (name : Json) (t : Token) (v : Value) :
    Keeps (·.contains name = true) (fun _ => True) (fun stop => ¬ stop.Misses name)
      (defineVar t v) := by
  intro s hs
  by_cases h : t.lexeme.isScalar = true
  · rw [defineVar_eq h]
    exact .ok trivial (Environment.contains_define_iff.2 (.inr hs))
  · rw [defineVar, nameOf_bind_of_not h]
    exact .error (by rintro ⟨_, _, ⟨⟩, _⟩) hs

end Run

theorem Stop.IsOfOperator.not_misses {stop : Stop} (h : stop.IsOfOperator) (name : Json) :
    ¬ stop.Misses name := by
  rintro ⟨t, text, rfl, -⟩
  cases h with
  | fault named => exact named text rfl

namespace Run

/-- With a variable of the name no run, of whatever trees, stops since there is none. -/
theorem isInvariant_contains (name : Json) : IsInvariant (fun _ => True) (fun _ => True)
    (·.contains name = true) (fun _ => True) (fun stop => ¬ stop.Misses name) where
  nil := trivial
  tooDeep := by rintro ⟨_, _, ⟨⟩, _⟩
  tooLong := by rintro ⟨_, _, ⟨⟩, _⟩
  notAValue _ _ := by rintro ⟨_, _, ⟨⟩, _⟩
  literal _ := trivial
  grouping := id
  var _ := keeps_readVar_contains name _
  assign _ := ⟨trivial, fun v _ => keeps_assignVar_contains name _ v⟩
  logical _ := ⟨trivial, trivial⟩
  unary _ := ⟨trivial, fun v _ =>
    (Operator.isPlain_applyUnary _ v).mono (fun _ => id) fun _ hs => hs.not_misses name⟩
  binary _ := ⟨trivial, trivial, fun a b _ _ =>
    (Operator.isPlain_applyBinary _ a b).mono (fun _ => id) fun _ hs => hs.not_misses name⟩
  otherExpression _ _ := by rintro ⟨_, _, ⟨⟩, _⟩
  exprStmt := id
  printStmt := id
  varDecl _ := ⟨fun _ => trivial, fun v _ => keeps_defineVar_contains name _ v⟩
  ifStmt _ := ⟨trivial, trivial, fun _ => trivial⟩
  whileStmt _ := ⟨trivial, fun _ _ => trivial⟩
  forStmt _ := ⟨trivial, trivial, fun _ _ => trivial, by rintro ⟨_, _, ⟨⟩, _⟩⟩
  otherStatement _ _ := by rintro ⟨_, _, ⟨⟩, _⟩
  anchor _ := by
    rintro ⟨_, _, h, _⟩
    simp at h

end Run

namespace Run
variable {α β : Type} {I : Environment → Prop} {E : Stop → Prop} {s : State}

theorem ends_map_iff {f : Run α} {g : α → β} :
    Ends I (fun _ => True) E ((f >>= fun a => pure (g a)) s) ↔ Ends I (fun _ => True) E (f s) := by
  cases hf : f s with
  | ok a t =>
    rw [bind_of_ok hf]
    exact ⟨fun h => .ok trivial h.state_of_ok, fun h => .ok trivial h.state_of_ok⟩
  | error stop t =>
    rw [bind_of_error hf]
    constructor <;> rintro ⟨⟩ <;> exact .error ‹_› ‹_›

end Run

section
variable {settings : Settings} {p q : Part} {I : Environment → Prop} {E : Stop → Prop}

/-- What holds at the end of one part holds at the end of the part that began it. -/
theorem Begins.ends (h : IsInvariant (fun _ => True) (fun _ => True) I (fun _ => True) E)
    (hb : Begins settings p q) (hq : Ends I (fun _ => True) E (q.result settings)) :
    Ends I (fun _ => True) E (p.result settings) := by
  have hexpr (d : Nat) (e : Node) : Keeps I (fun _ => True) E (Run.eval settings d e) :=
    h.eval settings d trivial
  have hstmt (d : Nat) (node : Node) : Keeps I (fun _ => True) E (Run.exec settings d node) :=
    h.exec settings d trivial
  have hbody (d : Nat) (body : List Node) :
      Keeps I (fun _ => True) E (Run.sequence (Run.exec settings d) body) :=
    h.body settings d fun _ _ => trivial
  have htest (d : Nat) (c : Node) : Keeps I (fun _ => True) E (whileTest settings d c) :=
    h.whileTest settings d trivial
  have hloop (d : Nat) (c : Node) (body : List Node) :=
    keeps_whileLoop h.tooLong (htest d c) (hbody d body)
  have hrange (k : Token) : E (.fault ⟨some k, .rangeNotNumbers⟩) :=
    (@IsInvariant.forStmt _ _ _ _ _ h k .absent .absent [] trivial).2.2.2
  -- in each case what comes after the part keeps the invariant
  cases hb <;> simp only [Part.result, Task.run, valueless, ends_map_iff] at hq ⊢
  case statement node nodes s s' traced =>
    have hr : Ends I (fun _ => True) E (runTraced settings node s) := by
      rw [runTraced, bind_of_ok traced]
      exact (hq.runStatement (h.anchor trivial)).mono (fun _ => id) fun _ => And.left
    exact hr.bind fun _ _ =>
      (h.program settings fun _ _ => trivial).mono (fun _ => id) fun _ => And.left
  case nextStatement first => rwa [Run.sequence, bind_of_ok first]
  case grouping => exact hq
  case assigned d name e s =>
    exact hq.bind fun v _ => ((h.assign (e := e) trivial).2 v trivial).bind fun _ _ =>
      (keeps_traceFrom 2 settings _).bind fun _ _ => keeps_pure trivial
  case operand d o e s =>
    exact hq.bind fun v _ => keeps_ofExcept ((h.unary (e := e) trivial).2 v trivial)
  case left d l r o s =>
    exact hq.bind fun a _ => (hexpr d r).bind fun b _ =>
      keeps_ofExcept ((h.binary (l := l) (r := r) trivial).2.2 a b trivial trivial)
  case right d l r o a s s' first =>
    rw [Run.eval, bind_of_ok first]
    exact hq.bind fun b _ =>
      keeps_ofExcept ((h.binary (l := l) (r := r) trivial).2.2 a b trivial trivial)
  case decider => exact hq.bind fun v _ => .ite (fun _ => keeps_pure trivial) fun _ => hexpr _ _
  case alternative first undecided => rwa [Run.eval, bind_of_ok first, if_neg undecided]
  case expression => exact hq.bind fun _ _ => keeps_pure trivial
  case printed => exact hq.bind fun _ _ => keeps_print _
  case declared d name e s present =>
    rw [exec_varDecl, initialValue, if_neg present]
    exact hq.bind fun v _ => ((h.varDecl (e := e) trivial).2 v trivial).bind fun _ _ =>
      keeps_traceDeclare (h.notAValue trivial) settings _
  case condition d c a b s =>
    rw [exec_ifStmt]
    have ht : Ends I (fun _ => True) E (ifTest settings d c s) :=
      hq.bind fun _ _ => (keeps_traceFrom 3 settings _).bind fun _ _ => keeps_pure trivial
    exact ht.bind fun _ _ => .ite (fun _ => hstmt d a) fun _ =>
      .ite (fun _ => keeps_pure trivial) fun _ => hstmt d b
  case thenBranch test => rwa [exec_ifStmt, bind_of_ok test]
  case elseBranch test present =>
    rwa [exec_ifStmt, bind_of_ok test, if_neg Bool.false_ne_true, if_neg present]
  case whileLoop => exact hq
  case start d k a b body s =>
    rw [exec_forStmt]
    have hr : Ends I (fun _ => True) E (forRange settings d k a b s) :=
      hq.bind fun _ _ => (hexpr d b).bind fun _ _ =>
        (keeps_rangeOf (hrange k) _ _).bind fun _ _ =>
          (keeps_traceFrom 3 settings _).bind fun _ _ => keeps_pure trivial
    exact hr.bind fun _ _ => keeps_times (hbody d body) _
  case finish d k a b body v s s' first =>
    have hr : Ends I (fun _ => True) E (forRange settings d k a b s) := by
      rw [forRange, bind_of_ok first]
      exact hq.bind fun _ _ => (keeps_rangeOf (hrange k) _ _).bind
        fun _ _ => (keeps_traceFrom 3 settings _).bind fun _ _ => keeps_pure trivial
    rw [exec_forStmt]
    exact hr.bind fun _ _ => keeps_times (hbody d body) _
  case range ends => rwa [exec_forStmt, bind_of_ok ends]
  case first d node nodes s =>
    exact hq.bind fun _ _ => hbody d nodes
  case others first => rwa [Run.sequence, bind_of_ok first]
  case test d c body passes s =>
    have ht : Ends I (fun _ => True) E (whileTest settings d c s) :=
      hq.bind fun _ _ => (keeps_traceFrom 3 settings _).bind fun _ _ => keeps_pure trivial
    exact ht.bind fun _ _ => .ite
      (fun _ => (hbody d body).bind fun _ _ => hloop d c body passes) fun _ => keeps_pure trivial
  case pass d c body passes s s' test =>
    rw [Run.whileLoop, bind_of_ok test]
    exact hq.bind fun _ _ => hloop d c body passes
  case nextPass test pass =>
    rw [Run.whileLoop, bind_of_ok test, if_pos rfl, bind_of_ok pass]
    exact hq
  case turn d body count s => exact hq.bind fun _ _ => keeps_times (hbody d body) count
  case nextTurn turn => rwa [Run.times, bind_of_ok turn]

/-- What holds at the end of one part holds at the end of those that it is in. -/
theorem Within.ends (h : IsInvariant (fun _ => True) (fun _ => True) I (fun _ => True) E)
    (hw : Within settings p q) (hq : Ends I (fun _ => True) E (q.result settings)) :
    Ends I (fun _ => True) E (p.result settings) := by
  induction hw with
  | refl => exact hq
  | tail _ hb ih => exact ih (hb.ends h hq)

end

/-- The variables with which the parts of a part begin and end, its own beginning and end among
them. -/
inductive Part.Passes (settings : Settings) (p : Part) : Environment → Prop
  | start {q : Part} (within : Within settings p q) : Passes settings p q.state.environment
  | finish {q : Part} (within : Within settings p q) : Passes settings p (q.after settings)

/-- Other programs are run, one after another, with the variables that are left. -/
def Later : Environment → Environment → Prop :=
  Relation.ReflTransGen fun env env' =>
    ∃ settings program, (interpret settings env program).environment = env'

/-- A program that is to be run. -/
def Part.ofProgram (env : Environment) (program : List Node) : Part :=
  ⟨.program program, ⟨env, #[], #[]⟩⟩

namespace Part
variable {settings : Settings} {p : Part} {env : Environment} {name : Json}

theorem Passes.frames (h : p.Passes settings env) : p.Frames settings env := by
  cases h with
  | start within => exact within.frames
  | finish within => exact within.frames.through within (has_after _).frames

theorem isOf_true (task : Task) : task.IsOf (fun _ => True) fun _ => True := by
  cases task <;> simp [Task.IsOf]

theorem ends_of_contains (h : p.state.environment.contains name = true) :
    Ends (·.contains name = true) (fun _ => True) (fun stop => ¬ stop.Misses name)
      (p.result settings) :=
  ((isInvariant_contains name).task settings (isOf_true p.task) p.state h).mono
    (fun _ _ => trivial) fun _ => id

theorem Creates.ends (h : p.Creates settings name) :
    Ends (·.contains name = true) (fun _ => True) (fun stop => ¬ stop.Misses name)
      (p.result settings) := by
  have ha := h.after
  unfold Part.after at ha
  cases hr : p.result settings with
  | ok v s =>
    rw [hr] at ha
    exact .ok trivial ha
  | error stop s =>
    rw [hr] at ha
    refine .error ?_ ha
    rintro ⟨t, text, rfl, -⟩
    exact h.carriedOut _ s hr

/-- Once there is a variable of the name, it stays, and nothing stops since there is none. -/
theorem Passes.ends (h : p.Passes settings env) (hn : env.contains name = true) :
    Ends (·.contains name = true) (fun _ => True) (fun stop => ¬ stop.Misses name)
      (p.result settings) := by
  cases h with
  | start within => exact within.ends (isInvariant_contains name) (ends_of_contains hn)
  | finish within =>
    obtain hs | ⟨r, hr, hc⟩ := (has_after _).frames.created hn
    · exact within.ends (isInvariant_contains name) (ends_of_contains hs)
    · exact Within.ends (isInvariant_contains name) (within.trans hr) hc.ends

end Part

section
variable {settings : Settings} {env : Environment} {program : List Node}

theorem environment_interpret :
    (interpret settings env program).environment = (Part.ofProgram env program).after settings := by
  rw [Part.ofProgram, Part.after_program]
  unfold interpret
  split
  · next h => rw [h]; rfl
  · next h => rw [h]; rfl
  · next h => rw [h]; rfl

theorem result_of_stop {stop : Stop} (h : (interpret settings env program).stop = some stop) :
    ∃ s, (Part.ofProgram env program).result settings = .error stop s :=
  (sequence_of_stop h).imp fun _ hs => valueless_eq_error_iff.2 hs

theorem not_misses_of_passes {env' : Environment} {name : Json}
    (h : (Part.ofProgram env program).Passes settings env') (hn : env'.contains name = true)
    {stop : Stop} (hs : (interpret settings env program).stop = some stop) :
    ¬ stop.Misses name := by
  obtain ⟨s, hr⟩ := result_of_stop hs
  have he := h.ends hn
  rw [hr] at he
  cases he with
  | error expected => exact expected

theorem Later.contains {env env' : Environment} (h : Later env env') {name : Json}
    (hn : env.contains name = true) : env'.contains name = true := by
  induction h with
  | refl => exact hn
  | tail _ hb ih =>
    obtain ⟨settings, program, rfl⟩ := hb
    rw [environment_interpret]
    exact (Part.Passes.finish .refl).frames.kept ih

theorem exists_declared_of_creates {q : Part} {name : Json}
    (hw : Within settings (Part.ofProgram env program) q) (hc : q.Creates settings name) :
    ∃ t, (.declared, t) ∈ Node.allUses program ∧ t.lexeme.meaning = name.meaning := by
  obtain ⟨d, t, e, hq, hm⟩ := hc.declares
  refine ⟨t, hw.uses_subset ?_, hm⟩
  rw [hq]
  exact List.mem_cons_self

end

/-- In the course of a run the variables change where the program says so and nowhere else,
however the run ends. Those that there are stay; the others come of declarations of the program
that are carried out, never of an expression; what is neither declared nor assigned anywhere keeps
its value. A name that is that of a variable once is not found missing afterwards, in this run or
a later one. -/
theorem interpret_scope (settings : Settings) (env : Environment) (program : List Node) :
    (Part.ofProgram env program).Passes settings (interpret settings env program).environment ∧
    (∀ env', (Part.ofProgram env program).Passes settings env' → ∀ name : Json,
      (env.contains name = true → env'.contains name = true) ∧
      (env'.contains name = true → env.contains name = true ∨
        ∃ t, (.declared, t) ∈ Node.allUses program ∧ t.lexeme.meaning = name.meaning) ∧
      (env'.contains name = true → env.contains name = true ∨
        ∃ q, Within settings (Part.ofProgram env program) q ∧ q.Creates settings name) ∧
      ((∀ t, (.declared, t) ∈ Node.allUses program ∨ (.assigned, t) ∈ Node.allUses program →
        t.lexeme.meaning ≠ name.meaning) → env'.get? name = env.get? name) ∧
      (env'.contains name = true →
        (∀ stop, (interpret settings env program).stop = some stop → ¬ stop.Misses name) ∧
        ∀ env'', Later (interpret settings env program).environment env'' →
          env''.contains name = true ∧
          ∀ settings' program' stop, (interpret settings' env'' program').stop = some stop →
            ¬ stop.Misses name)) ∧
    ∀ p, Within settings (Part.ofProgram env program) p → (∃ d e, p.task = .eval d e) →
      ∀ env', p.Passes settings env' → ∀ name : Json,
        env'.contains name = p.state.environment.contains name := by
  have hend : (Part.ofProgram env program).Passes settings
      (interpret settings env program).environment :=
    environment_interpret ▸ .finish .refl
  refine ⟨hend, fun env' hp name => ⟨hp.frames.kept, fun hn => ?_, hp.frames.created, fun hn => ?_,
    fun hn => ⟨fun stop hs => not_misses_of_passes hp hn hs, fun env'' hl => ?_⟩⟩, ?_⟩
  · exact (hp.frames.created hn).imp_right fun ⟨q, hw, hc⟩ => exists_declared_of_creates hw hc
  · refine hp.frames.untouched ?_
    rintro ⟨kind, t⟩ hu hk
    cases kind with
    | read => exact absurd rfl hk
    | assigned => exact hn t (.inr hu)
    | declared => exact hn t (.inl hu)
  · have hn' : env''.contains name = true :=
      hl.contains (environment_interpret ▸ (hp.ends hn).finalState)
    exact ⟨hn', fun settings' program' stop => not_misses_of_passes (.start .refl) hn'⟩
  · exact fun p _ he env' hp name => hp.frames.contains_of_eval he name

end LetLang
