import LetLang.Proofs.Execution.CountingLoop
import LetLang.Proofs.Execution.DepthLimit

namespace LetLang

open Semantics

section
variable {tokens : List Token} {program : List Node} {env : Environment} {settings : Settings}
  (ht : ∀ t ∈ tokens, t.Suits Value.IsRuntime)
  (hp : ∀ node ∈ program, ∃ n, Node.IsDeclaration n tokens node)
  (he : env.Holds Value.IsRuntime)
include ht hp he

/-- A run that is not cut short and does not take too long ends as its program performs. -/
theorem exists_performs_of_stop_ne
    (hd : ∀ f, (interpret settings env program).stop = some (.fault f) →
      f.cause ≠ .nestsTooDeeply)
    (hl : (interpret settings env program).stop ≠ some .tooLong) :
    ∃ r S, Performs (.block program) ⟨env, []⟩ r S ∧
      (interpret settings env program).EndsIn r S := by
  have hm : Run.Meets (Performs (.block program)) (Run.sequence (Run.runTraced settings) program) :=
    Run.meets_sequence fun node hm => (hp node hm).elim fun _ h => Run.meets_runTraced settings h
  obtain h | ⟨stop, hs, hc⟩ | h := interpret_of_meets env hm
  · exact h
  · obtain ⟨f, rfl, hf⟩ := cause_of_isCut_of_tokens ht hp he hs hc
    exact absurd hf (hd f hs)
  · exact absurd h hl

/-- With passes enough a run ends as its program performs, unless it is cut short. -/
theorem exists_limit_endsIn
    (hd : ∀ passes f, (interpret { settings with passes := passes } env program).stop =
      some (.fault f) → f.cause ≠ .nestsTooDeeply)
    {r : Except Fault Unit} {S : Store} (h : Performs (.block program) ⟨env, []⟩ r S) :
    ∃ limit, ∀ passes ≥ limit,
      (interpret { settings with passes := passes } env program).EndsIn r S := by
  obtain ⟨limit, hc⟩ := Run.exists_limit_comes_program settings.depth settings.verbosity h
  refine ⟨limit, fun passes hl => (endsIn_of_comes (hc passes hl)).resolve_right ?_⟩
  rintro ⟨stop, hs, hx⟩
  obtain ⟨f, rfl, hf⟩ := cause_of_isCut_of_tokens ht hp he hs hx
  exact hd passes f hs hf

/-- A program performs one thing only. -/
theorem performs_unique
    (hd : ∀ passes f, (interpret { settings with passes := passes } env program).stop =
      some (.fault f) → f.cause ≠ .nestsTooDeeply)
    {r r' : Except Fault Unit} {S S' : Store} (h : Performs (.block program) ⟨env, []⟩ r S)
    (h' : Performs (.block program) ⟨env, []⟩ r' S') : r = r' ∧ S = S' := by
  obtain ⟨limit, hl⟩ := exists_limit_endsIn ht hp he hd h
  obtain ⟨limit', hl'⟩ := exists_limit_endsIn ht hp he hd h'
  exact (hl _ (Nat.le_max_left limit limit')).unique (hl' _ (Nat.le_max_right limit limit'))

end

theorem RunResult.EndsIn.stop_ne_tooLong {result : RunResult} {r : Except Fault Unit} {S : Store}
    (h : result.EndsIn r S) : result.stop ≠ some .tooLong := by
  rw [h.stop]
  cases r <;> nofun

/-- An expression that has a value is evaluated to it wherever there are levels enough. -/
theorem Run.eval_of_evaluates {n : Nat} {tokens : List Token} {e : Node}
    (hexpr : Node.IsExpression n tokens e) (ht : ∀ t ∈ tokens, t.Suits Value.IsRuntime)
    {s : State} (he : s.environment.Holds Value.IsRuntime) {v : Value} {env : Environment}
    (h : Evaluates e s.environment (.ok v) env) (settings : Settings) {d : Nat}
    (hd : e.height ≤ d) :
    ∃ s', Run.eval settings d e s = .ok v s' ∧ s'.environment = env ∧ v.IsRuntime ∧
      env.Holds Value.IsRuntime := by
  have hc : Run.IsOutcome (.ok v) ⟨env, s.output.toList⟩ (Run.eval settings d e s) :=
    Run.comes_eval h s.output.toList d s rfl
  have hk := (Run.isInvariant_of_tokens admits_isRuntime ht).eval settings d ⟨n, hexpr⟩ s he
  have ho := Run.stopsAs_eval (fun _ => id) settings (.inr hd) s trivial
  cases hr : Run.eval settings d e s with
  | ok w s' =>
    rw [hr] at hc hk
    cases hc with
    | ok outcome store =>
      cases outcome
      obtain rfl : s'.environment = env := congrArg Store.environment store
      exact ⟨s', rfl, rfl, hk.value, hk.state_of_ok⟩
  | error stop s' =>
    rw [hr] at hc hk ho
    cases hc with
    | fault outcome => cases outcome
    | cut cut =>
      -- it is not too deep, and nothing breaks down
      cases hk with
      | error expected =>
        cases ho with
        | error ordinary =>
          cases cut with
          | tooDeep => cases ordinary
          | breakdown => exact absurd rfl (expected.ne_breakdown _)
          | nesting =>
            cases ordinary with
            | fault cause => exact absurd rfl cause

theorem Token.Is.suits {P : Value → Prop} {kind : TokenKind} {text : String} {t : Token}
    (h : t.Is kind text) (hn : kind ≠ .number) (hs : kind ≠ .string) : t.Suits P := by
  refine ⟨⟨text, h.2⟩, fun hk => ?_⟩
  rw [h.1] at hk
  exact (hk.elim hn hs).elim

theorem Number.inRange_one : InRange 1 := by
  rw [InRange, limit_eq]
  exact Nat.one_lt_pow (by decide) (by decide)

/-- One more declaration at the end of a body. -/
theorem Node.IsBody.append_one {n m : Nat} {ts us : List Token} {body : List Node} {d : Node}
    (h : IsBody n ts body) (hd : IsDeclaration m us d) :
    IsBody (max n (m + 1)) (ts ++ us) (body ++ [d]) := by
  induction body generalizing ts with
  | nil =>
    have hus : (us ++ []).Sublist (ts ++ us) := by simp
    exact .cons (by omega) hd .nil hus
  | cons first others ih =>
    cases h with
    | cons level first others used =>
      refine .cons (by omega) first (ih others) ?_
      rw [← List.append_assoc]
      exact used.append_right us

namespace Counting
open Node

variable {k m : String} (c : Counting k m) {n : Nat} {tokens : List Token} {kw : Token}
  {a b : Node} {body : List Node}

/-- The number that is added to the counter. -/
def one : Token := ⟨.number, .str "1", .int 1, 1⟩

/-- Tokens that the written out loop can be made of. -/
def allTokens (tokens : List Token) : List Token :=
  c.declared :: c.limitDeclared :: c.tested :: c.less :: c.limitTested ::
    (tokens ++ [c.assigned, c.read, c.plus, one])

theorem suits_allTokens (ht : ∀ t ∈ tokens, t.Suits Value.IsRuntime) :
    ∀ t ∈ c.allTokens tokens, t.Suits Value.IsRuntime := by
  have hone : one.Suits Value.IsRuntime := ⟨⟨"1", rfl⟩, fun _ => Number.inRange_one⟩
  simp only [allTokens, List.forall_mem_cons, List.forall_mem_append]
  have hname {t : Token} {text : String} (h : t.Is .identifier text) : t.Suits Value.IsRuntime :=
    h.suits (by decide) (by decide)
  exact ⟨hname c.declared_is, hname c.limitDeclared_is, hname c.tested_is,
    c.less_is.suits (by decide) (by decide), hname c.limitTested_is, ht, hname c.assigned_is,
    hname c.read_is, c.plus_is.suits (by decide) (by decide), hone, List.forall_mem_nil _⟩

theorem isExpression_test :
    IsExpression n [c.tested, c.less, c.limitTested] c.test :=
  .binary (by rw [c.less_is.1]; decide) (.var c.tested_is.1 (List.Sublist.refl _))
    (.var c.limitTested_is.1 (List.Sublist.refl _)) (List.Sublist.refl _)

theorem isDeclaration_increment :
    IsDeclaration 1 [c.assigned, c.read, c.plus, one] c.increment := by
  have hsum : IsExpression 0 [c.read, c.plus, one]
      (.binary (.var c.read) c.plus (.literal (.int 1))) :=
    .binary (by rw [c.plus_is.1]; decide) (.var c.read_is.1 (List.Sublist.refl _))
      (.literal (t := one) (.inl rfl) (List.Sublist.refl _)) (List.Sublist.refl _)
  exact .statement (.exprStmt (.assign Nat.zero_lt_one c.assigned_is.1 hsum (List.Sublist.refl _)))

/-- The written out loop can be made of tokens too. -/
theorem isDeclaration_written (h : IsStatement n tokens (.forStmt kw a b body)) :
    ∀ node ∈ c.written a b body, ∃ n, IsDeclaration n (c.allTokens tokens) node := by
  obtain ⟨-, start, finish, inside⟩ := h.of_forStmt
  have hself : tokens.Sublist (tokens ++ [c.assigned, c.read, c.plus, one]) :=
    List.sublist_append_left ..
  simp only [written, List.forall_mem_cons]
  refine ⟨⟨n, .initialized c.declared_is.1 start ?_⟩,
    ⟨n, .initialized c.limitDeclared_is.1 finish ?_⟩,
    ⟨_, .statement (.whileStmt c.isExpression_test
      (inside.append_one c.isDeclaration_increment) ?_)⟩, nofun⟩
  · exact ((((hself.cons _).cons _).cons _).cons _).cons_cons _
  · exact ((((hself.cons _).cons _).cons _).cons_cons _).cons _
  · exact (((((List.Sublist.refl _).cons_cons _).cons_cons _).cons_cons _).cons _).cons _

/-- If the ends of a range are numbers whenever they are evaluated, they are numbers of the
language. -/
theorem rangesOver {s : State} (h : IsStatement n tokens (.forStmt kw a b body))
    (ht : ∀ t ∈ tokens, t.Suits Value.IsRuntime) (he : s.environment.Holds Value.IsRuntime)
    {settings : Settings}
    (numbers : ∀ d v w t u, Run.eval settings d a s = .ok v t → Run.eval settings d b t = .ok w u →
      ∃ i j, v = .int i ∧ w = .int j) : RangesOver a b s.environment := by
  intro v w env₁ env₂ ha hb
  obtain ⟨-, start, finish, -⟩ := h.of_forStmt
  obtain ⟨t, ht₁, rfl, hv, he₁⟩ := Run.eval_of_evaluates start ht he ha settings
    (Nat.le_max_left a.height b.height)
  obtain ⟨u, hu, rfl, hw, -⟩ := Run.eval_of_evaluates finish ht he₁ hb settings
    (Nat.le_max_right a.height b.height)
  obtain ⟨i, j, rfl, rfl⟩ := numbers _ _ _ _ _ ht₁ hu
  exact ⟨i, j, rfl, rfl, hv, hw⟩

end Counting

theorem ne_absent_of_forStmt {n : Nat} {tokens : List Token} {kw : Token} {a b : Node}
    {body : List Node} (h : Node.IsStatement n tokens (.forStmt kw a b body)) :
    a ≠ .absent ∧ b ≠ .absent := by
  obtain ⟨-, start, finish, -⟩ := h.of_forStmt
  exact ⟨start.ne_absent, finish.ne_absent⟩

/-- A loop over a range does what it does written out with a counter and a limit that it does not
mention, whatever its body does: it ends just when the other one does, with the same output, the
same fault if there is one, and the same values but for the two names. Only the levels of
evaluation that they need differ. -/
theorem interpret_written {n : Nat} {tokens : List Token} {kw : Token} {a b : Node}
    {body : List Node} (h : Node.IsStatement n tokens (.forStmt kw a b body))
    (ht : ∀ t ∈ tokens, t.Suits Value.IsRuntime) {k m : String} (c : Counting k m)
    (unused : Avoids [.str k, .str m] (Node.forStmt kw a b body).uses)
    {env : Environment} (he : env.Holds Value.IsRuntime) (settings : Settings)
    (numbers : ∀ d v w s s', Run.eval settings d a ⟨env, #[], #[]⟩ = .ok v s →
      Run.eval settings d b s = .ok w s' → ∃ i j, v = .int i ∧ w = .int j)
    (levels : ∀ passes f, (interpret { settings with passes := passes } env
      [.forStmt kw a b body]).stop = some (.fault f) → f.cause ≠ .nestsTooDeeply)
    (levels' : ∀ passes f, (interpret { settings with passes := passes } env
      (c.written a b body)).stop = some (.fault f) → f.cause ≠ .nestsTooDeeply) :
    ((∃ passes, (interpret { settings with passes := passes } env
        [.forStmt kw a b body]).stop ≠ some .tooLong) ↔
      ∃ passes, (interpret { settings with passes := passes } env
        (c.written a b body)).stop ≠ some .tooLong) ∧
    ∀ passes passes',
      let loop := interpret { settings with passes := passes } env [.forStmt kw a b body]
      let written := interpret { settings with passes := passes' } env (c.written a b body)
      loop.stop ≠ some .tooLong → written.stop ≠ some .tooLong →
        written.stop = loop.stop ∧ written.output = loop.output ∧
        ∀ name : Json, name.meaning ≠ .str k → name.meaning ≠ .str m →
          written.environment.get? name = loop.environment.get? name := by
  have hp : ∀ node ∈ [Node.forStmt kw a b body], ∃ n, Node.IsDeclaration n tokens node :=
    List.forall_mem_singleton.2 ⟨n, .statement h⟩
  have hp' := c.isDeclaration_written h
  have ht' := c.suits_allTokens ht
  have hr := Counting.rangesOver (s := ⟨env, #[], #[]⟩) h ht he numbers
  obtain ⟨-, hbb⟩ := avoids_append.1 unused
  obtain ⟨hb, hbody⟩ := avoids_append.1 hbb
  obtain ⟨pa, pb⟩ := ne_absent_of_forStmt h
  have hto {r : Except Fault Unit} {S : Store}
      (hs : Performs (.block [.forStmt kw a b body]) ⟨env, []⟩ r S) :
      ∃ T, Performs (.block (c.written a b body)) ⟨env, []⟩ r T ∧ S.Alike c.hidden T :=
    c.performs_written hb hbody pa pb hr (performs_singleton_iff.1 hs)
  have hfrom {r : Except Fault Unit} {T : Store}
      (hs : Performs (.block (c.written a b body)) ⟨env, []⟩ r T) :
      ∃ S, Performs (.block [.forStmt kw a b body]) ⟨env, []⟩ r S ∧ T.Alike c.hidden S :=
    (Counting.performs_forStmt hb hbody pa pb hr hs).imp fun S hS =>
      ⟨performs_singleton_iff.2 hS.1, hS.2⟩
  refine ⟨⟨?_, ?_⟩, ?_⟩
  · rintro ⟨passes, hl⟩
    obtain ⟨r, S, hs, -⟩ := exists_performs_of_stop_ne ht hp he (levels passes) hl
    obtain ⟨T, hw, -⟩ := hto hs
    obtain ⟨limit, hends⟩ := exists_limit_endsIn ht' hp' he levels' hw
    exact ⟨limit, (hends limit (Nat.le_refl limit)).stop_ne_tooLong⟩
  · rintro ⟨passes, hl⟩
    obtain ⟨r, T, hw, -⟩ := exists_performs_of_stop_ne ht' hp' he (levels' passes) hl
    obtain ⟨S, hs, -⟩ := hfrom hw
    obtain ⟨limit, hends⟩ := exists_limit_endsIn ht hp he levels hs
    exact ⟨limit, (hends limit (Nat.le_refl limit)).stop_ne_tooLong⟩
  · intro passes passes' loop written hl hl'
    obtain ⟨r, S, hs, hends⟩ := exists_performs_of_stop_ne ht hp he (levels passes) hl
    obtain ⟨r', T, hw, hends'⟩ := exists_performs_of_stop_ne ht' hp' he (levels' passes') hl'
    obtain ⟨T', hw', alike⟩ := hto hs
    obtain ⟨rfl, rfl⟩ := performs_unique ht' hp' he levels' hw hw'
    refine ⟨hends'.stop.trans hends.stop.symm, ?_, fun name hk hm => ?_⟩
    · exact hends'.output.trans (alike.output.symm.trans hends.output.symm)
    · have hn : name.meaning ∉ c.hidden := by simp [hk, hm]
      rw [hends'.environment, hends.environment]
      exact (alike.environment name hn).symm

/-- The tokens of the tree of `for i in 0..x begin x = 0; end`. -/
def resetting : List Token :=
  [⟨.kwFor, .str "for", .null, 1⟩, ⟨.number, .str "0", .int 0, 1⟩,
    ⟨.identifier, .str "x", .null, 1⟩, ⟨.identifier, .str "x", .null, 1⟩,
    ⟨.number, .str "0", .int 0, 1⟩]

/-- A counter `k` with the limit `m`. -/
def kUpToM : Counting "k" "m" where
  declared := ⟨.identifier, .str "k", .null, 1⟩
  limitDeclared := ⟨.identifier, .str "m", .null, 1⟩
  tested := ⟨.identifier, .str "k", .null, 1⟩
  less := ⟨.less, .str "<", .null, 1⟩
  limitTested := ⟨.identifier, .str "m", .null, 1⟩
  assigned := ⟨.identifier, .str "k", .null, 1⟩
  read := ⟨.identifier, .str "k", .null, 1⟩
  plus := ⟨.plus, .str "+", .null, 1⟩
  declared_is := ⟨rfl, rfl⟩
  limitDeclared_is := ⟨rfl, rfl⟩
  tested_is := ⟨rfl, rfl⟩
  less_is := ⟨rfl, rfl⟩
  limitTested_is := ⟨rfl, rfl⟩
  assigned_is := ⟨rfl, rfl⟩
  read_is := ⟨rfl, rfl⟩
  plus_is := ⟨rfl, rfl⟩
  distinct := by decide

/-- The end of the range is a variable that the body sets to something else. -/
theorem interpret_written_resetting :
    let x : Token := ⟨.identifier, .str "x", .null, 1⟩
    let body : List Node := [.exprStmt (.assign x (.literal (.int 0)))]
    let env : Environment := ⟨[(.str "x", .int 1)]⟩
    ∃ passes,
      let written := interpret ⟨10, passes, 0⟩ env
        (kUpToM.written (.literal (.int 0)) (.var x) body)
      written.stop = none ∧ written.output = [] ∧
        written.environment.get? (.str "x") = some (.int 0) := by
  intro x body env
  have h : Node.IsStatement 2 resetting
      (.forStmt ⟨.kwFor, .str "for", .null, 1⟩ (.literal (.int 0)) (.var x) body) := by
    let zero : Token := ⟨.number, .str "0", .int 0, 1⟩
    have hzero {n : Nat} : Node.IsExpression n [zero] (.literal (.int 0)) :=
      .literal (t := zero) (.inl rfl) (List.Sublist.refl _)
    have hassign : Node.IsExpression 1 [x, zero] (.assign x (.literal (.int 0))) :=
      .assign Nat.zero_lt_one rfl hzero (List.Sublist.refl _)
    have hbody : Node.IsBody 2 [x, zero] body :=
      .cons Nat.one_lt_two (.statement (.exprStmt hassign)) .nil
        (List.Sublist.refl ([x, zero] ++ []))
    exact .forStmt rfl hzero (.var rfl (List.Sublist.refl _)) hbody (List.Sublist.refl _)
  have ht : ∀ t ∈ resetting, t.Suits Value.IsRuntime := by
    have hzero : Number.InRange 0 := Number.limit_pos
    unfold resetting
    simp only [List.forall_mem_cons]
    exact ⟨⟨⟨_, rfl⟩, nofun⟩, ⟨⟨_, rfl⟩, fun _ => hzero⟩, ⟨⟨_, rfl⟩, nofun⟩, ⟨⟨_, rfl⟩, nofun⟩,
      ⟨⟨_, rfl⟩, fun _ => hzero⟩, nofun⟩
  have unused : Avoids [.str "k", .str "m"] (Node.forStmt ⟨.kwFor, .str "for", .null, 1⟩
      (.literal (.int 0)) (.var x) body).uses :=
    List.forall_mem_cons.2 ⟨by decide, List.forall_mem_cons.2 ⟨by decide, nofun⟩⟩
  have he : env.Holds Value.IsRuntime := List.forall_mem_singleton.2 Number.inRange_one
  have numbers : ∀ d v w s s', Run.eval ⟨10, 0, 0⟩ d (.literal (.int 0)) ⟨env, #[], #[]⟩ = .ok v s →
      Run.eval ⟨10, 0, 0⟩ d (.var x) s = .ok w s' → ∃ i j, v = .int i ∧ w = .int j := by
    rintro (_ | d) v w s s' hv hw
    · cases hv
    · cases hv
      cases hw
      exact ⟨0, 1, rfl, rfl⟩
  have hheight : ∀ node ∈ [Node.forStmt ⟨.kwFor, .str "for", .null, 1⟩ (.literal (.int 0)) (.var x)
      body], node.height ≤ 10 := by decide
  have hheight' : ∀ node ∈ kUpToM.written (.literal (.int 0)) (.var x) body, node.height ≤ 10 := by
    decide
  obtain ⟨hstops, hsame⟩ := interpret_written h ht kUpToM unused he ⟨10, 0, 0⟩ numbers
    (fun passes _ => cause_ne_nestsTooDeeply ⟨10, passes, 0⟩ hheight)
    fun passes _ => cause_ne_nestsTooDeeply ⟨10, passes, 0⟩ hheight'
  have hloop : interpret ⟨10, 1, 0⟩ env [.forStmt ⟨.kwFor, .str "for", .null, 1⟩
      (.literal (.int 0)) (.var x) body] = ⟨⟨[(.str "x", .int 0)]⟩, [], [], none⟩ := rfl
  have hends : (interpret ⟨10, 1, 0⟩ env [.forStmt ⟨.kwFor, .str "for", .null, 1⟩
      (.literal (.int 0)) (.var x) body]).stop ≠ some .tooLong := by
    rw [hloop]
    nofun
  obtain ⟨passes, hends'⟩ := hstops.1 ⟨1, hends⟩
  obtain ⟨hstop, houtput, hnames⟩ := hsame 1 passes hends hends'
  have hx := hnames (.str "x") (by decide) (by decide)
  rw [hloop] at hstop houtput hx
  exact ⟨passes, hstop, houtput, hx⟩

end LetLang
