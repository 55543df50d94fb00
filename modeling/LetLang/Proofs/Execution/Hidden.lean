import LetLang.Proofs.Execution.Names
import LetLang.Proofs.Execution.Semantics

namespace LetLang

open Semantics

/-- None of the names means a hidden one. -/
def Avoids (hidden : List Json) (uses : List (NameUse × Token)) : Prop :=
  ∀ use ∈ uses, use.2.lexeme.meaning ∉ hidden

section
variable {hidden : List Json} {use : NameUse} {name : Token}
  {uses others : List (NameUse × Token)}

theorem avoids_cons :
    Avoids hidden ((use, name) :: uses) ↔ name.lexeme.meaning ∉ hidden ∧ Avoids hidden uses :=
  List.forall_mem_cons

theorem avoids_append :
    Avoids hidden (uses ++ others) ↔ Avoids hidden uses ∧ Avoids hidden others :=
  List.forall_mem_append

end

namespace Environment

/-- The same values, but for hidden names. -/
def Alike (hidden : List Json) (env other : Environment) : Prop :=
  ∀ name : Json, name.meaning ∉ hidden → env.get? name = other.get? name

/-- The same values for the hidden names. -/
def Keeps (hidden : List Json) (env other : Environment) : Prop :=
  ∀ name : Json, name.meaning ∈ hidden → env.get? name = other.get? name

variable {hidden : List Json} {env env' env'' other : Environment} {name : Json} {v : Value}

theorem Alike.refl (env : Environment) : env.Alike hidden env :=
  fun _ _ => rfl

theorem Alike.symm (h : env.Alike hidden env') : env'.Alike hidden env :=
  fun name hn => (h name hn).symm

theorem Alike.contains (h : env.Alike hidden other) (hn : name.meaning ∉ hidden) :
    env.contains name = other.contains name := by
  rw [Environment.contains, Environment.contains, h name hn]

theorem Alike.define (h : env.Alike hidden other) (name : Json) (v : Value) :
    (env.define name v).Alike hidden (other.define name v) := by
  intro n hn
  rw [get?_define, get?_define, h n hn]

/-- A hidden name may be defined on one side only. -/
theorem Alike.define_hidden (h : env.Alike hidden other) (hn : name.meaning ∈ hidden)
    (v : Value) : env.Alike hidden (other.define name v) := by
  intro n hm
  have hne : n.meaning ≠ name.meaning := fun he => hm (he ▸ hn)
  rw [get?_define, if_neg hne, h n hm]

theorem Keeps.refl (env : Environment) : env.Keeps hidden env :=
  fun _ _ => rfl

theorem Keeps.trans (h : env.Keeps hidden env') (h' : env'.Keeps hidden env'') :
    env.Keeps hidden env'' :=
  fun name hn => (h name hn).trans (h' name hn)

theorem Keeps.define (h : env.Keeps hidden env') (hn : name.meaning ∉ hidden) (v : Value) :
    env.Keeps hidden (env'.define name v) := by
  intro n hm
  have hne : n.meaning ≠ name.meaning := fun he => hn (he ▸ hm)
  rw [get?_define, if_neg hne, h n hm]

end Environment

namespace Semantics
open Environment

variable {hidden : List Json}

/-- An expression keeps the hidden values. -/
theorem Evaluates.keeps {e : Node} {env env' : Environment} {r : Except Fault Value}
    (h : Evaluates e env r env') (ha : Avoids hidden e.uses) : env.Keeps hidden env' := by
  induction h with
  | literal | var | undefined => exact .refl _
  | grouping _ ih | unary _ _ ih | unaryFault _ ih => exact ih ha
  | assign _ _ ih =>
    obtain ⟨hn, he⟩ := avoids_cons.1 ha
    exact (ih he).define hn _
  | assignUndeclared _ _ ih | assignFault _ ih => exact ih (avoids_cons.1 ha).2
  | andDecided _ _ _ ih | orDecided _ _ _ ih | logicalFault _ ih | leftFault _ ih =>
    exact ih (avoids_append.1 ha).1
  | and _ _ _ _ ihl ihr | or _ _ _ _ ihl ihr | binary _ _ _ ihl ihr | rightFault _ _ ihl ihr =>
    obtain ⟨hl, hr⟩ := avoids_append.1 ha
    exact (ihl hl).trans (ihr hr)

/-- An expression comes to the same with other hidden values. -/
theorem Evaluates.alike {e : Node} {env env' : Environment} {r : Except Fault Value}
    (h : Evaluates e env r env') (ha : Avoids hidden e.uses) {other : Environment}
    (alike : env.Alike hidden other) :
    ∃ other', Evaluates e other r other' ∧ env'.Alike hidden other' := by
  -- On the derivation, for any other variables: an operand hands its own on to the next one. The
  -- names read and assigned are none of the hidden ones, so each rule applies again.
  induction h generalizing other with
  | literal => exact ⟨other, .literal, alike⟩
  | grouping inner ih =>
    obtain ⟨other', h, alike⟩ := ih ha alike
    exact ⟨other', .grouping h, alike⟩
  | var defined => exact ⟨other, .var (alike _ (avoids_cons.1 ha).1 ▸ defined), alike⟩
  | undefined undefined =>
    exact ⟨other, .undefined (alike _ (avoids_cons.1 ha).1 ▸ undefined), alike⟩
  | assign value declared ih =>
    obtain ⟨hn, he⟩ := avoids_cons.1 ha
    obtain ⟨other', h, alike⟩ := ih he alike
    exact ⟨_, .assign h (alike.contains hn ▸ declared), alike.define _ _⟩
  | assignUndeclared value undeclared ih =>
    obtain ⟨hn, he⟩ := avoids_cons.1 ha
    obtain ⟨other', h, alike⟩ := ih he alike
    exact ⟨other', .assignUndeclared h (alike.contains hn ▸ undeclared), alike⟩
  | assignFault value ih =>
    obtain ⟨other', h, alike⟩ := ih (avoids_cons.1 ha).2 alike
    exact ⟨other', .assignFault h, alike⟩
  | and kind left truthy right ihl ihr =>
    obtain ⟨hl, hr⟩ := avoids_append.1 ha
    obtain ⟨other', h, alike⟩ := ihl hl alike
    obtain ⟨other'', h', alike⟩ := ihr hr alike
    exact ⟨other'', .and kind h truthy h', alike⟩
  | andDecided kind left falsy ih =>
    obtain ⟨other', h, alike⟩ := ih (avoids_append.1 ha).1 alike
    exact ⟨other', .andDecided kind h falsy, alike⟩
  | or kind left falsy right ihl ihr =>
    obtain ⟨hl, hr⟩ := avoids_append.1 ha
    obtain ⟨other', h, alike⟩ := ihl hl alike
    obtain ⟨other'', h', alike⟩ := ihr hr alike
    exact ⟨other'', .or kind h falsy h', alike⟩
  | orDecided kind left truthy ih =>
    obtain ⟨other', h, alike⟩ := ih (avoids_append.1 ha).1 alike
    exact ⟨other', .orDecided kind h truthy, alike⟩
  | logicalFault left ih =>
    obtain ⟨other', h, alike⟩ := ih (avoids_append.1 ha).1 alike
    exact ⟨other', .logicalFault h, alike⟩
  | unary operand operation ih =>
    obtain ⟨other', h, alike⟩ := ih ha alike
    exact ⟨other', .unary h operation, alike⟩
  | unaryFault operand ih =>
    obtain ⟨other', h, alike⟩ := ih ha alike
    exact ⟨other', .unaryFault h, alike⟩
  | binary left right operation ihl ihr =>
    obtain ⟨hl, hr⟩ := avoids_append.1 ha
    obtain ⟨other', h, alike⟩ := ihl hl alike
    obtain ⟨other'', h', alike⟩ := ihr hr alike
    exact ⟨other'', .binary h h' operation, alike⟩
  | leftFault left ih =>
    obtain ⟨other', h, alike⟩ := ih (avoids_append.1 ha).1 alike
    exact ⟨other', .leftFault h, alike⟩
  | rightFault left right ihl ihr =>
    obtain ⟨hl, hr⟩ := avoids_append.1 ha
    obtain ⟨other', h, alike⟩ := ihl hl alike
    obtain ⟨other'', h', alike⟩ := ihr hr alike
    exact ⟨other'', .rightFault h h', alike⟩

/-- The names in the trees of some work. -/
def Work.uses : Work → List (NameUse × Token)
  | .statement s => s.uses
  | .block body | .times _ body => Node.allUses body
  | .loop condition body => condition.uses ++ Node.allUses body

/-- Work keeps the hidden values. -/
theorem Performs.keeps {w : Work} {S S' : Store} {r : Except Fault Unit} (h : Performs w S r S')
    (ha : Avoids hidden w.uses) : S.environment.Keeps hidden S'.environment := by
  induction h with
  | blockEnd | timesEnd => exact .refl _
  | exprStmt value | exprFault value | printStmt value | printFault value => exact value.keeps ha
  | varDecl => exact (Keeps.refl _).define (avoids_cons.1 ha).1 _
  | initialized _ value =>
    obtain ⟨hn, he⟩ := avoids_cons.1 ha
    exact (value.keeps he).define hn _
  | initializerFault _ value => exact value.keeps (avoids_cons.1 ha).2
  | ifTrue condition _ _ ih =>
    obtain ⟨hc, hab⟩ := avoids_append.1 ha
    exact (condition.keeps hc).trans (ih (avoids_append.1 hab).1)
  | ifFalse condition _ _ _ ih =>
    obtain ⟨hc, hab⟩ := avoids_append.1 ha
    exact (condition.keeps hc).trans (ih (avoids_append.1 hab).2)
  | ifNothing condition | ifFault condition | loopEnd condition | loopFault condition =>
    exact condition.keeps (avoids_append.1 ha).1
  | whileStmt _ ih | timesFault _ ih => exact ih ha
  | forStmt start finish _ ih =>
    obtain ⟨hs, hfb⟩ := avoids_append.1 ha
    obtain ⟨hf, hb⟩ := avoids_append.1 hfb
    exact ((start.keeps hs).trans (finish.keeps hf)).trans (ih hb)
  | notNumbers start finish | finishFault start finish =>
    obtain ⟨hs, hfb⟩ := avoids_append.1 ha
    exact (start.keeps hs).trans (finish.keeps (avoids_append.1 hfb).1)
  | startFault start => exact start.keeps (avoids_append.1 ha).1
  | blockNext _ _ ihf iho =>
    obtain ⟨hf, ho⟩ := avoids_append.1 ha
    exact (ihf hf).trans (iho ho)
  | blockFault _ ih => exact ih (avoids_append.1 ha).1
  | loopNext condition _ _ _ ihp iha =>
    obtain ⟨hc, hb⟩ := avoids_append.1 ha
    exact ((condition.keeps hc).trans (ihp hb)).trans (iha ha)
  | passFault condition _ _ ih =>
    obtain ⟨hc, hb⟩ := avoids_append.1 ha
    exact (condition.keeps hc).trans (ih hb)
  | timesNext _ _ ihp iha => exact (ihp ha).trans (iha ha)

/-- The same output, and the same values but for hidden names. -/
structure Store.Alike (hidden : List Json) (S T : Store) : Prop where
  environment : S.environment.Alike hidden T.environment
  output : S.output = T.output

/-- An expression in a statement leaves the output as it is. -/
theorem Evaluates.alike_store {e : Node} {S T : Store} {env : Environment} {r : Except Fault Value}
    (h : Evaluates e S.environment r env) (ha : Avoids hidden e.uses) (alike : S.Alike hidden T) :
    ∃ other, Evaluates e T.environment r other ∧
      Store.Alike hidden ⟨env, S.output⟩ ⟨other, T.output⟩ := by
  obtain ⟨other, h', he⟩ := h.alike ha alike.environment
  exact ⟨other, h', he, alike.output⟩

/-- Work comes to the same with other hidden values. -/
theorem Performs.alike {w : Work} {S S' : Store} {r : Except Fault Unit} (h : Performs w S r S')
    (ha : Avoids hidden w.uses) {T : Store} (alike : S.Alike hidden T) :
    ∃ T', Performs w T r T' ∧ S'.Alike hidden T' := by
  -- On the derivation, as for expressions; a loop needs the hypothesis for its next pass at the
  -- variables that the pass before it leaves.
  induction h generalizing T with
  | exprStmt value =>
    obtain ⟨_, h, alike⟩ := value.alike_store ha alike
    exact ⟨_, .exprStmt h, alike⟩
  | exprFault value =>
    obtain ⟨_, h, alike⟩ := value.alike_store ha alike
    exact ⟨_, .exprFault h, alike⟩
  | printStmt value =>
    obtain ⟨_, h, alike⟩ := value.alike_store ha alike
    exact ⟨_, .printStmt h, alike.environment, congrArg (· ++ _) alike.output⟩
  | printFault value =>
    obtain ⟨_, h, alike⟩ := value.alike_store ha alike
    exact ⟨_, .printFault h, alike⟩
  | varDecl => exact ⟨_, .varDecl, alike.environment.define _ _, alike.output⟩
  | initialized present value =>
    obtain ⟨_, h, alike⟩ := value.alike_store (avoids_cons.1 ha).2 alike
    exact ⟨_, .initialized present h, alike.environment.define _ _, alike.output⟩
  | initializerFault present value =>
    obtain ⟨_, h, alike⟩ := value.alike_store (avoids_cons.1 ha).2 alike
    exact ⟨_, .initializerFault present h, alike⟩
  | ifTrue condition truthy branch ih =>
    obtain ⟨hc, hab⟩ := avoids_append.1 ha
    obtain ⟨_, h, alike⟩ := condition.alike_store hc alike
    obtain ⟨T', h', alike⟩ := ih (avoids_append.1 hab).1 alike
    exact ⟨T', .ifTrue h truthy h', alike⟩
  | ifFalse condition falsy present branch ih =>
    obtain ⟨hc, hab⟩ := avoids_append.1 ha
    obtain ⟨_, h, alike⟩ := condition.alike_store hc alike
    obtain ⟨T', h', alike⟩ := ih (avoids_append.1 hab).2 alike
    exact ⟨T', .ifFalse h falsy present h', alike⟩
  | ifNothing condition falsy =>
    obtain ⟨_, h, alike⟩ := condition.alike_store (avoids_append.1 ha).1 alike
    exact ⟨_, .ifNothing h falsy, alike⟩
  | ifFault condition =>
    obtain ⟨_, h, alike⟩ := condition.alike_store (avoids_append.1 ha).1 alike
    exact ⟨_, .ifFault h, alike⟩
  | whileStmt loop ih =>
    obtain ⟨T', h, alike⟩ := ih ha alike
    exact ⟨T', .whileStmt h, alike⟩
  | forStmt start finish passes ih =>
    obtain ⟨hs, hfb⟩ := avoids_append.1 ha
    obtain ⟨hf, hb⟩ := avoids_append.1 hfb
    obtain ⟨_, h, alike⟩ := start.alike_store hs alike
    obtain ⟨_, h', alike⟩ := finish.alike_store hf alike
    obtain ⟨T', h'', alike⟩ := ih hb alike
    exact ⟨T', .forStmt h h' h'', alike⟩
  | notNumbers start finish range =>
    obtain ⟨hs, hfb⟩ := avoids_append.1 ha
    obtain ⟨_, h, alike⟩ := start.alike_store hs alike
    obtain ⟨_, h', alike⟩ := finish.alike_store (avoids_append.1 hfb).1 alike
    exact ⟨_, .notNumbers h h' range, alike⟩
  | startFault start =>
    obtain ⟨_, h, alike⟩ := start.alike_store (avoids_append.1 ha).1 alike
    exact ⟨_, .startFault h, alike⟩
  | finishFault start finish =>
    obtain ⟨hs, hfb⟩ := avoids_append.1 ha
    obtain ⟨_, h, alike⟩ := start.alike_store hs alike
    obtain ⟨_, h', alike⟩ := finish.alike_store (avoids_append.1 hfb).1 alike
    exact ⟨_, .finishFault h h', alike⟩
  | blockEnd => exact ⟨T, .blockEnd, alike⟩
  | blockNext first others ihf iho =>
    obtain ⟨hf, ho⟩ := avoids_append.1 ha
    obtain ⟨T', h, alike⟩ := ihf hf alike
    obtain ⟨T'', h', alike⟩ := iho ho alike
    exact ⟨T'', .blockNext h h', alike⟩
  | blockFault first ih =>
    obtain ⟨T', h, alike⟩ := ih (avoids_append.1 ha).1 alike
    exact ⟨T', .blockFault h, alike⟩
  | loopEnd condition falsy =>
    obtain ⟨_, h, alike⟩ := condition.alike_store (avoids_append.1 ha).1 alike
    exact ⟨_, .loopEnd h falsy, alike⟩
  | loopNext condition truthy pass again ihp iha =>
    obtain ⟨hc, hb⟩ := avoids_append.1 ha
    obtain ⟨_, h, alike⟩ := condition.alike_store hc alike
    obtain ⟨T', h', alike⟩ := ihp hb alike
    obtain ⟨T'', h'', alike⟩ := iha ha alike
    exact ⟨T'', .loopNext h truthy h' h'', alike⟩
  | passFault condition truthy pass ih =>
    obtain ⟨hc, hb⟩ := avoids_append.1 ha
    obtain ⟨_, h, alike⟩ := condition.alike_store hc alike
    obtain ⟨T', h', alike⟩ := ih hb alike
    exact ⟨T', .passFault h truthy h', alike⟩
  | loopFault condition =>
    obtain ⟨_, h, alike⟩ := condition.alike_store (avoids_append.1 ha).1 alike
    exact ⟨_, .loopFault h, alike⟩
  | timesEnd => exact ⟨T, .timesEnd, alike⟩
  | timesNext pass again ihp iha =>
    obtain ⟨T', h, alike⟩ := ihp ha alike
    obtain ⟨T'', h', alike⟩ := iha ha alike
    exact ⟨T'', .timesNext h h', alike⟩
  | timesFault pass ih =>
    obtain ⟨T', h, alike⟩ := ih ha alike
    exact ⟨T', .timesFault h, alike⟩

end Semantics

end LetLang
