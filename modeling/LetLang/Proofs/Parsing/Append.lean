import LetLang.Proofs.Parsing.Program
import LetLang.Proofs.Parsing.Progress

namespace LetLang

namespace Strict

/-- What is read in front of the end of a text is read in front of other tokens, unless the first
one of these would go on with it. -/
theorem reading_append {r : Rule} {ts rest : List Token} {trees : List Tree}
    (h : reading (.rule r) ts = .ok (trees, rest)) {vs : List Token}
    (hv : ∀ t ∈ (rest ++ vs).head?, t.kind ∉ r.extenders) :
    reading (.rule r) (ts ++ vs) = .ok (trees, rest ++ vs) := by
  obtain ⟨us, rfl, hd⟩ := derives_of_reading h
  have he := elsesNearest_of_reading rfl h
  rw [List.append_assoc]
  refine foundWithin _ _ us trees (rest ++ vs) (Nat.le_refl _) hd rfl rfl he
    (.of_not_extends (fun t ht => ?_) trees)
  simpa [Pattern.extendsWith] using hv t ht

end Strict

namespace Parser
open Strict

section
variable {α : Type} {fits : List Tree → Prop} {means : List Tree → α → Prop} {o : Outcome α}

theorem Agrees.of_clean {parsed : Strict.Parsed} (h : Agrees fits means o parsed)
    (hc : o.complaints = []) :
    ∃ a trees, o.result = some a ∧ parsed = .ok (trees, o.rest) ∧ means trees a ∧ fits trees ∧
      badTargetsAll trees = [] := by
  cases h with
  | clean value shallow blame => exact ⟨_, _, rfl, rfl, value, shallow, blame.eq_nil_iff.1 hc⟩
  | refused before after complaints blame error => simp [hc] at complaints
  | tooDeep before after complaints blame error deep => simp [hc] at complaints

theorem Agrees.of_ok {trees : List Tree} {rest : List Token}
    (h : Agrees fits means o (.ok (trees, rest))) (hf : fits trees)
    (hb : badTargetsAll trees = []) : ∃ a, o = ⟨some a, rest, []⟩ ∧ means trees a := by
  cases h with
  | clean value shallow blame =>
    rw [hb] at blame
    exact ⟨_, by rw [blame.eq_nil_iff.2 rfl], value⟩
  | tooDeep before after complaints blame error deep => exact absurd hf (deep trees rest rfl).1

end

variable {us vs : List Token}

/-- A declaration that is dropped is complained about. -/
theorem exists_node_of_clean {n : Nat} (hc : (declaration (deeperWithin n) us).complaints = []) :
    ∃ node, (declaration (deeperWithin n) us).result = some (some node) := by
  have hf := declaration_follows (deeperWithin_follows n) us
  obtain ⟨_, -, hr, -, ⟨node, rfl, -⟩, -⟩ := hf.of_clean hc
  exact ⟨node, hr⟩

theorem declaration_append {n : Nat} (hc : (declaration (deeperWithin n) us).complaints = [])
    (hv : ∀ t ∈ ((declaration (deeperWithin n) us).rest ++ vs).head?, t.kind ≠ .kwElse) :
    declaration (deeperWithin n) (us ++ vs) = ⟨(declaration (deeperWithin n) us).result,
      (declaration (deeperWithin n) us).rest ++ vs, []⟩ := by
  have hf := declaration_follows (deeperWithin_follows n)
  obtain ⟨_, trees, hr, hp, ⟨node, rfl, hm⟩, hfits, hb⟩ := (hf us).of_clean hc
  have ha := hf (us ++ vs)
  rw [reading_append hp (by simpa [Rule.extenders] using hv)] at ha
  obtain ⟨_, ho, node', rfl, hm'⟩ := ha.of_ok hfits hb
  rw [hm, List.singleton_inj, Meaning.node.injEq] at hm'
  rw [ho, hr, hm']

/-- No declaration starts with an `else`. -/
theorem not_kwElse_of_clean (hc : (program us).2 = []) : ∀ t ∈ us.head?, t.kind ≠ .kwElse := by
  intro t ht hk
  obtain ⟨ts, rfl⟩ := List.head?_eq_some_iff.1 ht
  rw [program_of_ne_nil (List.cons_ne_nil t ts), List.append_eq_nil_iff] at hc
  have hf := declaration_follows (deeperWithin_follows maxNesting) (t :: ts)
  obtain ⟨-, trees, -, hp, -⟩ := hf.of_clean hc.1
  rw [reading_of_not_canStart rfl rfl (by simp [canStart, Pattern.startsWith, hk, Rule.starters,
    statementStarters, expressionStarters])] at hp
  cases hp

/-- What comes after a program without complaints is parsed as if it stood alone. -/
theorem program_append {us vs : List Token} (hc : (program us).2 = [])
    (hv : ∀ t ∈ vs.head?, t.kind ≠ .kwElse) :
    program (us ++ vs) = ((program us).1 ++ (program vs).1, (program vs).2) := by
  by_cases hn : us = []
  · subst hn
    rfl
  · rw [program_of_ne_nil hn, List.append_eq_nil_iff] at hc
    have hlt := length_rest_declaration_lt maxNesting hn
    -- What is left of the first program, which is in order, does not start with an else either.
    have hstart : ∀ u ∈ ((declaration (deeperWithin maxNesting) us).rest ++ vs).head?,
        u.kind ≠ .kwElse := by
      intro u hu
      rw [List.head?_append] at hu
      obtain hu | ⟨-, hu⟩ := Option.or_eq_some_iff.1 hu
      · exact not_kwElse_of_clean hc.2 u hu
      · exact hv u hu
    rw [program_of_ne_nil (List.append_ne_nil_of_left_ne_nil hn vs),
      declaration_append hc.1 hstart, program_of_ne_nil hn]
    dsimp only
    rw [program_append hc.2 hv, List.append_assoc, List.nil_append]
termination_by us.length

end Parser

end LetLang
