import LetLang.Proofs.Grammar.Uniqueness

namespace LetLang.Strict

section
variable {first word other : Token} {uc ut ue : List Token} {c t e : Tree}

theorem Derives.ifThen (hf : first.kind = .kwIf) (hw : word.kind = .kwThen)
    (hc : Derives (.rule .expression) uc [c]) (ht : Derives (.rule .statement) ut [t]) :
    Derives (.rule .ifStmt) (first :: (uc ++ word :: ut)) [.node .ifStmt [c, t]] := by
  have h := Derives.rule (r := .ifStmt)
    (.seq (.skip hf) (.seq hc (.seq (.skip hw) (.seq ht .absent))))
  simpa [Rule.tree, Rule.isTransparent] using h

theorem Derives.ifElse (hf : first.kind = .kwIf) (hw : word.kind = .kwThen)
    (ho : other.kind = .kwElse) (hc : Derives (.rule .expression) uc [c])
    (ht : Derives (.rule .statement) ut [t]) (he : Derives (.rule .statement) ue [e]) :
    Derives (.rule .ifStmt) (first :: (uc ++ word :: (ut ++ other :: ue)))
      [.node .ifStmt [c, t, e]] := by
  have h := Derives.rule (r := .ifStmt)
    (.seq (.skip hf) (.seq hc (.seq (.skip hw) (.seq ht (.present (.seq (.skip ho) he))))))
  simpa [Rule.tree, Rule.isTransparent] using h

end

theorem Derives.statement_of_ifStmt {us : List Token} {tree : Tree}
    (h : Derives (.rule .ifStmt) us [tree]) : Derives (.rule .statement) us [tree] :=
  .rule (r := .statement) (.eitherFirst h)

/-- Only a condition can take an `else`. -/
theorem Derives.ifStmt_of_openIf {us : List Token} {tree : Tree}
    (h : Derives (.rule .statement) us [tree]) (ho : tree.openIf = true) :
    Derives (.rule .ifStmt) us [tree] := by
  obtain ⟨children, hc, ht⟩ := derives_rule_iff.1 h
  obtain hif | hother := derives_either_iff.1 hc
  · obtain ⟨child, rfl⟩ := hif.exists_tree
    cases ht
    exact hif
  · have hclosed := openIf_of_derives_statement hother
    obtain ⟨child, rfl⟩ : ∃ child, children = [child] := by
      simp only [Pattern.oneOf, derives_either_iff] at hother
      obtain h | h | h | h := hother <;> exact h.exists_tree
    cases ht
    rw [hclosed tree (List.mem_singleton_self _)] at ho
    cases ho

/-- A statement that could take an `else` takes it, at its last open condition. -/
theorem exists_attached {us ue : List Token} {other : Token} {tree e : Tree}
    (h : Derives (.rule .statement) us [tree]) (ho : tree.openIf = true)
    (hn : tree.elsesNearest = true) (hk : other.kind = .kwElse)
    (he : Derives (.rule .statement) ue [e]) (hne : e.elsesNearest = true) :
    ∃ attached, Derives (.rule .ifStmt) (us ++ other :: ue) [attached] ∧
      attached.elsesNearest = true := by
  -- On the length of the statement: the last open condition may be in a branch.
  induction hl : us.length using Nat.strongRecOn generalizing us tree with
  | _ n ih =>
    obtain ⟨first, uc, c, word, ut, t, hf, hw, hc, ht, ⟨rfl, htree⟩ |
      ⟨other', ue', e', ho', he', rfl, htree⟩⟩ := derives_ifStmt (h.ifStmt_of_openIf ho)
    · cases htree
      simp only [Tree.elsesNearest, Rule.nearestElse, elsesNearestAll, Bool.and_eq_true,
        Bool.true_and, and_true] at hn
      cases hto : t.openIf with
      | false =>
        refine ⟨_, by simpa using Derives.ifElse hf hw hk hc ht he, ?_⟩
        simp [Tree.elsesNearest, Rule.nearestElse, elsesNearestAll, hto, hn, hne]
      | true =>
        obtain ⟨attached, hd, ha⟩ := ih ut.length (by simp at hl; omega) ht hto hn.2 rfl
        refine ⟨_, by simpa using Derives.ifThen hf hw hc hd.statement_of_ifStmt, ?_⟩
        simp [Tree.elsesNearest, Rule.nearestElse, elsesNearestAll, hn, ha]
    · cases htree
      simp only [Tree.elsesNearest, Rule.nearestElse, elsesNearestAll, Bool.and_eq_true,
        and_true] at hn
      obtain ⟨attached, hd, ha⟩ := ih ue'.length (by simp at hl; omega) he' ho hn.2.2.2 rfl
      refine ⟨_, by simpa using Derives.ifElse hf hw ho' hc ht hd.statement_of_ifStmt, ?_⟩
      simp [Tree.elsesNearest, Rule.nearestElse, elsesNearestAll, hn, ha]

/-- A condition whose own parts are in order can be put in order. -/
theorem exists_nearest_ifStmt {us : List Token} {children : List Tree}
    (h : Derives Rule.ifStmt.pattern us children) (hn : elsesNearestAll children = true)
    (hr : Rule.ifStmt.nearestElse children = false) :
    ∃ tree, Derives (.rule .ifStmt) us [tree] ∧ tree.elsesNearest = true := by
  obtain ⟨first, uc, c, word, ut, t, hf, hw, hc, ht, ⟨rfl, htree⟩ |
    ⟨other, ue, e, ho, he, rfl, htree⟩⟩ := derives_ifStmt (.rule h)
  · rw [Rule.tree_eq_node rfl] at htree
    cases htree
    cases hr
  · rw [Rule.tree_eq_node rfl] at htree
    cases htree
    simp only [elsesNearestAll, Bool.and_eq_true, and_true] at hn
    have hto : t.openIf = true := by simpa [Rule.nearestElse] using hr
    obtain ⟨attached, hd, ha⟩ := exists_attached ht hto hn.2.1 ho he hn.2.2
    refine ⟨_, Derives.ifThen hf hw hc hd.statement_of_ifStmt, ?_⟩
    simp [Tree.elsesNearest, Rule.nearestElse, elsesNearestAll, hn, ha]

/-- Every text of a pattern has trees with nearest elses. -/
theorem Derives.exists_nearest {p : Pattern} {us : List Token} {trees : List Tree}
    (h : Derives p us trees) :
    ∃ nearest, Derives p us nearest ∧ elsesNearestAll nearest = true := by
  induction h with
  | @keep kinds t h => exact ⟨_, .keep h, rfl⟩
  | skip h => exact ⟨_, .skip h, rfl⟩
  | absent => exact ⟨_, .absent, rfl⟩
  | done => exact ⟨_, .done, rfl⟩
  | @rule r us children h ih =>
    obtain ⟨nearest, hd, hn⟩ := ih
    cases hr : r.nearestElse nearest with
    | true => exact ⟨_, .rule hd, Rule.elsesNearest_tree hr hn⟩
    | false =>
      -- the other rules have no `else`
      obtain rfl : r = .ifStmt := by
        cases r <;> first | rfl | cases hr
      obtain ⟨tree, ht, hnearest⟩ := exists_nearest_ifStmt hd hn hr
      exact ⟨[tree], ht, by rw [elsesNearestAll, hnearest]; rfl⟩
  | seq _ _ iha ihb =>
    obtain ⟨left, ha, hl⟩ := iha
    obtain ⟨right, hb, hr⟩ := ihb
    exact ⟨_, .seq ha hb, by rw [elsesNearestAll_append, hl, hr]; rfl⟩
  | more _ _ iha ihb =>
    obtain ⟨left, ha, hl⟩ := iha
    obtain ⟨right, hb, hr⟩ := ihb
    exact ⟨_, .more ha hb, by rw [elsesNearestAll_append, hl, hr]; rfl⟩
  | eitherFirst _ ih =>
    obtain ⟨nearest, hd, hn⟩ := ih
    exact ⟨_, .eitherFirst hd, hn⟩
  | eitherSecond _ ih =>
    obtain ⟨nearest, hd, hn⟩ := ih
    exact ⟨_, .eitherSecond hd, hn⟩
  | present _ ih =>
    obtain ⟨nearest, hd, hn⟩ := ih
    exact ⟨_, .present hd, hn⟩

/-- The tokens that can be derived as a program are those that have a tree with its elses at their
nearest conditions. -/
theorem exists_isTreeOf_iff {tokens : List Token} :
    (∃ tree, IsTreeOf tree tokens) ↔ ∃ trees, Derives (.rule .program) tokens trees := by
  constructor
  · rintro ⟨tree, h⟩
    exact ⟨_, h.derives⟩
  · rintro ⟨trees, h⟩
    obtain ⟨nearest, hd, hn⟩ := h.exists_nearest
    obtain ⟨tree, rfl⟩ := hd.exists_tree
    exact ⟨tree, hd, by simpa [elsesNearestAll] using hn⟩

end LetLang.Strict
