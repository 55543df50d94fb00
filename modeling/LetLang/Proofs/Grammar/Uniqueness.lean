import LetLang.Proofs.Grammar.Completeness

namespace LetLang.Strict

/-- What reading a condition comes down to. -/
theorem reading_ifStmt_cases {ts rest : List Token} {trees : List Tree}
    (h : reading (.rule .ifStmt) ts = .ok (trees, rest)) :
    ∃ c t ts' mid, ts'.length < ts.length ∧ reading (.rule .statement) ts' = .ok ([t], mid) ∧
      ((trees = [.node .ifStmt [c, t]] ∧ mid = rest ∧ ∀ u ∈ rest.head?, u.kind ≠ .kwElse) ∨
        ∃ other last e, other.kind = .kwElse ∧ mid = other :: last ∧ last.length < ts.length ∧
          reading (.rule .statement) last = .ok ([e], rest) ∧
          trees = [.node .ifStmt [c, t, e]]) := by
  obtain ⟨children, hc, rfl⟩ := reading_rule_eq_ok_iff.1 h
  obtain ⟨_, ts₁, _, hif, h₁, rfl⟩ := (reading_seq_eq_ok_iff rfl).1 hc
  obtain ⟨_, -, rfl, rfl⟩ := reading_skip_eq_ok_iff.1 hif
  obtain ⟨cs, ts₂, _, hcond, h₂, rfl⟩ := (reading_seq_eq_ok_iff rfl).1 h₁
  obtain ⟨c, rfl⟩ := exists_tree_of_reading hcond
  obtain ⟨_, ts₃, _, hword, h₃, rfl⟩ := (reading_seq_eq_ok_iff rfl).1 h₂
  obtain ⟨_, -, rfl, rfl⟩ := reading_skip_eq_ok_iff.1 hword
  obtain ⟨_, mid, es, hthen, helse, rfl⟩ := (reading_seq_eq_ok_iff rfl).1 h₃
  obtain ⟨t, rfl⟩ := exists_tree_of_reading hthen
  have hl := length_lt_of_reading rfl hcond
  have hl' := length_lt_of_reading rfl hthen
  simp only [List.length_cons] at hl
  refine ⟨c, t, ts₃, mid, by simp only [List.length_cons]; omega, hthen, ?_⟩
  -- An else is taken whenever there is one, so without a second branch none can follow.
  rw [Pattern.sequence, reading_optional rfl] at helse
  split at helse
  · obtain ⟨_, last, _, hother, he, rfl⟩ := (reading_seq_eq_ok_iff rfl).1 helse
    obtain ⟨other, ho, rfl, rfl⟩ := reading_skip_eq_ok_iff.1 hother
    obtain ⟨e, rfl⟩ := exists_tree_of_reading he
    simp only [List.length_cons] at hl'
    exact .inr ⟨other, last, e, ho, rfl, by simp only [List.length_cons]; omega, he, rfl⟩
  · next hstart =>
    simp only [Except.ok.injEq, Prod.mk.injEq] at helse
    obtain ⟨rfl, rfl⟩ := helse
    refine .inl ⟨rfl, rfl, fun u hu hk => hstart ?_⟩
    cases mid with
    | nil => cases hu
    | cons v mid =>
      cases hu
      simp [canStart, Pattern.startsWith, hk]

theorem openIf_of_derives_statement {us : List Token} {trees : List Tree}
    (h : Derives (.oneOf (.rule .printStmt) [.rule .forStmt, .rule .whileStmt, .rule .exprStmt])
      us trees) : ∀ tree ∈ trees, tree.openIf = false := by
  simp only [Pattern.oneOf, derives_either_iff, derives_rule_iff] at h
  obtain ⟨_, -, rfl⟩ | ⟨_, -, rfl⟩ | ⟨_, -, rfl⟩ | ⟨_, -, rfl⟩ := h <;>
    simp [Rule.tree, Rule.isTransparent, Tree.openIf]

/-- A statement that could take an `else` is read only where none follows. -/
theorem not_kwElse_of_reading {ts rest : List Token} {tree : Tree}
    (h : reading (.rule .statement) ts = .ok ([tree], rest)) (ho : tree.openIf = true) :
    ∀ u ∈ rest.head?, u.kind ≠ .kwElse := by
  obtain ⟨n, hn⟩ : ∃ n, ts.length ≤ n := ⟨_, Nat.le_refl _⟩
  induction n generalizing ts tree rest with
  | zero =>
    have := length_lt_of_reading rfl h
    omega
  | succ n ih =>
    obtain ⟨children, hc, hch⟩ := reading_rule_eq_ok_iff.1 h
    rw [Rule.pattern, Pattern.oneOf, reading_either rfl] at hc
    split at hc
    · obtain ⟨c, t, ts', mid, -, -, ⟨rfl, rfl, hr⟩ | ⟨other, last, e, -, -, hl, he, rfl⟩⟩ :=
        reading_ifStmt_cases hc
      · exact hr
      · obtain ⟨rfl⟩ := hch
        -- With an else it is the last branch that is open, and that is read up to the same place.
        exact ih he ho (by omega)
    · obtain ⟨us, -, hd⟩ := derives_of_reading hc
      obtain ⟨u, rfl⟩ : ∃ u, children = [u] := by
        simp only [Pattern.oneOf, derives_either_iff] at hd
        obtain h | h | h | h := hd <;> exact h.exists_tree
      obtain ⟨rfl⟩ := hch
      have hclosed := openIf_of_derives_statement hd
      rw [hclosed tree (by simp)] at ho
      cases ho

theorem nearestElse_of_reading {r : Rule} {ts rest : List Token} {children : List Tree}
    (h : reading r.pattern ts = .ok (children, rest)) : r.nearestElse children = true := by
  by_cases hr : r = .ifStmt
  · subst hr
    obtain ⟨c, t, ts', mid, -, ht, ⟨hc, -, -⟩ | ⟨other, last, e, ho, rfl, -, -, hc⟩⟩ :=
      reading_ifStmt_cases (reading_rule_eq_ok_iff.2 ⟨children, h, rfl⟩)
    · rw [Rule.tree_eq_node rfl] at hc
      obtain ⟨rfl⟩ := hc
      rfl
    · rw [Rule.tree_eq_node rfl] at hc
      obtain ⟨rfl⟩ := hc
      simpa [Rule.nearestElse] using fun hopen => not_kwElse_of_reading ht hopen other rfl ho
  · unfold Rule.nearestElse
    split
    · exact absurd rfl hr
    · rfl

theorem elsesNearest_of_reading {p : Pattern} {ts rest : List Token} {trees : List Tree}
    (hp : p.isProper = true) (h : reading p ts = .ok (trees, rest)) :
    elsesNearestAll trees = true := by
  -- on the depth that the reading takes, since the rules refer to each other
  obtain ⟨n, hn⟩ : ∃ n, p.depthFor ts ≤ n := ⟨_, Nat.le_refl _⟩
  induction n generalizing p ts trees rest with
  | zero => exact absurd hn (p.not_depthFor_le_zero ts)
  | succ n ih =>
    cases p with
    | keep kinds =>
      obtain ⟨t, -, -, rfl⟩ := reading_keep_eq_ok_iff.1 h
      rfl
    | skip kind =>
      obtain ⟨t, -, -, rfl⟩ := reading_skip_eq_ok_iff.1 h
      rfl
    | rule r =>
      obtain ⟨children, hc, rfl⟩ := reading_rule_eq_ok_iff.1 h
      exact Rule.elsesNearest_tree (nearestElse_of_reading hc)
        (ih r.isProper_pattern hc (Pattern.depthFor_rule hn))
    | seq a b =>
      obtain ⟨left, mid, right, ha, hb, rfl⟩ := (reading_seq_eq_ok_iff hp).1 h
      obtain ⟨hab, -⟩ := Pattern.isProper_seq hp
      rw [elsesNearestAll_append, Bool.and_eq_true]
      exact ⟨ih hab.1 ha (Pattern.depthFor_first hn),
        ih hab.2 hb (Pattern.depthFor_second hp hn ha)⟩
    | either a b =>
      have hab := Pattern.isProper_either hp
      have hd := Pattern.depthFor_either hn
      rw [reading_either hp] at h
      split at h
      · exact ih hab.1 h hd.1
      · exact ih hab.2 h hd.2
    | optional p =>
      have hp' : p.isProper = true := hp
      rw [reading_optional hp'] at h
      split at h
      · exact ih hp' h (Pattern.depthFor_optional hn)
      · cases h
        rfl
    | many p =>
      have hpp := Pattern.isProper_many hp
      rw [reading_many hp] at h
      split at h
      · obtain ⟨first, mid, others, hf, ho, rfl⟩ := andThen_eq_ok_iff.1 h
        have hl := length_lt_of_reading hpp.2 hf
        rw [elsesNearestAll_append, Bool.and_eq_true]
        exact ⟨ih hpp.1 hf (Pattern.depthFor_pass hn (Nat.le_refl _)),
          ih hp ho (Pattern.depthFor_passes hn hl)⟩
      · cases h
        rfl

theorem reading_program_iff {ts : List Token} {tree : Tree} :
    reading (.rule .program) ts = .ok ([tree], []) ↔ IsTreeOf tree ts := by
  constructor
  · intro h
    obtain ⟨us, hu, hd⟩ := derives_of_reading h
    rw [List.append_nil] at hu
    have hn := elsesNearest_of_reading rfl h
    rw [elsesNearestAll, elsesNearestAll, Bool.and_true] at hn
    exact ⟨hu ▸ hd, hn⟩
  · intro h
    have hr := foundWithin _ _ ts [tree] [] (Nat.le_refl _) h.derives rfl rfl
      (by simp [elsesNearestAll, h.nearest]) (.of_not_extends (by simp) _)
    simpa using hr

/-- A program has one tree. -/
theorem IsTreeOf.unique {tokens : List Token} {tree other : Tree} (h : IsTreeOf tree tokens)
    (h' : IsTreeOf other tokens) : tree = other := by
  have hr := (reading_program_iff.2 h).symm.trans (reading_program_iff.2 h')
  simpa using hr

theorem readProgram_eq (ts : List Token) :
    readProgram ts =
      match reading (.rule .program) ts with
      | .error ts => .error ts
      | .ok (trees, []) => .ok trees
      | .ok (_, t :: ts) => .error (t :: ts) := by
  have hd : (Pattern.rule .program).depthFor ts ≤ depthPerToken * (ts.length + 1) := by
    simp only [Pattern.depthFor, Pattern.rank_rule, Rule.rank, depthPerToken]
    omega
  rw [← read_eq_reading rfl hd]
  rfl

/-- Reading accepts the language of the grammar, and gives the tree of the text. -/
theorem readProgram_eq_ok_iff {ts : List Token} {trees : List Tree} :
    readProgram ts = .ok trees ↔ ∃ tree, trees = [tree] ∧ IsTreeOf tree ts := by
  rw [readProgram_eq]
  constructor
  · intro h
    split at h
    · cases h
    · next found hr =>
      cases h
      obtain ⟨tree, rfl⟩ := exists_tree_of_reading hr
      exact ⟨tree, rfl, reading_program_iff.1 hr⟩
    · cases h
  · rintro ⟨tree, rfl, h⟩
    rw [reading_program_iff.2 h]

end LetLang.Strict
