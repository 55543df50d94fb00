import LetLang.Proofs.Grammar.Lookahead

namespace LetLang.Strict

/-- The two shapes of a condition. -/
theorem derives_ifStmt {us : List Token} {trees : List Tree}
    (h : Derives (.rule .ifStmt) us trees) :
    ∃ first uc c word ut t, first.kind = .kwIf ∧ word.kind = .kwThen ∧
      Derives (.rule .expression) uc [c] ∧ Derives (.rule .statement) ut [t] ∧
      ((us = first :: (uc ++ word :: ut) ∧ trees = [.node .ifStmt [c, t]]) ∨
        ∃ other ue e, other.kind = .kwElse ∧ Derives (.rule .statement) ue [e] ∧
          us = first :: (uc ++ word :: (ut ++ other :: ue)) ∧
          trees = [.node .ifStmt [c, t, e]]) := by
  obtain ⟨children, hc, rfl⟩ := derives_rule_iff.1 h
  simp only [Rule.pattern, Pattern.sequence, derives_seq_iff, derives_skip_iff,
    derives_optional_iff] at hc
  obtain ⟨_, _, _, _, rfl, rfl, ⟨first, hf, rfl, rfl⟩, uc, _, cs, _, rfl, rfl, hcond,
    _, _, _, _, rfl, rfl, ⟨word, hw, rfl, rfl⟩, ut, _, ts, _, rfl, rfl, hthen, helse⟩ := hc
  obtain ⟨c, rfl⟩ := hcond.exists_tree
  obtain ⟨t, rfl⟩ := hthen.exists_tree
  refine ⟨first, uc, c, word, ut, t, hf, hw, hcond, hthen, ?_⟩
  obtain ⟨rfl, rfl⟩ | ⟨_, ue, _, es, rfl, rfl, ⟨other, ho, rfl, rfl⟩, helse⟩ := helse
  · exact .inl ⟨by simp, rfl⟩
  · obtain ⟨e, rfl⟩ := helse.exists_tree
    exact .inr ⟨other, ue, e, ho, helse, by simp, rfl⟩

/-- The pieces of a condition are read one after another. -/
theorem reading_ifStmt {first word : Token} {uc : List Token} {c t : Tree} {es : List Tree}
    {mid rest : List Token} (hf : first.kind = .kwIf) (hw : word.kind = .kwThen)
    (hc : reading (.rule .expression) (uc ++ word :: mid) = .ok ([c], word :: mid))
    {l : List Token} (ht : reading (.rule .statement) mid = .ok ([t], l))
    (he : reading (.optional (.seq (.skip .kwElse) (.rule .statement))) l = .ok (es, rest)) :
    reading (.rule .ifStmt) (first :: (uc ++ word :: mid)) =
      .ok ([.node .ifStmt (c :: t :: es)], rest) := by
  refine reading_rule_eq_ok_iff.2 ⟨c :: t :: es, ?_, rfl⟩
  refine (reading_seq_eq_ok_iff rfl).2 ⟨[], _, c :: t :: es,
    reading_skip_eq_ok_iff.2 ⟨first, hf, rfl, rfl⟩, ?_, rfl⟩
  refine (reading_seq_eq_ok_iff rfl).2 ⟨[c], _, t :: es, hc, ?_, rfl⟩
  refine (reading_seq_eq_ok_iff rfl).2 ⟨[], _, t :: es,
    reading_skip_eq_ok_iff.2 ⟨word, hw, rfl, rfl⟩, ?_, rfl⟩
  exact (reading_seq_eq_ok_iff rfl).2 ⟨[t], _, es, ht, he, rfl⟩

/-- What follows does not belong to the text. After a condition an `else` may follow if it is
closed. -/
def Stops (p : Pattern) (trees : List Tree) (rest : List Token) : Prop :=
  ∀ t ∈ rest.head?, p.extendsWith t.kind = false ∨
    (t.kind = .kwElse ∧ (p = .rule .ifStmt ∨ p = .rule .statement) ∧
      ∀ tree ∈ trees, tree.openIf = false)

/-- Texts that a bounded depth suffices for are read with the trees that they derive. -/
def FoundWithin (depth : Nat) : Prop :=
  ∀ (p : Pattern) (us : List Token) (trees : List Tree) (rest : List Token),
    p.depthFor us ≤ depth → Derives p us trees → p.isProper = true → p.isDeterministic = true →
    elsesNearestAll trees = true → Stops p trees rest → reading p (us ++ rest) = .ok (trees, rest)

theorem Pattern.depthFor_lt {p : Pattern} {us vs : List Token} {n : Nat}
    (hp : p.rank ≤ depthPerToken) (hv : vs.length < us.length) (h : depthPerToken * us.length ≤ n) :
    p.depthFor vs ≤ n := by
  unfold depthFor
  simp only [depthPerToken] at *
  omega

theorem Stops.of_not_extends {p : Pattern} {rest : List Token}
    (h : ∀ t ∈ rest.head?, p.extendsWith t.kind = false) (trees : List Tree) :
    Stops p trees rest :=
  fun t ht => .inl (h t ht)

theorem Stops.not_extends {p : Pattern} {trees : List Tree} {rest : List Token}
    (h : Stops p trees rest) (hp : p ≠ .rule .ifStmt) (hp' : p ≠ .rule .statement) :
    ∀ t ∈ rest.head?, p.extendsWith t.kind = false := by
  intro t ht
  obtain h | ⟨-, rfl | rfl, -⟩ := h t ht
  · exact h
  · exact absurd rfl hp
  · exact absurd rfl hp'

theorem Stops.statement {tree : Tree} {rest : List Token}
    (h : ∀ t ∈ rest.head?, t.kind = .kwElse → tree.openIf = false) :
    Stops (.rule .statement) [tree] rest := by
  intro t ht
  by_cases hk : t.kind = .kwElse
  · exact .inr ⟨hk, .inr rfl, by simpa using h t ht hk⟩
  · exact .inl (by simpa [Pattern.extendsWith, Rule.extenders] using hk)

/-- An `else` stops a condition only when it is closed. -/
theorem Stops.closed {r : Rule} {tree : Tree} {rest : List Token}
    (h : Stops (.rule r) [tree] rest) (hr : r.extenders = [.kwElse]) :
    ∀ t ∈ rest.head?, t.kind = .kwElse → tree.openIf = false := by
  intro t ht hk
  obtain h | ⟨-, -, h⟩ := h t ht
  · simp [Pattern.extendsWith, hr, hk] at h
  · exact h tree (by simp)

/-- One rule inside another, on fewer tokens. -/
theorem FoundWithin.inside {n : Nat} (ih : FoundWithin n) {r : Rule} {us vs rest : List Token}
    {t : Tree} (hn : depthPerToken * us.length ≤ n) (hl : vs.length < us.length)
    (h : Derives (.rule r) vs [t]) (he : t.elsesNearest = true) (hs : Stops (.rule r) [t] rest) :
    reading (.rule r) (vs ++ rest) = .ok ([t], rest) :=
  ih _ _ _ _ (Pattern.depthFor_lt r.rank_le hl hn) h rfl rfl (by simp [elsesNearestAll, he]) hs

theorem FoundWithin.ifStmt {n : Nat} (ih : FoundWithin n) {us : List Token} {trees : List Tree}
    {rest : List Token} (hn : (Pattern.rule .ifStmt).depthFor us ≤ n + 1)
    (h : Derives (.rule .ifStmt) us trees) (he : elsesNearestAll trees = true)
    (hs : Stops (.rule .ifStmt) trees rest) :
    reading (.rule .ifStmt) (us ++ rest) = .ok (trees, rest) := by
  have hus : depthPerToken * us.length ≤ n := by
    rw [Pattern.depthFor, Pattern.rank_rule] at hn
    omega
  obtain ⟨first, uc, c, word, ut, t, hf, hw, hc, ht, ⟨rfl, rfl⟩ | ⟨other, ue, e, ho, hde, rfl, rfl⟩⟩ :=
    derives_ifStmt h
  · -- without an alternative, what follows must not be taken for one
    have hnear : c.elsesNearest = true ∧ t.elsesNearest = true := by
      simpa [elsesNearestAll, Tree.elsesNearest, Rule.nearestElse] using he
    have hclosed : ∀ u ∈ rest.head?, u.kind ≠ .kwElse := fun u hu hk => by
      simpa [Tree.openIf] using hs.closed rfl u hu hk
    rw [List.cons_append, List.append_assoc, List.cons_append]
    apply reading_ifStmt hf hw
    · refine ih.inside hus (by simp only [List.length_cons, List.length_append]; omega) hc hnear.1 ?_
      exact .of_not_extends (by simp [hw]; rfl) _
    · refine ih.inside hus (by simp only [List.length_cons, List.length_append]; omega) ht hnear.2 ?_
      exact .statement fun u hu hk => absurd hk (hclosed u hu)
    · rw [reading_optional rfl, if_neg]
      cases rest with
      | nil => simp [canStart]
      | cons u rest =>
        simpa [canStart, Pattern.startsWith] using hclosed u rfl
  · -- with one, the branch before it is closed: otherwise the word would belong in there
    have hnear : t.openIf = false ∧ c.elsesNearest = true ∧ t.elsesNearest = true ∧
        e.elsesNearest = true := by
      simpa [elsesNearestAll, Tree.elsesNearest, Rule.nearestElse] using he
    obtain ⟨hopen, hnc, hnt, hne⟩ := hnear
    simp only [List.cons_append, List.append_assoc]
    apply reading_ifStmt (l := other :: (ue ++ rest)) hf hw
    · refine ih.inside hus (by simp only [List.length_cons, List.length_append]; omega) hc hnc ?_
      exact .of_not_extends (by simp [hw]; rfl) _
    · refine ih.inside hus (by simp only [List.length_cons, List.length_append]; omega) ht hnt ?_
      exact .statement fun _ _ _ => hopen
    · rw [reading_optional rfl, if_pos (by simp [canStart, Pattern.startsWith, ho])]
      refine (reading_seq_eq_ok_iff rfl).2 ⟨[], _, [e],
        reading_skip_eq_ok_iff.2 ⟨other, ho, rfl, rfl⟩, ?_, rfl⟩
      refine ih.inside hus (by simp only [List.length_cons, List.length_append]; omega) hde hne ?_
      exact .statement fun u hu hk => by simpa [Tree.openIf] using hs.closed rfl u hu hk

theorem Pattern.isDeterministic_either {a b : Pattern}
    (h : (Pattern.either a b).isDeterministic = true) :
    (a.isDeterministic = true ∧ b.isDeterministic = true) ∧
      (a.isSolid = true ∧ a.canBeEmpty = false) ∧ (b.isSolid = true ∧ b.canBeEmpty = false) ∧
      ∀ k, a.startsWith k = false ∨ b.startsWith k = false := by
  simp only [isDeterministic, Bool.and_eq_true, Bool.not_eq_true', List.all_eq_true,
    Bool.or_eq_true] at h
  obtain ⟨⟨⟨hd, ha⟩, hb⟩, hk⟩ := h
  exact ⟨hd, ha, hb, fun k => hk k k.mem_all⟩

/-- The first token shows which alternative a text belongs to. -/
theorem reading_either_first {a b : Pattern} (hp : (Pattern.either a b).isProper = true)
    (hd : (Pattern.either a b).isDeterministic = true) {us : List Token} {trees : List Tree}
    (h : Derives a us trees) (rest : List Token) :
    reading (.either a b) (us ++ rest) = reading a (us ++ rest) := by
  obtain ⟨-, ⟨hs, he⟩, -⟩ := Pattern.isDeterministic_either hd
  rw [reading_either hp, if_pos (h.canStart hs he rest)]

theorem reading_either_second {a b : Pattern} (hp : (Pattern.either a b).isProper = true)
    (hd : (Pattern.either a b).isDeterministic = true) {us : List Token} {trees : List Tree}
    (h : Derives b us trees) (rest : List Token) :
    reading (.either a b) (us ++ rest) = reading b (us ++ rest) := by
  obtain ⟨-, -, ⟨hs, he⟩, hk⟩ := Pattern.isDeterministic_either hd
  rw [reading_either hp, if_neg]
  obtain ⟨u, us, rfl⟩ := List.exists_cons_of_ne_nil (h.ne_nil he)
  have hb := h.startsWith hs u rfl
  obtain ha | ha := hk u.kind
  · simp [canStart, ha]
  · simp [hb] at ha

theorem FoundWithin.either {n : Nat} (ih : FoundWithin n) {a b : Pattern} {us : List Token}
    {trees : List Tree} {rest : List Token} (hn : (Pattern.either a b).depthFor us ≤ n + 1)
    (h : Derives (.either a b) us trees) (hp : (Pattern.either a b).isProper = true)
    (hd : (Pattern.either a b).isDeterministic = true) (he : elsesNearestAll trees = true)
    (hs : ∀ t ∈ rest.head?, (Pattern.either a b).extendsWith t.kind = false) :
    reading (.either a b) (us ++ rest) = .ok (trees, rest) := by
  simp only [Pattern.extendsWith, Bool.or_eq_false_iff] at hs
  have hpab := Pattern.isProper_either hp
  have hdepth := Pattern.depthFor_either hn
  obtain ⟨⟨hda, hdb⟩, -⟩ := Pattern.isDeterministic_either hd
  obtain h | h := derives_either_iff.1 h
  · rw [reading_either_first hp hd h]
    exact ih _ _ _ _ hdepth.1 h hpab.1 hda he
      (.of_not_extends (fun t ht => (hs t ht).1) _)
  · rw [reading_either_second hp hd h]
    exact ih _ _ _ _ hdepth.2 h hpab.2 hdb he
      (.of_not_extends (fun t ht => (hs t ht).2) _)

theorem FoundWithin.seq {n : Nat} (ih : FoundWithin n) {a b : Pattern} {us : List Token}
    {trees : List Tree} {rest : List Token} (hn : (Pattern.seq a b).depthFor us ≤ n + 1)
    (h : Derives (.seq a b) us trees) (hp : (Pattern.seq a b).isProper = true)
    (hd : (Pattern.seq a b).isDeterministic = true) (he : elsesNearestAll trees = true)
    (hs : ∀ t ∈ rest.head?, (Pattern.seq a b).extendsWith t.kind = false) :
    reading (.seq a b) (us ++ rest) = .ok (trees, rest) := by
  obtain ⟨vs, ws, left, right, rfl, rfl, ha, hb⟩ := derives_seq_iff.1 h
  simp only [Pattern.extendsWith, Bool.or_eq_false_iff, Bool.and_eq_false_iff] at hs
  have hpab := Pattern.isProper_seq hp
  simp only [Pattern.isDeterministic, Bool.and_eq_true, List.all_eq_true, Bool.or_eq_true,
    Bool.not_eq_true'] at hd
  obtain ⟨⟨hda, hdb⟩, hk⟩ := hd
  rw [elsesNearestAll_append, Bool.and_eq_true] at he
  have hdepth : a.depthFor vs ≤ n ∧ b.depthFor ws ≤ n := by
    simp only [Pattern.depthFor, Pattern.rank_seq, depthPerToken, List.length_append] at hn hpab ⊢
    split at hn
    · omega
    · next hne =>
      have := List.length_pos_iff.2 (ha.ne_nil (by simpa using hne))
      omega
  rw [List.append_assoc]
  refine (reading_seq_eq_ok_iff hp).2 ⟨left, ws ++ rest, right, ?_, ?_, rfl⟩
  · apply ih _ _ _ _ hdepth.1 ha hpab.1.1 hda he.1
    apply Stops.of_not_extends
    -- What follows the first part is the second one, unless that is empty.
    cases ws with
    | nil =>
      intro t ht
      refine (hs t ht).2.resolve_left fun hne => ?_
      exact hb.ne_nil hne rfl
    | cons w ws =>
      rintro t ⟨⟩
      obtain h | ⟨hsb, hkb⟩ := hk w.kind w.kind.mem_all
      · exact h
      · simp [hb.startsWith hsb w rfl] at hkb
  · exact ih _ _ _ _ hdepth.2 hb hpab.1.2 hdb he.2 (.of_not_extends (fun t ht => (hs t ht).1) _)

theorem FoundWithin.optional {n : Nat} (ih : FoundWithin n) {p : Pattern} {us : List Token}
    {trees : List Tree} {rest : List Token} (hn : (Pattern.optional p).depthFor us ≤ n + 1)
    (h : Derives (.optional p) us trees) (hp : p.isProper = true)
    (hd : (Pattern.optional p).isDeterministic = true) (he : elsesNearestAll trees = true)
    (hs : ∀ t ∈ rest.head?, (Pattern.optional p).extendsWith t.kind = false) :
    reading (.optional p) (us ++ rest) = .ok (trees, rest) := by
  simp only [Pattern.extendsWith, Bool.or_eq_false_iff] at hs
  simp only [Pattern.isDeterministic, Bool.and_eq_true, Bool.not_eq_true'] at hd
  obtain ⟨hdp, hsolid, hempty⟩ := hd
  rw [reading_optional hp]
  obtain ⟨rfl, rfl⟩ | h := derives_optional_iff.1 h
  · rw [List.nil_append, if_neg]
    cases rest with
    | nil => simp [canStart]
    | cons t rest => simp [canStart, (hs t rfl).1]
  · rw [if_pos (h.canStart hsolid hempty rest)]
    exact ih _ _ _ _ (Pattern.depthFor_optional hn) h hp hdp he
      (.of_not_extends (fun t ht => (hs t ht).2) _)

theorem FoundWithin.many {n : Nat} (ih : FoundWithin n) {p : Pattern} {us : List Token}
    {trees : List Tree} {rest : List Token} (hn : (Pattern.many p).depthFor us ≤ n + 1)
    (h : Derives (.many p) us trees) (hp : (Pattern.many p).isProper = true)
    (hd : (Pattern.many p).isDeterministic = true) (he : elsesNearestAll trees = true)
    (hs : ∀ t ∈ rest.head?, (Pattern.many p).extendsWith t.kind = false) :
    reading (.many p) (us ++ rest) = .ok (trees, rest) := by
  have hd' := hd
  have hs' := hs
  simp only [Pattern.extendsWith, Bool.or_eq_false_iff] at hs'
  simp only [Pattern.isDeterministic, Bool.and_eq_true, Bool.not_eq_true', List.all_eq_true,
    Bool.or_eq_true] at hd'
  obtain ⟨⟨hdp, hsolid, hempty⟩, hk⟩ := hd'
  have hpp := (Pattern.isProper_many hp).1
  rw [reading_many hp]
  cases h with
  | done =>
    rw [List.nil_append, if_neg]
    cases rest with
    | nil => simp [canStart]
    | cons t rest => simp [canStart, (hs' t rfl).1]
  | @more _ vs ws left right hv hw =>
    rw [elsesNearestAll_append, Bool.and_eq_true] at he
    have hpos := List.length_pos_iff.2 (hv.ne_nil hempty)
    have hfirst : reading p (vs ++ (ws ++ rest)) = .ok (left, ws ++ rest) := by
      apply ih _ _ _ _ (Pattern.depthFor_pass hn (by simp)) hv hpp hdp he.1
      apply Stops.of_not_extends
      cases ws with
      | nil => exact fun t ht => (hs' t ht).2
      | cons w ws =>
        -- the next pass starts with a token that the last one does not go on with
        rintro t ⟨⟩
        have hstart : p.startsWith w.kind = true := hw.startsWith hsolid w rfl
        simpa [hstart] using hk w.kind w.kind.mem_all
    have hothers : reading (.many p) (ws ++ rest) = .ok (right, rest) := by
      refine ih _ _ _ _ (Pattern.depthFor_passes hn ?_) hw hp hd he.2 (.of_not_extends hs _)
      simpa using hpos
    rw [List.append_assoc, if_pos (hv.canStart hsolid hempty _)]
    exact andThen_eq_ok_iff.2 ⟨left, _, right, hfirst, hothers, rfl⟩

theorem elsesNearestAll_of_tree {r : Rule} {children : List Tree}
    (h : elsesNearestAll (r.tree children) = true) : elsesNearestAll children = true := by
  obtain ⟨-, child, rfl, ht⟩ | ht := r.tree_cases children
  · rwa [ht] at h
  · rw [ht] at h
    simp only [elsesNearestAll, Tree.elsesNearest, Bool.and_true, Bool.and_eq_true] at h
    exact h.2

/-- The alternatives to a condition, all of which end in a token that closes them. -/
theorem Rule.not_extends_statement (kind : TokenKind) :
    (Pattern.oneOf (.rule .printStmt)
      [.rule .forStmt, .rule .whileStmt, .rule .exprStmt]).extendsWith kind = false := by
  cases kind <;> rfl

theorem FoundWithin.statement {n : Nat} (ih : FoundWithin n) {us : List Token}
    {trees : List Tree} {rest : List Token} (hn : (Pattern.rule .statement).depthFor us ≤ n + 1)
    (h : Derives (.rule .statement) us trees) (he : elsesNearestAll trees = true)
    (hs : Stops (.rule .statement) trees rest) :
    reading (.rule .statement) (us ++ rest) = .ok (trees, rest) := by
  obtain ⟨children, hc, rfl⟩ := derives_rule_iff.1 h
  refine reading_rule_eq_ok_iff.2 ⟨children, ?_, rfl⟩
  have hp := Rule.isProper_pattern .statement
  have hd := Rule.isDeterministic_pattern .statement (by decide)
  obtain hc | hc := derives_either_iff.1 hc
  · obtain ⟨tree, rfl⟩ := hc.exists_tree
    rw [Rule.pattern, Pattern.oneOf, reading_either_first hp hd hc]
    apply ih _ _ _ _ (by simp only [Pattern.depthFor, Pattern.rank_rule, Rule.rank] at *; omega) hc
      rfl rfl he
    intro t ht
    -- An else may follow a condition that is closed, although it could go on others.
    by_cases hk : t.kind = .kwElse
    · exact .inr ⟨hk, .inl rfl, by simpa using hs.closed rfl t ht hk⟩
    · exact .inl (by simpa [Pattern.extendsWith, Rule.extenders] using hk)
  · rw [Rule.pattern, Pattern.oneOf, reading_either_second hp hd hc]
    refine ih _ _ _ _ ?_ hc rfl (by simpa using (Pattern.isDeterministic_either hd).1.2)
      (elsesNearestAll_of_tree he) (.of_not_extends (fun t _ => Rule.not_extends_statement _) _)
    simp only [Pattern.depthFor, Pattern.rank_rule, Pattern.rank_either, Pattern.oneOf, Rule.rank] at *
    omega

theorem FoundWithin.rule {n : Nat} (ih : FoundWithin n) {r : Rule} {us : List Token}
    {trees : List Tree} {rest : List Token} (hn : (Pattern.rule r).depthFor us ≤ n + 1)
    (h : Derives (.rule r) us trees) (he : elsesNearestAll trees = true)
    (hs : Stops (.rule r) trees rest) : reading (.rule r) (us ++ rest) = .ok (trees, rest) := by
  by_cases hi : r = .ifStmt
  · subst hi
    exact ih.ifStmt hn h he hs
  by_cases hst : r = .statement
  · subst hst
    exact ih.statement hn h he hs
  obtain ⟨children, hc, rfl⟩ := derives_rule_iff.1 h
  refine reading_rule_eq_ok_iff.2 ⟨children, ?_, rfl⟩
  refine ih _ _ _ _ (Pattern.depthFor_rule hn) hc r.isProper_pattern
    (r.isDeterministic_pattern hi) (elsesNearestAll_of_tree he) (.of_not_extends ?_ _)
  intro t ht
  rw [r.extendsWith_pattern]
  exact hs.not_extends (by simpa using hi) (by simpa using hst) t ht

/-- The next token decides, with one exception: an `else` after a condition, which the nearest `if`
takes. So what is found are the derivations in which it does. -/
theorem foundWithin (n : Nat) : FoundWithin n := by
  -- On the depth for the text, which is less for the parts of a pattern and for that of a rule.
  induction n with
  | zero =>
    intro p us trees rest hn
    exact absurd hn (p.not_depthFor_le_zero us)
  | succ n ih =>
    intro p us trees rest hn h hp hd he hs
    cases p with
    | keep kinds =>
      obtain ⟨t, ht, rfl, rfl⟩ := derives_keep_iff.1 h
      exact reading_keep_eq_ok_iff.2 ⟨t, ht, rfl, rfl⟩
    | skip kind =>
      obtain ⟨t, ht, rfl, rfl⟩ := derives_skip_iff.1 h
      exact reading_skip_eq_ok_iff.2 ⟨t, ht, rfl, rfl⟩
    | rule r => exact ih.rule hn h he hs
    | seq a b => exact ih.seq hn h hp hd he (hs.not_extends (by simp) (by simp))
    | either a b => exact ih.either hn h hp hd he (hs.not_extends (by simp) (by simp))
    | optional p => exact ih.optional hn h hp hd he (hs.not_extends (by simp) (by simp))
    | many p => exact ih.many hn h hp hd he (hs.not_extends (by simp) (by simp))

end LetLang.Strict
