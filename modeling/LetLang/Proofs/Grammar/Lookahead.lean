import LetLang.Proofs.Grammar.Reading

namespace LetLang.Strict

/-- Does a text of the pattern start with one of the kinds that `startsWith` allows? -/
def Pattern.isSolid : Pattern → Bool
  | .keep _ | .skip _ | .rule _ => true
  | .seq a _ => a.isSolid && !a.canBeEmpty
  | .either a b => a.isSolid && b.isSolid
  | .optional p | .many p => p.isSolid

theorem Rule.isSolid_pattern (r : Rule) : r.pattern.isSolid = true := by
  cases r <;> rfl

theorem Derives.startsWith {p : Pattern} {us : List Token} {trees : List Tree}
    (h : Derives p us trees) (hp : p.isSolid = true) :
    ∀ t ∈ us.head?, p.startsWith t.kind = true := by
  induction h with
  | keep h => simpa [Pattern.startsWith] using h
  | skip h => simpa [Pattern.startsWith] using h
  | @rule r us children h ih =>
    intro t ht
    have hs := ih r.isSolid_pattern t ht
    rwa [r.startsWith_pattern] at hs
  | @seq a b us vs left right ha hb iha ihb =>
    have hs : a.isSolid = true ∧ a.canBeEmpty = false := by simpa [Pattern.isSolid] using hp
    -- The first part of a solid sequence is not empty, so the text starts where that part does.
    obtain ⟨u, us, rfl⟩ := List.exists_cons_of_ne_nil (ha.ne_nil hs.2)
    simpa [Pattern.startsWith] using iha hs.1
  | eitherFirst h ih =>
    intro t ht
    simp only [Pattern.isSolid, Bool.and_eq_true] at hp
    simp [Pattern.startsWith, ih hp.1 t ht]
  | eitherSecond h ih =>
    intro t ht
    simp only [Pattern.isSolid, Bool.and_eq_true] at hp
    simp [Pattern.startsWith, ih hp.2 t ht]
  | absent | done => simp
  | present h ih => exact ih hp
  | @more p us vs left right hu hv ihu ihv =>
    cases us with
    | nil => exact ihv hp
    | cons u us => simpa [Pattern.startsWith] using ihu hp

theorem Derives.canStart {p : Pattern} {us : List Token} {trees : List Tree}
    (h : Derives p us trees) (hs : p.isSolid = true) (he : p.canBeEmpty = false)
    (rest : List Token) : canStart p (us ++ rest) = true := by
  obtain ⟨u, us, rfl⟩ := List.exists_cons_of_ne_nil (h.ne_nil he)
  exact h.startsWith hs u rfl

/-- A pattern that cannot start with the next token is not read at all. -/
theorem read_of_not_canStart (depth : Nat) {p : Pattern} {ts : List Token} (hs : p.isSolid = true)
    (he : p.canBeEmpty = false) (h : canStart p ts = false) : read depth p ts = .error ts := by
  -- On the depth, as a rule hands the same tokens to its pattern.
  induction depth generalizing p with
  | zero => rfl
  | succ depth ih =>
    cases p with
    | keep kinds =>
      cases ts with
      | nil => rfl
      | cons t ts =>
        rw [read_keep_cons, if_neg]
        simpa [canStart, Pattern.startsWith] using h
    | skip kind =>
      cases ts with
      | nil => rfl
      | cons t ts =>
        rw [read_skip_cons, if_neg]
        simpa [canStart, Pattern.startsWith] using h
    | rule r =>
      have hr : canStart r.pattern ts = false := by
        cases ts with
        | nil => rfl
        | cons t ts => exact (r.startsWith_pattern t.kind).trans h
      rw [read_rule, ih r.isSolid_pattern (r.canBeEmpty_pattern.trans he) hr]
      rfl
    | seq a b =>
      have ha : a.isSolid = true ∧ a.canBeEmpty = false := by simpa [Pattern.isSolid] using hs
      have hc : canStart a ts = false := by
        cases ts with
        | nil => rfl
        | cons t ts => exact h
      rw [read_seq, ih ha.1 ha.2 hc]
    | either a b =>
      simp only [Pattern.isSolid, Bool.and_eq_true] at hs
      simp only [Pattern.canBeEmpty, Bool.or_eq_false_iff] at he
      have hc : canStart a ts = false ∧ canStart b ts = false := by
        cases ts with
        | nil => exact ⟨rfl, rfl⟩
        | cons t ts => simpa [canStart, Pattern.startsWith] using h
      rw [read_either, if_neg (by simp [hc.1]), ih hs.2 he.2 hc.2]
    | optional p | many p => cases he

theorem reading_of_not_canStart {p : Pattern} {ts : List Token} (hs : p.isSolid = true)
    (he : p.canBeEmpty = false) (h : canStart p ts = false) : reading p ts = .error ts :=
  read_of_not_canStart _ hs he h

theorem reading_eq_ite {p : Pattern} (hs : p.isSolid = true) (he : p.canBeEmpty = false)
    (ts : List Token) : reading p ts = if canStart p ts then reading p ts else .error ts := by
  split
  · rfl
  · next h => exact reading_of_not_canStart hs he (by simpa using h)

/-- The kinds of token that can stand after a text of the rule and belong to it. -/
def Rule.extenders : Rule → List TokenKind
  | .exponent | .unary => [.caret]
  | .product => [.asterisk, .slash, .caret]
  | .sum => [.plus, .minus, .asterisk, .slash, .caret]
  | .comparison => comparisonExtenders
  | .equality => [.equalEqual, .notEqual] ++ comparisonExtenders
  | .logicAnd => [.kwAnd, .equalEqual, .notEqual] ++ comparisonExtenders
  | .logicOr => [.kwOr, .kwAnd, .equalEqual, .notEqual] ++ comparisonExtenders
  | .assignment => [.equal, .kwOr, .kwAnd, .equalEqual, .notEqual] ++ comparisonExtenders
  | .comma | .expression =>
    [.comma, .equal, .kwOr, .kwAnd, .equalEqual, .notEqual] ++ comparisonExtenders
  | .ifStmt | .statement | .declaration => [.kwElse]
  | .program | .block => .kwElse :: .kwLet :: statementStarters
  | _ => []
where
  comparisonExtenders : List TokenKind :=
    [.greater, .greaterEqual, .less, .lessEqual, .plus, .minus, .asterisk, .slash, .caret]

def Pattern.extendsWith (kind : TokenKind) : Pattern → Bool
  | .keep _ | .skip _ => false
  | .rule r => kind ∈ r.extenders
  | .seq a b => b.extendsWith kind || (b.canBeEmpty && a.extendsWith kind)
  | .either a b => a.extendsWith kind || b.extendsWith kind
  | .optional p | .many p => p.startsWith kind || p.extendsWith kind

theorem Rule.extendsWith_pattern (r : Rule) (kind : TokenKind) :
    r.pattern.extendsWith kind = decide (kind ∈ r.extenders) := by
  cases r <;> cases kind <;> rfl

/-- The next token decides what to do at each place of the pattern. -/
def Pattern.isDeterministic : Pattern → Bool
  | .keep _ | .skip _ | .rule _ => true
  | .seq a b => a.isDeterministic && b.isDeterministic &&
      TokenKind.all.all fun k => !a.extendsWith k || (b.isSolid && !b.startsWith k)
  | .either a b => a.isDeterministic && b.isDeterministic && (a.isSolid && !a.canBeEmpty) &&
      (b.isSolid && !b.canBeEmpty) && TokenKind.all.all fun k => !a.startsWith k || !b.startsWith k
  | .optional p => p.isDeterministic && (p.isSolid && !p.canBeEmpty)
  | .many p => p.isDeterministic && (p.isSolid && !p.canBeEmpty) &&
      TokenKind.all.all fun k => !p.startsWith k || !p.extendsWith k

/-- Only after a condition the next token does not decide: an `else` may belong further out. -/
theorem Rule.isDeterministic_pattern (r : Rule) (h : r ≠ .ifStmt) :
    r.pattern.isDeterministic = true := by
  cases r <;> first | rfl | exact absurd rfl h

end LetLang.Strict
