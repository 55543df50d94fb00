import LetLang.Proofs.Grammar.Derivation

namespace LetLang.Strict

def Rule.canBeEmpty : Rule → Bool
  | .program | .block => true
  | _ => false

def Pattern.canBeEmpty : Pattern → Bool
  | .keep _ | .skip _ => false
  | .rule r => r.canBeEmpty
  | .seq a b => a.canBeEmpty && b.canBeEmpty
  | .either a b => a.canBeEmpty || b.canBeEmpty
  | .optional _ | .many _ => true

theorem Rule.canBeEmpty_pattern (r : Rule) : r.pattern.canBeEmpty = r.canBeEmpty := by
  cases r <;> rfl

theorem Derives.ne_nil {p : Pattern} {us : List Token} {trees : List Tree}
    (h : Derives p us trees) (hp : p.canBeEmpty = false) : us ≠ [] := by
  induction h with
  | keep | skip => simp
  | @rule r _ _ _ ih => exact ih (r.canBeEmpty_pattern.trans hp)
  | seq _ _ iha ihb =>
    intro hu
    rw [Pattern.canBeEmpty, Bool.and_eq_false_iff] at hp
    rw [List.append_eq_nil_iff] at hu
    exact hp.elim (fun ha => iha ha hu.1) (fun hb => ihb hb hu.2)
  | eitherFirst _ ih =>
    rw [Pattern.canBeEmpty, Bool.or_eq_false_iff] at hp
    exact ih hp.1
  | eitherSecond _ ih =>
    rw [Pattern.canBeEmpty, Bool.or_eq_false_iff] at hp
    exact ih hp.2
  | absent | present | done | more => cases hp

theorem length_le_of_read {depth : Nat} {p : Pattern} {ts rest : List Token} {trees : List Tree}
    (h : read depth p ts = .ok (trees, rest)) : rest.length ≤ ts.length := by
  obtain ⟨us, rfl, -⟩ := derives_of_read h
  simp

theorem length_lt_of_read {depth : Nat} {p : Pattern} {ts rest : List Token} {trees : List Tree}
    (hp : p.canBeEmpty = false) (h : read depth p ts = .ok (trees, rest)) :
    rest.length < ts.length := by
  obtain ⟨us, rfl, hu⟩ := derives_of_read h
  have hl := List.length_pos_iff.2 (hu.ne_nil hp)
  simp only [List.length_append]
  omega

/-- A bound on the depth of patterns that a rule opens before a token is taken. -/
def Rule.rank : Rule → Nat
  | .trueLiteral | .falseLiteral | .numberLiteral | .stringLiteral | .variableName => 1
  | .grouping | .varDecl | .ifStmt | .printStmt | .forStmt | .whileStmt => 2
  | .primary => 8
  | .exponent => 10
  | .unary => 12
  | .product => 14
  | .sum => 16
  | .comparison => 18
  | .equality => 20
  | .logicAnd => 22
  | .logicOr => 24
  | .assignment => 26
  | .comma => 28
  | .expression => 29
  | .exprStmt => 31
  | .statement => 36
  | .declaration => 38
  | .program | .block => 40

def Pattern.rank : Pattern → Nat
  | .keep _ | .skip _ => 1
  | .rule r => r.rank + 1
  | .seq a b => (if a.canBeEmpty then max a.rank b.rank else a.rank) + 1
  | .either a b => max a.rank b.rank + 1
  | .optional p | .many p => p.rank + 1

namespace Pattern
variable (a b p : Pattern)

theorem rank_rule (r : Rule) : (rule r).rank = r.rank + 1 := rfl

theorem rank_seq :
    (seq a b).rank = (if a.canBeEmpty then max a.rank b.rank else a.rank) + 1 := rfl

theorem rank_either : (either a b).rank = max a.rank b.rank + 1 := rfl

theorem rank_optional : (optional p).rank = p.rank + 1 := rfl

theorem rank_many : (many p).rank = p.rank + 1 := rfl

end Pattern

/-- Is the part after each token of low rank, and does each repetition take a token? -/
def Pattern.isProper : Pattern → Bool
  | .keep _ | .skip _ | .rule _ => true
  | .seq a b => a.isProper && b.isProper && decide (b.rank ≤ depthPerToken)
  | .either a b => a.isProper && b.isProper
  | .optional p => p.isProper
  | .many p => p.isProper && !p.canBeEmpty

theorem Rule.rank_pattern (r : Rule) : r.pattern.rank ≤ r.rank := by
  cases r <;> decide

theorem Rule.isProper_pattern (r : Rule) : r.pattern.isProper = true := by
  cases r <;> rfl

/-- A rule may stand after a token. -/
theorem Rule.rank_le (r : Rule) : (Pattern.rule r).rank ≤ depthPerToken := by
  cases r <;> decide

theorem Pattern.rank_pos (p : Pattern) : 0 < p.rank := by
  cases p <;> exact Nat.succ_pos _

/-- The depth that suffices for a pattern at the front of these tokens. -/
def Pattern.depthFor (p : Pattern) (ts : List Token) : Nat := depthPerToken * ts.length + p.rank

namespace Pattern
variable {a b p : Pattern} {ts us : List Token} {n : Nat}

theorem isProper_seq (h : (seq a b).isProper = true) :
    (a.isProper = true ∧ b.isProper = true) ∧ b.rank ≤ depthPerToken := by
  simpa [isProper] using h

theorem isProper_either (h : (either a b).isProper = true) :
    a.isProper = true ∧ b.isProper = true := by
  simpa [isProper] using h

theorem isProper_many (h : (many p).isProper = true) :
    p.isProper = true ∧ p.canBeEmpty = false := by
  simpa [isProper] using h

theorem exists_depthFor (p : Pattern) (ts : List Token) : ∃ n, p.depthFor ts = n + 1 :=
  Nat.exists_eq_add_one.2 (Nat.add_pos_right _ p.rank_pos)

theorem not_depthFor_le_zero (p : Pattern) (ts : List Token) : ¬ p.depthFor ts ≤ 0 := by
  obtain ⟨n, hn⟩ := p.exists_depthFor ts
  omega

theorem depthFor_rule {r : Rule} (h : (rule r).depthFor ts ≤ n + 1) :
    r.pattern.depthFor ts ≤ n := by
  have := r.rank_pattern
  simp only [depthFor, rank_rule] at h ⊢
  omega

theorem depthFor_first (h : (seq a b).depthFor ts ≤ n + 1) : a.depthFor ts ≤ n := by
  simp only [depthFor, rank_seq] at h ⊢
  split at h <;> omega

theorem depthFor_second {rest : List Token} {trees : List Tree} {depth : Nat}
    (hp : (seq a b).isProper = true) (h : (seq a b).depthFor ts ≤ n + 1)
    (ha : read depth a ts = .ok (trees, rest)) : b.depthFor rest ≤ n := by
  have hb := (isProper_seq hp).2
  simp only [depthFor, rank_seq, depthPerToken] at hb h ⊢
  split at h
  · have := length_le_of_read ha
    omega
  · next he =>
    have := length_lt_of_read (by simpa using he) ha
    omega

theorem depthFor_either (h : (either a b).depthFor ts ≤ n + 1) :
    a.depthFor ts ≤ n ∧ b.depthFor ts ≤ n := by
  simp only [depthFor, rank_either] at h ⊢
  omega

theorem depthFor_optional (h : (optional p).depthFor ts ≤ n + 1) : p.depthFor ts ≤ n := by
  simp only [depthFor, rank_optional] at h ⊢
  omega

/-- The depth for a repetition is enough for each of its passes. -/
theorem depthFor_pass (h : (many p).depthFor ts ≤ n + 1) (hl : us.length ≤ ts.length) :
    p.depthFor us ≤ n := by
  simp only [depthFor, rank_many, depthPerToken] at h ⊢
  omega

theorem depthFor_passes (h : (many p).depthFor ts ≤ n + 1) (hl : us.length < ts.length) :
    (many p).depthFor us ≤ n := by
  simp only [depthFor, rank_many, depthPerToken] at h ⊢
  omega

end Pattern

theorem repeatWhile_congr {more : List Token → Bool} {f g : List Token → Parsed}
    (hf : ∀ us trees rest, f us = .ok (trees, rest) → rest.length ≤ us.length)
    {ts : List Token} (bound : List Token) (h : ∀ us, us.length ≤ ts.length → f us = g us) :
    repeatWhile more f bound ts = repeatWhile more g bound ts := by
  induction bound generalizing ts with
  | nil => rfl
  | cons b bound ih =>
    unfold repeatWhile
    rw [← h ts (Nat.le_refl _)]
    split
    · split
      · rfl
      · next first rest hr =>
        have hl := hf _ _ _ hr
        rw [ih fun us hu => h us (Nat.le_trans hu hl)]
    · rfl

/-- A bound that is long enough does not matter. -/
theorem repeatWhile_bound {more : List Token → Bool} {f : List Token → Parsed}
    (hm : more [] = false)
    (hf : ∀ us trees rest, f us = .ok (trees, rest) → rest.length < us.length)
    {bound b ts : List Token} (h : ts.length ≤ bound.length) (h' : ts.length ≤ b.length) :
    repeatWhile more f bound ts = repeatWhile more f b ts := by
  induction bound generalizing b ts with
  | nil =>
    have ht : ts = [] := List.length_eq_zero_iff.1 (Nat.le_zero.1 h)
    subst ht
    cases b <;> simp [repeatWhile, hm]
  | cons first bound ih =>
    cases b with
    | nil =>
      have ht : ts = [] := List.length_eq_zero_iff.1 (Nat.le_zero.1 h')
      subst ht
      simp [repeatWhile, hm]
    | cons first' b =>
      unfold repeatWhile
      split
      · split
        · rfl
        · next first rest hr =>
          have hl := hf _ _ _ hr
          simp only [List.length_cons] at h h'
          rw [ih (b := b) (by omega) (by omega)]
      · rfl

theorem read_succ {depth : Nat} {p : Pattern} {ts : List Token} (hp : p.isProper = true)
    (h : p.depthFor ts ≤ depth) : read (depth + 1) p ts = read depth p ts := by
  -- one level down, each part of the pattern has depth enough for itself
  induction depth generalizing p ts with
  | zero => exact absurd h (p.not_depthFor_le_zero ts)
  | succ depth ih =>
    cases p with
    | keep kinds => rfl
    | skip kind => rfl
    | rule r => rw [read_rule, read_rule, ih r.isProper_pattern (Pattern.depthFor_rule h)]
    | seq a b =>
      obtain ⟨hab, -⟩ := Pattern.isProper_seq hp
      have ha := ih hab.1 (Pattern.depthFor_first h)
      cases hr : read depth a ts with
      | error ts' => simp only [read_seq, ha, hr]
      | ok parsed =>
        obtain ⟨left, mid⟩ := parsed
        have hb : read (depth + 1) b mid = read depth b mid :=
          ih hab.2 (Pattern.depthFor_second hp h hr)
        simp only [read_seq, ha, hr, hb]
    | either a b =>
      have hab := Pattern.isProper_either hp
      have hd := Pattern.depthFor_either h
      rw [read_either, read_either, ih hab.1 hd.1, ih hab.2 hd.2]
    | optional p =>
      have hp' : p.isProper = true := hp
      rw [read_optional, read_optional, ih hp' (Pattern.depthFor_optional h)]
    | many p =>
      rw [read_many, read_many]
      apply repeatWhile_congr fun _ _ _ => length_le_of_read
      intro us hu
      exact ih (Pattern.isProper_many hp).1 (Pattern.depthFor_pass h hu)

/-- What a pattern reads from the front of the tokens, however deep that takes it. -/
def reading (p : Pattern) (ts : List Token) : Parsed := read (p.depthFor ts) p ts

/-- Between two tokens the patterns nest a fixed number of levels, so from some depth on a reading
does not change. -/
theorem read_eq_reading {depth : Nat} {p : Pattern} {ts : List Token} (hp : p.isProper = true)
    (h : p.depthFor ts ≤ depth) : read depth p ts = reading p ts := by
  induction h with
  | refl => rfl
  | step h ih => rw [read_succ hp h, ih]

theorem derives_of_reading {p : Pattern} {ts rest : List Token} {trees : List Tree}
    (h : reading p ts = .ok (trees, rest)) : ∃ us, ts = us ++ rest ∧ Derives p us trees :=
  derives_of_read h

theorem length_lt_of_reading {p : Pattern} {ts rest : List Token} {trees : List Tree}
    (hp : p.canBeEmpty = false) (h : reading p ts = .ok (trees, rest)) :
    rest.length < ts.length :=
  length_lt_of_read hp h

@[simp] theorem reading_keep_nil (kinds : List TokenKind) : reading (.keep kinds) [] = .error [] :=
  rfl

theorem reading_keep_cons (kinds : List TokenKind) (t : Token) (ts : List Token) :
    reading (.keep kinds) (t :: ts) =
      if t.kind ∈ kinds then .ok ([.leaf t], ts) else .error (t :: ts) := by
  simp [reading, Pattern.depthFor, Pattern.rank, read_keep_cons]

@[simp] theorem reading_skip_nil (kind : TokenKind) : reading (.skip kind) [] = .error [] := rfl

theorem reading_skip_cons (kind : TokenKind) (t : Token) (ts : List Token) :
    reading (.skip kind) (t :: ts) =
      if t.kind = kind then .ok ([], ts) else .error (t :: ts) := by
  simp [reading, Pattern.depthFor, Pattern.rank, read_skip_cons]

theorem reading_keep_of_mem {kinds : List TokenKind} {t : Token} (h : t.kind ∈ kinds)
    (rest : List Token) : reading (.keep kinds) (t :: rest) = .ok ([.leaf t], rest) := by
  rw [reading_keep_cons, if_pos h]

theorem reading_skip_of_eq {kind : TokenKind} {t : Token} (h : t.kind = kind)
    (rest : List Token) : reading (.skip kind) (t :: rest) = .ok ([], rest) := by
  rw [reading_skip_cons, if_pos h]

theorem reading_rule (r : Rule) (ts : List Token) :
    reading (.rule r) ts =
      (reading r.pattern ts).map fun (children, rest) => (r.tree children, rest) := by
  obtain ⟨n, hn⟩ := (Pattern.rule r).exists_depthFor ts
  have hd := Pattern.depthFor_rule (Nat.le_of_eq hn)
  rw [reading, hn, read_rule, read_eq_reading r.isProper_pattern hd]

/-- One reading and then another from where the first one stopped. -/
def andThen (first : Parsed) (second : List Token → Parsed) : Parsed :=
  match first with
  | .error ts => .error ts
  | .ok (left, rest) => (second rest).map fun (right, rest) => (left ++ right, rest)

theorem reading_seq {a b : Pattern} (hp : (Pattern.seq a b).isProper = true) (ts : List Token) :
    reading (.seq a b) ts = andThen (reading a ts) (reading b) := by
  obtain ⟨hab, -⟩ := Pattern.isProper_seq hp
  obtain ⟨n, hn⟩ := (Pattern.seq a b).exists_depthFor ts
  have ha : read n a ts = reading a ts :=
    read_eq_reading hab.1 (Pattern.depthFor_first (Nat.le_of_eq hn))
  rw [reading, hn, read_seq, ha]
  cases h : reading a ts with
  | error ts' => rfl
  | ok parsed =>
    obtain ⟨left, rest⟩ := parsed
    dsimp only [andThen]
    rw [read_eq_reading hab.2 (Pattern.depthFor_second hp (Nat.le_of_eq hn) (ha.trans h))]

theorem reading_either {a b : Pattern} (hp : (Pattern.either a b).isProper = true)
    (ts : List Token) :
    reading (.either a b) ts = if canStart a ts then reading a ts else reading b ts := by
  have hab := Pattern.isProper_either hp
  obtain ⟨n, hn⟩ := (Pattern.either a b).exists_depthFor ts
  have hd := Pattern.depthFor_either (Nat.le_of_eq hn)
  rw [reading, hn, read_either, read_eq_reading hab.1 hd.1, read_eq_reading hab.2 hd.2]

theorem reading_optional {p : Pattern} (hp : p.isProper = true) (ts : List Token) :
    reading (.optional p) ts = if canStart p ts then reading p ts else .ok ([], ts) := by
  obtain ⟨n, hn⟩ := (Pattern.optional p).exists_depthFor ts
  have hd := Pattern.depthFor_optional (Nat.le_of_eq hn)
  rw [reading, hn, read_optional, read_eq_reading hp hd]

theorem reading_many {p : Pattern} (hp : (Pattern.many p).isProper = true) (ts : List Token) :
    reading (.many p) ts =
      if canStart p ts then andThen (reading p ts) (reading (.many p)) else .ok ([], ts) := by
  have hp' := Pattern.isProper_many hp
  -- Every pass reads at one and the same depth, which is enough for the first and so for all.
  have hr (us : List Token) : reading (.many p) us = repeatWhile (canStart p) (reading p) us us := by
    obtain ⟨n, hn⟩ := (Pattern.many p).exists_depthFor us
    rw [reading, hn, read_many]
    apply repeatWhile_congr fun _ _ _ => length_le_of_read
    intro vs hv
    exact read_eq_reading hp'.1 (Pattern.depthFor_pass (Nat.le_of_eq hn) hv)
  cases ts with
  | nil => simp [hr, repeatWhile, canStart]
  | cons t ts =>
    rw [hr, repeatWhile]
    split
    · cases h : reading p (t :: ts) with
      | error ts' => rfl
      | ok parsed =>
        obtain ⟨first, rest⟩ := parsed
        have hl := length_lt_of_reading hp'.2 h
        dsimp only [andThen]
        rw [repeatWhile_bound (b := rest) rfl (fun _ _ _ => length_lt_of_reading hp'.2)
          (Nat.le_of_lt_succ hl) (Nat.le_refl _), ← hr]
        cases reading (.many p) rest <;> rfl
    · rfl

theorem reading_keep_eq_ok_iff {kinds : List TokenKind} {ts rest : List Token}
    {trees : List Tree} : reading (.keep kinds) ts = .ok (trees, rest) ↔
      ∃ t, t.kind ∈ kinds ∧ ts = t :: rest ∧ trees = [.leaf t] := by
  cases ts with
  | nil => simp
  | cons t ts =>
    rw [reading_keep_cons]
    split <;> grind

theorem reading_skip_eq_ok_iff {kind : TokenKind} {ts rest : List Token} {trees : List Tree} :
    reading (.skip kind) ts = .ok (trees, rest) ↔
      ∃ t, t.kind = kind ∧ ts = t :: rest ∧ trees = [] := by
  cases ts with
  | nil => simp
  | cons t ts =>
    rw [reading_skip_cons]
    split <;> grind

theorem reading_rule_eq_ok_iff {r : Rule} {ts rest : List Token} {trees : List Tree} :
    reading (.rule r) ts = .ok (trees, rest) ↔
      ∃ children, reading r.pattern ts = .ok (children, rest) ∧ trees = r.tree children := by
  rw [reading_rule]
  cases reading r.pattern ts with
  | error ts' => simp [Except.map]
  | ok parsed =>
    obtain ⟨children, mid⟩ := parsed
    simp only [Except.map, Except.ok.injEq, Prod.mk.injEq]
    constructor
    · rintro ⟨rfl, rfl⟩
      exact ⟨children, ⟨rfl, rfl⟩, rfl⟩
    · rintro ⟨children', ⟨rfl, rfl⟩, rfl⟩
      exact ⟨rfl, rfl⟩

theorem andThen_eq_ok_iff {first : Parsed} {second : List Token → Parsed} {trees : List Tree}
    {rest : List Token} : andThen first second = .ok (trees, rest) ↔ ∃ left mid right,
      first = .ok (left, mid) ∧ second mid = .ok (right, rest) ∧ trees = left ++ right := by
  unfold andThen
  split
  · simp
  · next left mid =>
    cases h : second mid with
    | error ts' => grind [Except.map]
    | ok parsed => grind [Except.map]

theorem andThen_eq_error_iff {first : Parsed} {second : List Token → Parsed} {rest : List Token} :
    andThen first second = .error rest ↔
      first = .error rest ∨ ∃ left mid, first = .ok (left, mid) ∧ second mid = .error rest := by
  unfold andThen
  split
  · simp
  · next left mid =>
    cases h : second mid with
    | error stop => grind [Except.map]
    | ok parsed => grind [Except.map]

theorem reading_seq_eq_ok_iff {a b : Pattern} (hp : (Pattern.seq a b).isProper = true)
    {ts rest : List Token} {trees : List Tree} :
    reading (.seq a b) ts = .ok (trees, rest) ↔ ∃ left mid right,
      reading a ts = .ok (left, mid) ∧ reading b mid = .ok (right, rest) ∧
        trees = left ++ right := by
  rw [reading_seq hp, andThen_eq_ok_iff]

/-- A rule leaves one tree. -/
theorem exists_tree_of_reading {r : Rule} {ts rest : List Token} {trees : List Tree}
    (h : reading (.rule r) ts = .ok (trees, rest)) : ∃ tree, trees = [tree] := by
  obtain ⟨children, -, rfl⟩ := reading_rule_eq_ok_iff.1 h
  exact r.exists_tree children

end LetLang.Strict
