import LetLang.Proofs.Grammar.NearestElse
import LetLang.Strict.Build
import Mathlib.Tactic.SplitIfs

namespace LetLang.Strict

/-- The tokens are those of a program. -/
def IsProgram (us : List Token) : Prop := ∃ trees, Derives (.rule .program) us trees

/-- The tokens are the front of those of some program. -/
def IsViable (us : List Token) : Prop := ∃ vs, IsProgram (us ++ vs)

/-- Tokens that are no program, and those of them from the first one that no program goes on with.
There is no such token if it is the end that comes too soon. -/
inductive FirstUnviable : List Token → List Token → Prop
  | token {us more : List Token} {t : Token} (viable : IsViable us)
    (unviable : ¬ IsViable (us ++ [t])) : FirstUnviable (us ++ t :: more) (t :: more)
  | ending {us : List Token} (viable : IsViable us) (unfinished : ¬ IsProgram us) :
    FirstUnviable us []

theorem isProgram_iff {us : List Token} : IsProgram us ↔ ∃ trees, readProgram us = .ok trees := by
  rw [IsProgram, ← exists_isTreeOf_iff]
  constructor
  · rintro ⟨tree, h⟩
    exact ⟨[tree], readProgram_eq_ok_iff.2 ⟨tree, rfl, h⟩⟩
  · rintro ⟨trees, h⟩
    obtain ⟨tree, -, h⟩ := readProgram_eq_ok_iff.1 h
    exact ⟨tree, h⟩

theorem IsViable.of_append {us vs : List Token} (h : IsViable (us ++ vs)) : IsViable us := by
  obtain ⟨ws, h⟩ := h
  exact ⟨vs ++ ws, by rwa [← List.append_assoc]⟩

/-- A short text of each rule. -/
def Rule.sample : Rule → List TokenKind
  | .program | .block => []
  | .varDecl => [.kwLet, .identifier, .semicolon]
  | .declaration | .statement | .exprStmt => [.kwTrue, .semicolon]
  | .ifStmt => [.kwIf, .kwTrue, .kwThen, .kwTrue, .semicolon]
  | .printStmt => [.kwPrint, .kwTrue, .semicolon]
  | .forStmt => [.kwFor, .identifier, .kwIn, .kwTrue, .doubleDot, .kwTrue, .kwBegin, .kwEnd]
  | .whileStmt => [.kwWhile, .kwTrue, .kwBegin, .kwEnd]
  | .falseLiteral => [.kwFalse]
  | .numberLiteral => [.number]
  | .stringLiteral => [.string]
  | .variableName => [.identifier]
  | .grouping => [.leftParen, .kwTrue, .rightParen]
  | _ => [.kwTrue]

/-- Is the sample read to its end? -/
def Rule.readsSample (r : Rule) : Bool :=
  match read depthPerToken (.rule r) (r.sample.map fun kind => ⟨kind, .null, .null, 0⟩) with
  | .ok (_, []) => true
  | _ => false

theorem Rule.readsSample_eq_true (r : Rule) : r.readsSample = true := by
  cases r <;> rfl

theorem Rule.exists_derives (r : Rule) : ∃ us trees, Derives (.rule r) us trees := by
  have h := r.readsSample_eq_true
  unfold readsSample at h
  split at h
  · next trees hr =>
    obtain ⟨us, -, hd⟩ := derives_of_read hr
    exact ⟨us, trees, hd⟩
  · cases h

/-- Is there a kind to choose wherever a token is kept? -/
def Pattern.hasKinds : Pattern → Bool
  | .keep kinds => !kinds.isEmpty
  | .skip _ | .rule _ => true
  | .seq a b | .either a b => a.hasKinds && b.hasKinds
  | .optional p | .many p => p.hasKinds

theorem Rule.hasKinds_pattern (r : Rule) : r.pattern.hasKinds = true := by
  cases r <;> rfl

/-- Every pattern has a text. -/
theorem Pattern.exists_derives {p : Pattern} (h : p.hasKinds = true) :
    ∃ us trees, Derives p us trees := by
  induction p with
  | keep kinds =>
    cases kinds with
    | nil => cases h
    | cons kind kinds =>
      exact ⟨[⟨kind, .null, .null, 0⟩], _, .keep List.mem_cons_self⟩
  | skip kind => exact ⟨[⟨kind, .null, .null, 0⟩], _, .skip rfl⟩
  | rule r => exact r.exists_derives
  | seq a b iha ihb =>
    rw [hasKinds, Bool.and_eq_true] at h
    obtain ⟨us, left, ha⟩ := iha h.1
    obtain ⟨vs, right, hb⟩ := ihb h.2
    exact ⟨us ++ vs, left ++ right, .seq ha hb⟩
  | either a b iha ihb =>
    rw [hasKinds, Bool.and_eq_true] at h
    obtain ⟨us, trees, ha⟩ := iha h.1
    exact ⟨us, trees, .eitherFirst ha⟩
  | optional p ih => exact ⟨[], [], .absent⟩
  | many p ih => exact ⟨[], [], .done⟩

def Pattern.isToken : Pattern → Bool
  | .keep _ | .skip _ => true
  | _ => false

/-- A single token is taken or not, whatever follows it. -/
theorem reading_token {p : Pattern} (hp : p.isToken = true) (t : Token) :
    (∃ trees, ∀ ts, reading p (t :: ts) = .ok (trees, ts)) ∨
      ∀ ts, reading p (t :: ts) = .error (t :: ts) := by
  cases p with
  | keep kinds =>
    by_cases h : t.kind ∈ kinds
    · exact .inl ⟨[.leaf t], fun ts => by rw [reading_keep_cons, if_pos h]⟩
    · exact .inr fun ts => by rw [reading_keep_cons, if_neg h]
  | skip kind =>
    by_cases h : t.kind = kind
    · exact .inl ⟨[], fun ts => by rw [reading_skip_cons, if_pos h]⟩
    · exact .inr fun ts => by rw [reading_skip_cons, if_neg h]
  | _ => cases hp

theorem eq_of_reading_token {p : Pattern} (hp : p.isToken = true) {ts rest : List Token}
    (h : reading p ts = .error rest) : rest = ts := by
  cases ts with
  | nil =>
    cases p with
    | keep | skip => exact (Except.error.inj h).symm
    | _ => cases hp
  | cons t ts =>
    obtain ⟨trees, hr⟩ | hr := reading_token hp t
    · rw [hr] at h
      cases h
    · rw [hr] at h
      exact (Except.error.inj h).symm

/-- What is read before a reading fails is the front of a text of the pattern. -/
theorem exists_derives_of_error {p : Pattern} {ts rest : List Token} (hp : p.isProper = true)
    (hk : p.hasKinds = true) (h : reading p ts = .error rest) :
    ∃ us vs trees, ts = us ++ rest ∧ Derives p (us ++ vs) trees := by
  -- where nothing is read at all, the text is any that the pattern has
  have hnone {p : Pattern} {ts rest : List Token} (hk : p.hasKinds = true) (hr : rest = ts) :
      ∃ us vs trees, ts = us ++ rest ∧ Derives p (us ++ vs) trees := by
    obtain ⟨vs, trees, hd⟩ := p.exists_derives hk
    exact ⟨[], vs, trees, hr.symm, hd⟩
  obtain ⟨n, hn⟩ : ∃ n, p.depthFor ts ≤ n := ⟨_, Nat.le_refl _⟩
  induction n generalizing p ts rest with
  | zero => exact absurd hn (p.not_depthFor_le_zero ts)
  | succ n ih =>
    cases p with
    | keep | skip => exact hnone hk (eq_of_reading_token rfl h)
    | rule r =>
      rw [reading_rule] at h
      cases hr : reading r.pattern ts with
      | ok parsed =>
        rw [hr] at h
        cases h
      | error stop =>
        rw [hr] at h
        cases h
        obtain ⟨us, vs, children, hts, hd⟩ :=
          ih r.isProper_pattern r.hasKinds_pattern hr (Pattern.depthFor_rule hn)
        exact ⟨us, vs, _, hts, .rule hd⟩
    | seq a b =>
      obtain ⟨hab, -⟩ := Pattern.isProper_seq hp
      rw [Pattern.hasKinds, Bool.and_eq_true] at hk
      rw [reading_seq hp, andThen_eq_error_iff] at h
      obtain ha | ⟨left, mid, ha, hb⟩ := h
      · obtain ⟨us, vs, left, hts, hd⟩ := ih hab.1 hk.1 ha (Pattern.depthFor_first hn)
        obtain ⟨ws, right, hd'⟩ := b.exists_derives hk.2
        refine ⟨us, vs ++ ws, left ++ right, hts, ?_⟩
        rw [← List.append_assoc]
        exact .seq hd hd'
      · obtain ⟨us, hts, hd⟩ := derives_of_reading ha
        obtain ⟨us', vs, right, rfl, hd'⟩ := ih hab.2 hk.2 hb (Pattern.depthFor_second hp hn ha)
        refine ⟨us ++ us', vs, left ++ right, by rw [hts, List.append_assoc], ?_⟩
        rw [List.append_assoc]
        exact .seq hd hd'
    | either a b =>
      have hab := Pattern.isProper_either hp
      have hd := Pattern.depthFor_either hn
      rw [Pattern.hasKinds, Bool.and_eq_true] at hk
      rw [reading_either hp] at h
      split at h
      · obtain ⟨us, vs, trees, hts, hd⟩ := ih hab.1 hk.1 h hd.1
        exact ⟨us, vs, trees, hts, .eitherFirst hd⟩
      · obtain ⟨us, vs, trees, hts, hd⟩ := ih hab.2 hk.2 h hd.2
        exact ⟨us, vs, trees, hts, .eitherSecond hd⟩
    | optional p =>
      have hp' : p.isProper = true := hp
      rw [reading_optional hp'] at h
      split at h
      · obtain ⟨us, vs, trees, hts, hd⟩ := ih hp' hk h (Pattern.depthFor_optional hn)
        exact ⟨us, vs, trees, hts, .present hd⟩
      · cases h
    | many p =>
      have hpp := Pattern.isProper_many hp
      rw [reading_many hp] at h
      split at h
      · obtain ha | ⟨left, mid, ha, hb⟩ := andThen_eq_error_iff.1 h
        · obtain ⟨us, vs, left, hts, hd⟩ :=
            ih hpp.1 hk ha (Pattern.depthFor_pass hn (Nat.le_refl _))
          refine ⟨us, vs, left ++ [], hts, ?_⟩
          rw [← List.append_nil (us ++ vs)]
          exact .more hd .done
        · have hl := length_lt_of_reading hpp.2 ha
          obtain ⟨us, hts, hd⟩ := derives_of_reading ha
          obtain ⟨us', vs, right, rfl, hd'⟩ := ih hp hk hb (Pattern.depthFor_passes hn hl)
          refine ⟨us ++ us', vs, left ++ right, by rw [hts, List.append_assoc], ?_⟩
          rw [List.append_assoc]
          exact .more hd hd'
      · cases h

/-- The tokens that a reading stops at, whether it finds the pattern or not. -/
def stopOf : Parsed → List Token
  | .ok (_, rest) => rest
  | .error rest => rest

/-- The reading with other tokens where it stops. -/
def withStop (rest : List Token) : Parsed → Parsed
  | .ok (trees, _) => .ok (trees, rest)
  | .error _ => .error rest

theorem exists_append_stopOf {p : Pattern} (hp : p.isProper = true) (hk : p.hasKinds = true)
    (ts : List Token) : ∃ us, ts = us ++ stopOf (reading p ts) := by
  cases h : reading p ts with
  | error rest =>
    obtain ⟨us, -, -, hts, -⟩ := exists_derives_of_error hp hk h
    exact ⟨us, hts⟩
  | ok parsed =>
    obtain ⟨us, hts, -⟩ := derives_of_reading h
    exact ⟨us, hts⟩

/-- If a reading of the tokens stops before `r`, it is the same with other tokens in its place. -/
def ReadsLocally (p : Pattern) (x r : List Token) : Prop :=
  ∀ y r', y ≠ [] → stopOf (reading p (x ++ r)) = y ++ r →
    reading p (x ++ r') = withStop (y ++ r') (reading p (x ++ r))

theorem stopOf_map (f : List Tree → List Tree) (parsed : Parsed) :
    stopOf (parsed.map fun (trees, rest) => (f trees, rest)) = stopOf parsed := by
  cases parsed <;> rfl

theorem withStop_map (f : List Tree → List Tree) (rest : List Token) (parsed : Parsed) :
    (withStop rest parsed).map (fun (trees, rest) => (f trees, rest)) =
      withStop rest (parsed.map fun (trees, rest) => (f trees, rest)) := by
  cases parsed <;> rfl

/-- Two readings one after another are local if each of them is. -/
theorem andThen_withStop {a b : Pattern} {x y r : List Token} (r' : List Token) (hy : y ≠ [])
    (hb : b.isProper = true) (hk : b.hasKinds = true) (first : ReadsLocally a x r)
    (second : ∀ left z, reading a (x ++ r) = .ok (left, z ++ r) → ReadsLocally b z r)
    (h : stopOf (andThen (reading a (x ++ r)) (reading b)) = y ++ r) :
    andThen (reading a (x ++ r')) (reading b) =
      withStop (y ++ r') (andThen (reading a (x ++ r)) (reading b)) := by
  cases ha : reading a (x ++ r) with
  | error rest =>
    rw [ha] at h
    rw [first y r' hy (by rw [ha]; exact h), ha]
    rfl
  | ok parsed =>
    obtain ⟨left, mid⟩ := parsed
    rw [ha, andThen, stopOf_map] at h
    obtain ⟨us, hus⟩ := exists_append_stopOf hb hk mid
    rw [h, ← List.append_assoc] at hus
    subst hus
    have hne : us ++ y ≠ [] := by simp [hy]
    rw [first (us ++ y) r' hne (by rw [ha]; rfl), ha]
    show (reading b (us ++ y ++ r')).map _ = withStop _ ((reading b (us ++ y ++ r)).map _)
    rw [second left (us ++ y) ha y r' hy h, withStop_map]

theorem readsLocally {p : Pattern} (hp : p.isProper = true) (hk : p.hasKinds = true)
    (x r : List Token) : ReadsLocally p x r := by
  obtain ⟨n, hn⟩ : ∃ n, p.depthFor (x ++ r) ≤ n := ⟨_, Nat.le_refl _⟩
  induction n generalizing p x with
  | zero => exact absurd hn (p.not_depthFor_le_zero _)
  | succ n ih =>
    intro y r' hy h
    -- The reading stops inside of `x`, so the token that it starts with is in there too.
    obtain ⟨t, xs, rfl⟩ : ∃ t xs, x = t :: xs := by
      obtain ⟨us, hus⟩ := exists_append_stopOf hp hk (x ++ r)
      rw [h, ← List.append_assoc] at hus
      rw [List.append_cancel_right hus]
      exact List.exists_cons_of_ne_nil (by simp [hy])
    have hsame {z : List Token} (h : z ++ r = y ++ r) : z ++ r' = y ++ r' := by
      rw [List.append_cancel_right h]
    have hstart (q : Pattern) : canStart q (t :: xs ++ r') = canStart q (t :: xs ++ r) := rfl
    by_cases htoken : p.isToken = true
    · rw [List.cons_append] at h ⊢
      obtain ⟨trees, hr⟩ | hr := reading_token htoken t
      · rw [hr] at h
        rw [List.cons_append, hr, hr]
        exact congrArg (fun rest => Except.ok (trees, rest)) (hsame h)
      · rw [hr] at h
        rw [List.cons_append, hr, hr]
        exact congrArg Except.error (hsame (z := t :: xs) h)
    cases p with
    | keep | skip => exact absurd rfl htoken
    | rule r₀ =>
      rw [reading_rule, stopOf_map] at h
      rw [reading_rule, reading_rule, ← withStop_map,
        ih r₀.isProper_pattern r₀.hasKinds_pattern _ (Pattern.depthFor_rule hn) y r' hy h]
    | seq a b =>
      obtain ⟨hab, -⟩ := Pattern.isProper_seq hp
      rw [Pattern.hasKinds, Bool.and_eq_true] at hk
      rw [reading_seq hp] at h
      rw [reading_seq hp, reading_seq hp]
      refine andThen_withStop r' hy hab.2 hk.2 ?_ (fun left z ha => ?_) h
      · exact ih hab.1 hk.1 _ (Pattern.depthFor_first hn)
      · exact ih hab.2 hk.2 z (Pattern.depthFor_second hp hn ha)
    | either a b =>
      have hab := Pattern.isProper_either hp
      have hd := Pattern.depthFor_either hn
      rw [Pattern.hasKinds, Bool.and_eq_true] at hk
      rw [reading_either hp] at h
      rw [reading_either hp, reading_either hp, hstart]
      split_ifs at h ⊢ with hs
      · exact ih hab.1 hk.1 _ hd.1 y r' hy h
      · exact ih hab.2 hk.2 _ hd.2 y r' hy h
    | optional p =>
      have hp' : p.isProper = true := hp
      rw [reading_optional hp'] at h
      rw [reading_optional hp', reading_optional hp', hstart]
      split_ifs at h ⊢ with hs
      · exact ih hp' hk _ (Pattern.depthFor_optional hn) y r' hy h
      · exact congrArg (fun rest => Except.ok ([], rest)) (hsame h)
    | many p =>
      have hpp := Pattern.isProper_many hp
      rw [reading_many hp] at h
      rw [reading_many hp, reading_many hp, hstart]
      split_ifs at h ⊢ with hs
      · refine andThen_withStop r' hy hp hk ?_ (fun left z ha => ?_) h
        · exact ih hpp.1 hk _ (Pattern.depthFor_pass hn (Nat.le_refl _))
        · exact ih hp hk z (Pattern.depthFor_passes hn (length_lt_of_reading hpp.2 ha))
      · exact congrArg (fun rest => Except.ok ([], rest)) (hsame h)

/-- A program that begins like tokens at which reading stops does not go on with the next one. -/
theorem not_isViable_of_stopOf {us more : List Token} {t : Token}
    (h : stopOf (reading (.rule .program) (us ++ t :: more)) = t :: more) :
    ¬ IsViable (us ++ [t]) := by
  rintro ⟨vs, hv⟩
  obtain ⟨tree, ht⟩ := exists_isTreeOf_iff.2 hv
  have hread := reading_program_iff.2 ht
  have hlocal := readsLocally (p := .rule .program) rfl rfl (us ++ [t]) more [t] vs
    (List.cons_ne_nil _ _) (by simpa using h)
  rw [hread] at hlocal
  have hstop : [] = t :: vs := by
    cases hr : reading (.rule .program) (us ++ [t] ++ more) with
    | error rest => rw [hr] at hlocal; cases hlocal
    | ok parsed =>
      rw [hr] at hlocal
      exact (Prod.mk.inj (Except.ok.inj hlocal)).2
  cases hstop

theorem firstUnviable_of_error {ts rest : List Token} (h : readProgram ts = .error rest) :
    FirstUnviable ts rest := by
  have hno : ¬ IsProgram ts := by
    intro hp
    obtain ⟨trees, hok⟩ := isProgram_iff.1 hp
    rw [h] at hok
    cases hok
  obtain ⟨us, hts, hv, hstop⟩ : ∃ us, ts = us ++ rest ∧ IsViable us ∧
      stopOf (reading (.rule .program) ts) = rest := by
    rw [readProgram_eq] at h
    split at h
    · next hr =>
      cases h
      obtain ⟨us, vs, trees, hts, hd⟩ := exists_derives_of_error rfl rfl hr
      exact ⟨us, hts, ⟨vs, trees, hd⟩, by rw [hr]; rfl⟩
    · cases h
    · next hr =>
      cases h
      obtain ⟨us, hts, hd⟩ := derives_of_reading hr
      exact ⟨us, hts, ⟨[], _, by rwa [List.append_nil]⟩, by rw [hr]; rfl⟩
  cases rest with
  | nil =>
    rw [List.append_nil] at hts
    subst hts
    exact .ending hv hno
  | cons t more =>
    subst hts
    exact .token hv (not_isViable_of_stopOf hstop)

theorem FirstUnviable.exists_append {ts rest : List Token} (h : FirstUnviable ts rest) :
    ∃ us, ts = us ++ rest ∧ IsViable us := by
  cases h with
  | token viable unviable => exact ⟨_, rfl, viable⟩
  | ending viable unfinished => exact ⟨_, (List.append_nil _).symm, viable⟩

/-- The front of a program ends before the first token that none goes on with. -/
theorem FirstUnviable.suffix {us vs rest : List Token} (h : FirstUnviable (us ++ vs) rest)
    (hv : IsViable us) : rest <:+ vs := by
  generalize hts : us ++ vs = ts at h
  cases h with
  | ending => exact List.nil_suffix
  | @token us' more t viable unviable =>
    obtain ⟨as, -, hvs⟩ | ⟨bs, hus, hmore⟩ := List.append_eq_append_iff.1 hts
    · exact ⟨as, hvs.symm⟩
    · cases bs with
      | nil => exact ⟨[], hmore⟩
      | cons b bs =>
        cases hmore
        rw [hus, List.append_cons] at hv
        exact absurd hv.of_append unviable

theorem FirstUnviable.unique {ts rest rest' : List Token} (h : FirstUnviable ts rest)
    (h' : FirstUnviable ts rest') : rest = rest' := by
  obtain ⟨us, rfl, hv⟩ := h.exists_append
  obtain ⟨us', hts, hv'⟩ := h'.exists_append
  have hle : rest' <:+ rest := h'.suffix hv
  rw [hts] at h
  exact (h.suffix hv').eq_of_length_le hle.length_le

theorem FirstUnviable.not_isProgram {ts rest : List Token} (h : FirstUnviable ts rest) :
    ¬ IsProgram ts := by
  cases h with
  | @token us more t viable unviable =>
    intro hp
    exact unviable ⟨more, by simpa using hp⟩
  | ending viable unfinished => exact unfinished

/-- Reading fails at the first token that no program goes on with. -/
theorem readProgram_eq_error_iff {ts rest : List Token} :
    readProgram ts = .error rest ↔ FirstUnviable ts rest := by
  constructor
  · exact firstUnviable_of_error
  · intro h
    cases hr : readProgram ts with
    | ok trees => exact absurd (isProgram_iff.2 ⟨trees, hr⟩) h.not_isProgram
    | error rest' => rw [h.unique (firstUnviable_of_error hr)]

/-- The strict front end refuses a text at its first token that no program goes on with, or, if it
ends before that, at its end. -/
theorem parse_of_firstUnviable {source : String} {tokens rest : List Token} {ending : Ending}
    (hs : scan source.toList 1 source.toList = (tokens, ending)) (h : FirstUnviable tokens rest) :
    parse source = .error (refusal source.toList ending rest) := by
  rw [parse, hs]
  simp only [readProgram_eq_error_iff.2 h]

end LetLang.Strict
