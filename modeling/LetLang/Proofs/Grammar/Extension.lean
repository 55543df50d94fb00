import LetLang.Proofs.Grammar.Relabeling
import LetLang.Proofs.Grammar.Uniqueness

namespace LetLang.Strict

/-- The kinds of token that stand in no rule. -/
def strayKinds : List TokenKind := [.dot, .colon, .questionMark]

theorem Rule.mentions_stray (r : Rule) : ∀ k ∈ strayKinds, r.pattern.mentions k = false := by
  cases r <;> decide

theorem Rule.starters_stray (r : Rule) : ∀ k ∈ strayKinds, k ∉ r.starters := by
  cases r <;> decide

theorem startsWith_stray {k : TokenKind} (hk : k ∈ strayKinds) {p : Pattern}
    (hp : p.mentions k = false) : p.startsWith k = false := by
  induction p with
  | keep kinds | skip kind => exact hp
  | rule r => simpa [Pattern.startsWith] using r.starters_stray k hk
  | seq a b iha ihb =>
    rw [Pattern.mentions, Bool.or_eq_false_iff] at hp
    exact iha hp.1
  | either a b iha ihb =>
    rw [Pattern.mentions, Bool.or_eq_false_iff] at hp
    rw [Pattern.startsWith, iha hp.1, ihb hp.2]
    rfl
  | optional p ih | many p ih => exact ih hp

/-- The pattern cannot go on with these tokens, if there are any. -/
def Pattern.StopsBefore (p : Pattern) (ws : List Token) : Prop :=
  ∀ t ∈ ws.head?, t.kind ∈ strayKinds ∧ p.mentions t.kind = false

section
variable {ws : List Token}

theorem Pattern.StopsBefore.rule {r : Rule} (h : (Pattern.rule r).StopsBefore ws) :
    r.pattern.StopsBefore ws :=
  fun t ht => ⟨(h t ht).1, r.mentions_stray _ (h t ht).1⟩

theorem Pattern.StopsBefore.seq {a b : Pattern} (h : (Pattern.seq a b).StopsBefore ws) :
    a.StopsBefore ws ∧ b.StopsBefore ws := by
  simp only [StopsBefore, mentions, Bool.or_eq_false_iff] at h ⊢
  exact ⟨fun t ht => ⟨(h t ht).1, (h t ht).2.1⟩, fun t ht => ⟨(h t ht).1, (h t ht).2.2⟩⟩

theorem Pattern.StopsBefore.either {a b : Pattern} (h : (Pattern.either a b).StopsBefore ws) :
    a.StopsBefore ws ∧ b.StopsBefore ws :=
  Pattern.StopsBefore.seq (a := a) (b := b) h

end

/-- A reading of the same tokens when they are changed and more follow them. -/
def extend (f : Token → Token) (ws : List Token) : Parsed → Parsed
  | .ok (trees, rest) => .ok (mapAll f trees, rest.map f ++ ws)
  | .error rest => .error (rest.map f ++ ws)

section
variable {f : Token → Token} {ws : List Token} (hf : ∀ t, (f t).kind = t.kind)
include hf

theorem canStart_extend {p : Pattern} (h : p.StopsBefore ws) (us : List Token) :
    canStart p (us.map f ++ ws) = canStart p us := by
  cases us with
  | cons t us => simp only [List.map_cons, List.cons_append, canStart, hf]
  | nil =>
    cases ws with
    | nil => rfl
    | cons w ws =>
      obtain ⟨hs, hm⟩ := h w rfl
      exact startsWith_stray hs hm

omit hf in
theorem repeatWhile_extend {more : List Token → Bool} {step : List Token → Parsed}
    (hm : ∀ us : List Token, more (us.map f ++ ws) = more us) (hn : more [] = false)
    (hs : ∀ us : List Token, step (us.map f ++ ws) = extend f ws (step us))
    (hl : ∀ us trees rest, step us = .ok (trees, rest) → rest.length < us.length)
    {bound bound' us : List Token} (hb : us.length ≤ bound.length)
    (hb' : (us.map f ++ ws).length ≤ bound'.length) :
    repeatWhile more step bound' (us.map f ++ ws) = extend f ws (repeatWhile more step bound us) := by
  -- the longer text has a bound of its own, of which a pass takes as much
  induction bound generalizing bound' us with
  | nil =>
    have hu : us = [] := List.length_eq_zero_iff.1 (Nat.le_zero.1 hb)
    subst hu
    cases bound' with
    | nil => rfl
    | cons b' bound' =>
      have hmore : more ([].map f ++ ws) = false := (hm []).trans hn
      simp only [repeatWhile, hmore]
      rfl
  | cons b bound ih =>
    cases bound' with
    | nil =>
      have hu : us.map f ++ ws = [] := List.length_eq_zero_iff.1 (Nat.le_zero.1 hb')
      have hu' : us = [] := List.map_eq_nil_iff.1 (List.append_eq_nil_iff.1 hu).1
      subst hu'
      rw [repeatWhile, repeatWhile, if_neg (by rw [hn]; exact Bool.false_ne_true)]
      rfl
    | cons b' bound' =>
      rw [repeatWhile, repeatWhile, hm, hs]
      split
      · cases hr : step us with
        | error rest => rfl
        | ok parsed =>
          obtain ⟨first, rest⟩ := parsed
          have hlt := hl us first rest hr
          simp only [List.length_append, List.length_map, List.length_cons] at hb hb'
          have hrest : (rest.map f ++ ws).length ≤ bound'.length := by
            simp only [List.length_append, List.length_map]
            omega
          simp only [extend]
          rw [ih (by omega) hrest]
          cases repeatWhile more step bound rest with
          | error rest' => rfl
          | ok parsed =>
            simp only [extend, mapAll_append]
      · rfl

theorem read_extend {p : Pattern} (hp : p.isProper = true) (h : p.StopsBefore ws) (depth : Nat)
    (us : List Token) : read depth p (us.map f ++ ws) = extend f ws (read depth p us) := by
  induction depth generalizing p us with
  | zero => rfl
  | succ depth ih =>
    cases p with
    | keep kinds =>
      cases us with
      | cons t us =>
        simp only [List.map_cons, List.cons_append, read_keep_cons, hf]
        split <;> rfl
      | nil =>
        cases ws with
        | nil => rfl
        | cons w ws =>
          -- the text has ended, and the token behind it is none that the pattern mentions
          have hw : w.kind ∉ kinds := by simpa [Pattern.mentions] using (h w rfl).2
          simp only [List.map_nil, List.nil_append, read_keep_cons, if_neg hw]
          rfl
    | skip kind =>
      cases us with
      | cons t us =>
        simp only [List.map_cons, List.cons_append, read_skip_cons, hf]
        split <;> rfl
      | nil =>
        cases ws with
        | nil => rfl
        | cons w ws =>
          have hw : w.kind ≠ kind := by simpa [Pattern.mentions, eq_comm] using (h w rfl).2
          simp only [List.map_nil, List.nil_append, read_skip_cons, if_neg hw]
          rfl
    | rule r =>
      rw [read_rule, read_rule, ih r.isProper_pattern h.rule]
      cases read depth r.pattern us with
      | error rest => rfl
      | ok parsed => simp only [extend, Except.map, r.tree_mapAll]
    | seq a b =>
      obtain ⟨hab, -⟩ := Pattern.isProper_seq hp
      rw [read_seq, read_seq, ih hab.1 h.seq.1]
      cases read depth a us with
      | error rest => rfl
      | ok parsed =>
        obtain ⟨left, rest⟩ := parsed
        simp only [extend]
        rw [ih hab.2 h.seq.2]
        cases read depth b rest with
        | error rest' => rfl
        | ok parsed => simp only [extend, Except.map, mapAll_append]
    | either a b =>
      have hab := Pattern.isProper_either hp
      rw [read_either, read_either, canStart_extend hf h.either.1, ih hab.1 h.either.1,
        ih hab.2 h.either.2]
      split <;> rfl
    | optional p =>
      have hs : p.StopsBefore ws := h
      rw [read_optional, read_optional, canStart_extend hf hs, ih (p := p) hp hs]
      split <;> rfl
    | many p =>
      have hs : p.StopsBefore ws := h
      have hp' := Pattern.isProper_many hp
      exact repeatWhile_extend (canStart_extend hf hs) rfl (ih hp'.1 hs)
        (fun _ _ _ => length_lt_of_read hp'.2) (Nat.le_refl _) (Nat.le_refl _)

/-- Where tokens are changed without their kinds, and more of them follow that no rule knows, a
reading goes on and stops just as before. -/
theorem reading_extend {p : Pattern} (hp : p.isProper = true) (h : p.StopsBefore ws)
    (us : List Token) : reading p (us.map f ++ ws) = extend f ws (reading p us) := by
  have hl : p.depthFor us ≤ p.depthFor (us.map f ++ ws) := by
    simp only [Pattern.depthFor, depthPerToken, List.length_append, List.length_map]
    omega
  rw [← read_eq_reading hp hl, ← read_extend hf hp h]
  rfl

/-- What becomes of a whole program when its tokens are changed and others follow. -/
theorem readProgram_extend (h : (Pattern.rule .program).StopsBefore ws) (us : List Token) :
    readProgram (us.map f ++ ws) =
      match readProgram us, ws with
      | .ok trees, [] => .ok (mapAll f trees)
      | .ok _, ws => .error ws
      | .error rest, ws => .error (rest.map f ++ ws) := by
  rw [readProgram_eq, readProgram_eq, reading_extend hf rfl h]
  cases reading (.rule .program) us with
  | error rest => cases ws <;> rfl
  | ok parsed =>
    obtain ⟨trees, rest⟩ := parsed
    cases rest <;> cases ws <;> simp [extend]

end

end LetLang.Strict
