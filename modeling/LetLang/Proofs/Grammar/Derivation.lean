import LetLang.Strict.Tree

namespace LetLang.Strict

/-- The tokens are a text of the pattern, and these are the trees it leaves. -/
inductive Derives : Pattern → List Token → List Tree → Prop
  | keep {kinds : List TokenKind} {t : Token} (h : t.kind ∈ kinds) :
    Derives (.keep kinds) [t] [.leaf t]
  | skip {kind : TokenKind} {t : Token} (h : t.kind = kind) : Derives (.skip kind) [t] []
  | rule {r : Rule} {us : List Token} {children : List Tree} (h : Derives r.pattern us children) :
    Derives (.rule r) us (r.tree children)
  | seq {a b : Pattern} {us vs : List Token} {left right : List Tree}
    (first : Derives a us left) (second : Derives b vs right) :
    Derives (.seq a b) (us ++ vs) (left ++ right)
  | eitherFirst {a b : Pattern} {us : List Token} {trees : List Tree} (h : Derives a us trees) :
    Derives (.either a b) us trees
  | eitherSecond {a b : Pattern} {us : List Token} {trees : List Tree} (h : Derives b us trees) :
    Derives (.either a b) us trees
  | absent {p : Pattern} : Derives (.optional p) [] []
  | present {p : Pattern} {us : List Token} {trees : List Tree} (h : Derives p us trees) :
    Derives (.optional p) us trees
  | done {p : Pattern} : Derives (.many p) [] []
  | more {p : Pattern} {us vs : List Token} {left right : List Tree}
    (first : Derives p us left) (others : Derives (.many p) vs right) :
    Derives (.many p) (us ++ vs) (left ++ right)

/-- Does the tree end in a condition that could still take an `else`? -/
def Tree.openIf : Tree → Bool
  | .node .ifStmt [_, _] => true
  | .node .ifStmt [_, _, other] => other.openIf
  | _ => false

/-- May a rule have these children? A condition with an `else` must not hold another one in front
of it that could take that `else`. -/
def Rule.nearestElse (r : Rule) (children : List Tree) : Bool :=
  match r, children with
  | .ifStmt, [_, thenBranch, _] => !thenBranch.openIf
  | _, _ => true

mutual
/-- Every `else` goes with the nearest `if` that could take it. -/
def Tree.elsesNearest : Tree → Bool
  | .leaf _ => true
  | .node r children => r.nearestElse children && elsesNearestAll children
def elsesNearestAll : List Tree → Bool
  | [] => true
  | tree :: trees => tree.elsesNearest && elsesNearestAll trees
end

/-- The tree of the tokens as a whole program. -/
structure IsTreeOf (tree : Tree) (tokens : List Token) : Prop where
  derives : Derives (.rule .program) tokens [tree]
  nearest : tree.elsesNearest = true

theorem elsesNearestAll_append (left right : List Tree) :
    elsesNearestAll (left ++ right) = (elsesNearestAll left && elsesNearestAll right) := by
  induction left with
  | nil => rfl
  | cons tree left ih => simp only [List.cons_append, elsesNearestAll, ih, Bool.and_assoc]

theorem Rule.tree_cases (r : Rule) (children : List Tree) :
    (r.isTransparent = true ∧ ∃ child, children = [child] ∧ r.tree children = [child]) ∨
      r.tree children = [.node r children] := by
  unfold Rule.tree
  split
  · next child h => exact .inl ⟨h, child, rfl, rfl⟩
  · exact .inr rfl

theorem Rule.tree_eq_node {r : Rule} (h : r.isTransparent = false) (children : List Tree) :
    r.tree children = [.node r children] := by
  simp [Rule.tree, h]

/-- A rule leaves one tree. -/
theorem Rule.exists_tree (r : Rule) (children : List Tree) :
    ∃ tree, r.tree children = [tree] := by
  obtain ⟨-, child, -, h⟩ | h := r.tree_cases children
  · exact ⟨child, h⟩
  · exact ⟨_, h⟩

theorem Rule.elsesNearest_tree {r : Rule} {children : List Tree}
    (h : r.nearestElse children = true) (hc : elsesNearestAll children = true) :
    elsesNearestAll (r.tree children) = true := by
  obtain ⟨-, child, rfl, ht⟩ | ht := r.tree_cases children
  · rw [ht]
    exact hc
  · simp [ht, elsesNearestAll, Tree.elsesNearest, h, hc]

theorem derives_keep_iff {kinds : List TokenKind} {us : List Token} {trees : List Tree} :
    Derives (.keep kinds) us trees ↔ ∃ t, t.kind ∈ kinds ∧ us = [t] ∧ trees = [.leaf t] := by
  constructor
  · intro h
    cases h with
    | keep h => exact ⟨_, h, rfl, rfl⟩
  · rintro ⟨t, h, rfl, rfl⟩
    exact .keep h

theorem derives_skip_iff {kind : TokenKind} {us : List Token} {trees : List Tree} :
    Derives (.skip kind) us trees ↔ ∃ t, t.kind = kind ∧ us = [t] ∧ trees = [] := by
  constructor
  · intro h
    cases h with
    | skip h => exact ⟨_, h, rfl, rfl⟩
  · rintro ⟨t, h, rfl, rfl⟩
    exact .skip h

theorem derives_rule_iff {r : Rule} {us : List Token} {trees : List Tree} :
    Derives (.rule r) us trees ↔
      ∃ children, Derives r.pattern us children ∧ trees = r.tree children := by
  constructor
  · intro h
    cases h with
    | rule h => exact ⟨_, h, rfl⟩
  · rintro ⟨children, h, rfl⟩
    exact .rule h

theorem derives_seq_iff {a b : Pattern} {us : List Token} {trees : List Tree} :
    Derives (.seq a b) us trees ↔ ∃ vs ws left right, us = vs ++ ws ∧ trees = left ++ right ∧
      Derives a vs left ∧ Derives b ws right := by
  constructor
  · intro h
    cases h with
    | seq ha hb => exact ⟨_, _, _, _, rfl, rfl, ha, hb⟩
  · rintro ⟨vs, ws, left, right, rfl, rfl, ha, hb⟩
    exact .seq ha hb

theorem derives_either_iff {a b : Pattern} {us : List Token} {trees : List Tree} :
    Derives (.either a b) us trees ↔ Derives a us trees ∨ Derives b us trees := by
  constructor
  · intro h
    cases h with
    | eitherFirst h => exact .inl h
    | eitherSecond h => exact .inr h
  · rintro (h | h)
    · exact .eitherFirst h
    · exact .eitherSecond h

theorem derives_optional_iff {p : Pattern} {us : List Token} {trees : List Tree} :
    Derives (.optional p) us trees ↔ (us = [] ∧ trees = []) ∨ Derives p us trees := by
  constructor
  · intro h
    cases h with
    | absent => exact .inl ⟨rfl, rfl⟩
    | present h => exact .inr h
  · rintro (⟨rfl, rfl⟩ | h)
    · exact .absent
    · exact .present h

theorem Derives.exists_tree {r : Rule} {us : List Token} {trees : List Tree}
    (h : Derives (.rule r) us trees) : ∃ tree, trees = [tree] := by
  obtain ⟨children, -, rfl⟩ := derives_rule_iff.1 h
  exact r.exists_tree children

section
variable (depth : Nat) (ts : List Token)

theorem read_keep_cons (kinds : List TokenKind) (t : Token) :
    read (depth + 1) (.keep kinds) (t :: ts) =
      if t.kind ∈ kinds then .ok ([.leaf t], ts) else .error (t :: ts) := rfl

theorem read_skip_cons (kind : TokenKind) (t : Token) :
    read (depth + 1) (.skip kind) (t :: ts) =
      if t.kind = kind then .ok ([], ts) else .error (t :: ts) := rfl

theorem read_rule (r : Rule) :
    read (depth + 1) (.rule r) ts =
      (read depth r.pattern ts).map fun (children, rest) => (r.tree children, rest) := rfl

theorem read_seq (a b : Pattern) :
    read (depth + 1) (.seq a b) ts =
      match read depth a ts with
      | .error ts => .error ts
      | .ok (left, rest) =>
        (read depth b rest).map fun (right, rest) => (left ++ right, rest) := rfl

theorem read_either (a b : Pattern) :
    read (depth + 1) (.either a b) ts =
      if canStart a ts then read depth a ts else read depth b ts := rfl

theorem read_optional (p : Pattern) :
    read (depth + 1) (.optional p) ts =
      if canStart p ts then read depth p ts else .ok ([], ts) := rfl

theorem read_many (p : Pattern) :
    read (depth + 1) (.many p) ts = repeatWhile (canStart p) (read depth p) ts ts := rfl

end

theorem derives_of_repeatWhile {p : Pattern} {more : List Token → Bool}
    {step : List Token → Parsed}
    (hstep : ∀ ts trees rest, step ts = .ok (trees, rest) →
      ∃ us, ts = us ++ rest ∧ Derives p us trees)
    {bound ts rest : List Token} {trees : List Tree}
    (h : repeatWhile more step bound ts = .ok (trees, rest)) :
    ∃ us, ts = us ++ rest ∧ Derives (.many p) us trees := by
  induction bound generalizing ts trees rest with
  | nil =>
    cases h
    exact ⟨[], rfl, .done⟩
  | cons b bound ih =>
    unfold repeatWhile at h
    split at h
    · split at h
      · cases h
      · next first mid hf =>
        split at h
        · cases h
        · next others last ho =>
          cases h
          obtain ⟨us, rfl, hu⟩ := hstep _ _ _ hf
          obtain ⟨vs, rfl, hv⟩ := ih ho
          exact ⟨us ++ vs, (List.append_assoc ..).symm, .more hu hv⟩
    · cases h
      exact ⟨[], rfl, .done⟩

/-- A reading takes a text of the pattern from the front of the tokens. -/
theorem derives_of_read {depth : Nat} {p : Pattern} {ts rest : List Token} {trees : List Tree}
    (h : read depth p ts = .ok (trees, rest)) : ∃ us, ts = us ++ rest ∧ Derives p us trees := by
  -- On the depth, since a rule is read as its pattern, which is no part of it.
  induction depth generalizing p ts rest trees with
  | zero => cases h
  | succ depth ih =>
    cases p with
    | keep kinds =>
      cases ts with
      | nil => cases h
      | cons t ts =>
        by_cases ht : t.kind ∈ kinds
        · rw [read_keep_cons, if_pos ht] at h
          cases h
          exact ⟨[t], rfl, .keep ht⟩
        · rw [read_keep_cons, if_neg ht] at h
          cases h
    | skip kind =>
      cases ts with
      | nil => cases h
      | cons t ts =>
        by_cases ht : t.kind = kind
        · rw [read_skip_cons, if_pos ht] at h
          cases h
          exact ⟨[t], rfl, .skip ht⟩
        · rw [read_skip_cons, if_neg ht] at h
          cases h
    | rule r =>
      cases hr : read depth r.pattern ts with
      | error ts' => simp [read_rule, hr, Except.map] at h
      | ok parsed =>
        obtain ⟨children, rest'⟩ := parsed
        simp only [read_rule, hr, Except.map, Except.ok.injEq, Prod.mk.injEq] at h
        obtain ⟨rfl, rfl⟩ := h
        obtain ⟨us, rfl, hu⟩ := ih hr
        exact ⟨us, rfl, .rule hu⟩
    | seq a b =>
      cases ha : read depth a ts with
      | error ts' => simp [read_seq, ha] at h
      | ok parsed =>
        obtain ⟨left, mid⟩ := parsed
        cases hb : read depth b mid with
        | error ts' => simp [read_seq, ha, hb, Except.map] at h
        | ok parsed =>
          obtain ⟨right, rest'⟩ := parsed
          simp only [read_seq, ha, hb, Except.map, Except.ok.injEq, Prod.mk.injEq] at h
          obtain ⟨rfl, rfl⟩ := h
          obtain ⟨us, rfl, hu⟩ := ih ha
          obtain ⟨vs, rfl, hv⟩ := ih hb
          exact ⟨us ++ vs, (List.append_assoc ..).symm, .seq hu hv⟩
    | either a b =>
      rw [read_either] at h
      split at h
      · obtain ⟨us, hs, hu⟩ := ih h
        exact ⟨us, hs, .eitherFirst hu⟩
      · obtain ⟨us, hs, hu⟩ := ih h
        exact ⟨us, hs, .eitherSecond hu⟩
    | optional p =>
      rw [read_optional] at h
      split at h
      · obtain ⟨us, hs, hu⟩ := ih h
        exact ⟨us, hs, .present hu⟩
      · cases h
        exact ⟨[], rfl, .absent⟩
    | many p => exact derives_of_repeatWhile (fun _ _ _ => ih) h

end LetLang.Strict
