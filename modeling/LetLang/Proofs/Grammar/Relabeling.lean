import LetLang.Proofs.Grammar.Derivation

namespace LetLang.Strict

mutual
def Tree.map (f : Token → Token) : Tree → Tree
  | .leaf t => .leaf (f t)
  | .node r children => .node r (mapAll f children)
def mapAll (f : Token → Token) : List Tree → List Tree
  | [] => []
  | tree :: trees => tree.map f :: mapAll f trees
end

section
variable {f : Token → Token}

theorem mapAll_append (left right : List Tree) :
    mapAll f (left ++ right) = mapAll f left ++ mapAll f right := by
  induction left with
  | nil => rfl
  | cons tree left ih => simp only [List.cons_append, mapAll, ih]

theorem Rule.tree_mapAll (r : Rule) (children : List Tree) :
    r.tree (mapAll f children) = mapAll f (r.tree children) := by
  unfold Rule.tree
  cases r.isTransparent with
  | false => rfl
  | true =>
    match children with
    | [] | [_] | _ :: _ :: _ => rfl

mutual
theorem Tree.openIf_map : ∀ tree : Tree, (tree.map f).openIf = tree.openIf
  | .leaf _ => rfl
  | .node r children => by
    by_cases hr : r = .ifStmt
    · subst hr
      match children with
      | [] | [_] | [_, _] | _ :: _ :: _ :: _ :: _ => rfl
      | [_, _, other] => exact other.openIf_map
    · rw [Tree.map]
      cases r <;> first | rfl | exact absurd rfl hr
end

theorem Rule.nearestElse_mapAll (r : Rule) (children : List Tree) :
    r.nearestElse (mapAll f children) = r.nearestElse children := by
  by_cases hr : r = .ifStmt
  · subst hr
    match children with
    | [] | [_] | [_, _] | _ :: _ :: _ :: _ :: _ => rfl
    | [_, thenBranch, _] => simp only [mapAll, Rule.nearestElse, Tree.openIf_map]
  · cases r <;> first | rfl | exact absurd rfl hr

mutual
theorem Tree.elsesNearest_map : ∀ tree : Tree, (tree.map f).elsesNearest = tree.elsesNearest
  | .leaf _ => rfl
  | .node r children => by
    rw [Tree.map, Tree.elsesNearest, Tree.elsesNearest, r.nearestElse_mapAll,
      elsesNearestAll_mapAll children]
theorem elsesNearestAll_mapAll : ∀ trees : List Tree,
    elsesNearestAll (mapAll f trees) = elsesNearestAll trees
  | [] => rfl
  | tree :: trees => by
    rw [mapAll, elsesNearestAll, elsesNearestAll, tree.elsesNearest_map, elsesNearestAll_mapAll trees]
end

variable (hf : ∀ t, (f t).kind = t.kind)

include hf in
theorem Derives.map {p : Pattern} {us : List Token} {trees : List Tree} (h : Derives p us trees) :
    Derives p (us.map f) (mapAll f trees) := by
  induction h with
  | keep h => exact .keep (by rwa [hf])
  | skip h => exact .skip (by rwa [hf])
  | @rule r us children h ih =>
    rw [← r.tree_mapAll]
    exact .rule ih
  | seq _ _ iha ihb =>
    rw [List.map_append, mapAll_append]
    exact .seq iha ihb
  | eitherFirst _ ih => exact .eitherFirst ih
  | eitherSecond _ ih => exact .eitherSecond ih
  | absent => exact .absent
  | present _ ih => exact .present ih
  | done => exact .done
  | more _ _ iha ihb =>
    rw [List.map_append, mapAll_append]
    exact .more iha ihb

include hf in
theorem Derives.of_map {p : Pattern} {us vs : List Token} {trees : List Tree}
    (h : Derives p vs trees) (hv : vs = us.map f) :
    ∃ originals, Derives p us originals ∧ trees = mapAll f originals := by
  -- On the derivation; a list that is split after relabeling is split at the same place before.
  induction h generalizing us with
  | @keep kinds t h =>
    obtain ⟨u, rfl, rfl⟩ : ∃ u, us = [u] ∧ f u = t := by
      obtain ⟨u, us', rfl, hu, hn⟩ := List.map_eq_cons_iff.1 hv.symm
      exact ⟨u, by rw [List.map_eq_nil_iff.1 hn], hu⟩
    exact ⟨[.leaf u], .keep (by rwa [hf] at h), rfl⟩
  | @skip kind t h =>
    obtain ⟨u, rfl, rfl⟩ : ∃ u, us = [u] ∧ f u = t := by
      obtain ⟨u, us', rfl, hu, hn⟩ := List.map_eq_cons_iff.1 hv.symm
      exact ⟨u, by rw [List.map_eq_nil_iff.1 hn], hu⟩
    exact ⟨[], .skip (by rwa [hf] at h), rfl⟩
  | @rule r _ _ _ ih =>
    obtain ⟨children, hc, rfl⟩ := ih hv
    exact ⟨_, .rule hc, r.tree_mapAll children⟩
  | seq _ _ iha ihb =>
    obtain ⟨us₁, us₂, rfl, h₁, h₂⟩ := List.map_eq_append_iff.1 hv.symm
    obtain ⟨left, hl, rfl⟩ := iha h₁.symm
    obtain ⟨right, hr, rfl⟩ := ihb h₂.symm
    exact ⟨_, .seq hl hr, (mapAll_append left right).symm⟩
  | eitherFirst _ ih =>
    obtain ⟨originals, ho, rfl⟩ := ih hv
    exact ⟨_, .eitherFirst ho, rfl⟩
  | eitherSecond _ ih =>
    obtain ⟨originals, ho, rfl⟩ := ih hv
    exact ⟨_, .eitherSecond ho, rfl⟩
  | absent =>
    rw [List.map_eq_nil_iff.1 hv.symm]
    exact ⟨[], .absent, rfl⟩
  | present _ ih =>
    obtain ⟨originals, ho, rfl⟩ := ih hv
    exact ⟨_, .present ho, rfl⟩
  | done =>
    rw [List.map_eq_nil_iff.1 hv.symm]
    exact ⟨[], .done, rfl⟩
  | more _ _ iha ihb =>
    obtain ⟨us₁, us₂, rfl, h₁, h₂⟩ := List.map_eq_append_iff.1 hv.symm
    obtain ⟨left, hl, rfl⟩ := iha h₁.symm
    obtain ⟨right, hr, rfl⟩ := ihb h₂.symm
    exact ⟨_, .more hl hr, (mapAll_append left right).symm⟩

include hf in
/-- A change of tokens that keeps their kinds changes a tree in its leaves only. -/
theorem isTreeOf_map_iff {us : List Token} {tree : Tree} :
    IsTreeOf tree (us.map f) ↔ ∃ original, tree = original.map f ∧ IsTreeOf original us := by
  constructor
  · intro h
    obtain ⟨originals, ho, ht⟩ := h.derives.of_map hf rfl
    obtain ⟨original, rfl⟩ := ho.exists_tree
    have ht : tree = original.map f := by simpa [mapAll] using ht
    exact ⟨original, ht, ho, by rw [← original.elsesNearest_map, ← ht, h.nearest]⟩
  · rintro ⟨original, rfl, h⟩
    exact ⟨h.derives.map hf, by rw [original.elsesNearest_map, h.nearest]⟩

end

/-- Does the pattern itself mention the kind? -/
def Pattern.mentions (kind : TokenKind) : Pattern → Bool
  | .keep kinds => kind ∈ kinds
  | .skip k => kind = k
  | .rule _ => false
  | .seq a b | .either a b => a.mentions kind || b.mentions kind
  | .optional p | .many p => p.mentions kind

/-- A kind that no rule mentions stands in no text. -/
theorem Derives.kind_ne {kind : TokenKind} (hr : ∀ r : Rule, r.pattern.mentions kind = false)
    {p : Pattern} {us : List Token} {trees : List Tree} (h : Derives p us trees)
    (hp : p.mentions kind = false) : ∀ t ∈ us, t.kind ≠ kind := by
  induction h with
  | keep h =>
    simp only [Pattern.mentions, decide_eq_false_iff_not] at hp
    simp only [List.mem_singleton, forall_eq]
    rintro rfl
    exact hp h
  | skip h =>
    simp only [Pattern.mentions, decide_eq_false_iff_not] at hp
    simp only [List.mem_singleton, forall_eq, h]
    exact fun he => hp he.symm
  | @rule r _ _ _ ih => exact ih (hr r)
  | seq _ _ iha ihb =>
    rw [Pattern.mentions, Bool.or_eq_false_iff] at hp
    exact List.forall_mem_append.2 ⟨iha hp.1, ihb hp.2⟩
  | more _ _ iha ihb => exact List.forall_mem_append.2 ⟨iha hp, ihb hp⟩
  | eitherFirst _ ih =>
    rw [Pattern.mentions, Bool.or_eq_false_iff] at hp
    exact ih hp.1
  | eitherSecond _ ih =>
    rw [Pattern.mentions, Bool.or_eq_false_iff] at hp
    exact ih hp.2
  | absent | done => simp
  | present _ ih => exact ih hp

end LetLang.Strict
