import LetLang.Proofs.Grammar.Relabeling
import LetLang.Proofs.Lexing.Tokens
import LetLang.Proofs.Parsing.Program

namespace LetLang.Strict

def badNumber (t : Token) : Report :=
  ⟨t.line, Report.placeAt t.text, LexicalError.invalidNumber.message⟩

def badTarget (equals : Token) : Report :=
  ⟨equals.line, Report.placeAt equals.text, SyntaxError.invalidAssignment.message⟩

/-- The defects of a rule's node that are none of its children's. -/
def Rule.ownDefects (r : Rule) (children : List Tree) : List Report :=
  match r, children with
  | .numberLiteral, [.leaf t] => if Piece.isNumber t.text.toList then [] else [badNumber t]
  | r, children => (r.ownBadTargets children).map badTarget

mutual
/-- The defects of a tree, children before their parent. -/
def Tree.defects : Tree → List Report
  | .leaf _ => []
  | .node r children => defectsAll children ++ r.ownDefects children
def defectsAll : List Tree → List Report
  | [] => []
  | tree :: trees => tree.defects ++ defectsAll trees
end

theorem defectsAll_append (left right : List Tree) :
    defectsAll (left ++ right) = defectsAll left ++ defectsAll right := by
  induction left with
  | nil => rfl
  | cons tree left ih => simp only [List.cons_append, defectsAll, ih, List.append_assoc]

theorem Rule.ownDefects_of_ne {r : Rule} (h : r ≠ .numberLiteral) (children : List Tree) :
    r.ownDefects children = (r.ownBadTargets children).map badTarget := by
  unfold Rule.ownDefects
  split
  · exact absurd rfl h
  · rfl

theorem Rule.defects_tree (r : Rule) (children : List Tree) :
    defectsAll (r.tree children) = defectsAll children ++ r.ownDefects children := by
  obtain ⟨hr, child, rfl, ht⟩ | ht := r.tree_cases children
  · have ho : r.ownDefects [child] = [] := by cases r <;> first | rfl | cases hr
    rw [ht, ho, List.append_nil]
  · rw [ht, defectsAll, defectsAll, List.append_nil, Tree.defects]

/-- Where the numbers are good only the targets can be bad. -/
theorem Derives.defects_of_good {p : Pattern} {us : List Token} {trees : List Tree}
    (h : Derives p us trees) (hg : ∀ t ∈ us, t.isGoodNumber) :
    defectsAll trees = (badTargetsAll trees).map badTarget := by
  induction h with
  | keep | skip | absent | done => rfl
  | @rule r us children h ih =>
    rw [r.defects_tree, r.badTargets_tree, List.map_append, ih hg]
    by_cases hr : r = .numberLiteral
    · subst hr
      obtain ⟨t, ht, rfl, rfl⟩ := derives_keep_iff.1 h
      have hn : Piece.isNumber t.text.toList = true :=
        hg t (List.mem_singleton_self t) (by simpa using ht)
      simp [Rule.ownDefects, Rule.ownBadTargets, hn]
    · rw [Rule.ownDefects_of_ne hr]
  | seq _ _ iha ihb | more _ _ iha ihb =>
    rw [List.forall_mem_append] at hg
    rw [defectsAll_append, badTargetsAll_append, List.map_append, iha hg.1, ihb hg.2]
  | eitherFirst _ ih | eitherSecond _ ih | present _ ih => exact ih hg

theorem Derives.good_of_defects {p : Pattern} {us : List Token} {trees : List Tree}
    (h : Derives p us trees) (hn : p.mentions .number = false) (hd : defectsAll trees = []) :
    ∀ t ∈ us, t.isGoodNumber := by
  induction h with
  | @keep kinds t h =>
    refine List.forall_mem_singleton.2 fun hk => ?_
    simp_all [Pattern.mentions]
  | @skip kind t h =>
    refine List.forall_mem_singleton.2 fun hk => ?_
    simp_all [Pattern.mentions]
  | @rule r us children h ih =>
    rw [r.defects_tree, List.append_eq_nil_iff] at hd
    -- A number stands nowhere but in its own rule, which is the one that has it as a defect.
    by_cases hr : r = .numberLiteral
    · subst hr
      obtain ⟨t, ht, rfl, rfl⟩ := derives_keep_iff.1 h
      refine List.forall_mem_singleton.2 fun _ => ?_
      simpa [Rule.ownDefects] using hd.2
    · exact ih (by cases r <;> first | rfl | exact absurd rfl hr) hd.1
  | seq _ _ iha ihb =>
    rw [Pattern.mentions, Bool.or_eq_false_iff] at hn
    rw [defectsAll_append, List.append_eq_nil_iff] at hd
    exact List.forall_mem_append.2 ⟨iha hn.1 hd.1, ihb hn.2 hd.2⟩
  | more _ _ iha ihb =>
    rw [defectsAll_append, List.append_eq_nil_iff] at hd
    exact List.forall_mem_append.2 ⟨iha hn hd.1, ihb hn hd.2⟩
  | eitherFirst _ ih =>
    rw [Pattern.mentions, Bool.or_eq_false_iff] at hn
    exact ih hn.1 hd
  | eitherSecond _ ih =>
    rw [Pattern.mentions, Bool.or_eq_false_iff] at hn
    exact ih hn.2 hd
  | absent | done => exact List.forall_mem_nil _
  | present _ ih => exact ih hn hd

/-- The first defect, or else the result. -/
def firstOf {α : Type} (defects : List Report) (a : α) : Except Report α :=
  match defects with
  | [] => .ok a
  | e :: _ => .error e

theorem firstOf_bind {α β : Type} {ds es : List Report} {a : α} {b : β} {f : α → Except Report β}
    (h : f a = firstOf es b) : (firstOf ds a >>= f) = firstOf (ds ++ es) b := by
  cases ds with
  | nil => exact h
  | cons d ds => rfl

theorem firstOf_map {α β : Type} (ds : List Report) (a : α) (k : α → β) :
    (firstOf ds a >>= fun x => pure (k x)) = firstOf ds (k a) := by
  cases ds <;> rfl

theorem firstOf_eq_ok_iff {α : Type} {ds : List Report} {a b : α} :
    firstOf ds a = .ok b ↔ ds = [] ∧ b = a := by
  cases ds <;> simp [firstOf, eq_comm]

section
variable {t : Token}

theorem plain_eq_self (h : t.IsRead) (hn : t.kind ≠ .number) (hs : t.kind ≠ .string) :
    t.plain = t := by
  obtain ⟨text, hl, hm⟩ := h.text
  obtain ⟨kind, lexeme, literal, line⟩ := t
  cases kind <;> simp_all [Token.plain, Piece.literal]

theorem text_plain (t : Token) : t.plain.text = t.text := rfl

theorem line_plain (t : Token) : t.plain.line = t.line := rfl

theorem numberOf_plain (h : t.IsRead) (hk : t.kind = .number) :
    (numberOf t.plain).map Meaning.node =
      firstOf (Rule.numberLiteral.ownDefects [.leaf t]) (.node (.literal (.data t.literal))) := by
  obtain ⟨text, hl, hm⟩ := h.text
  have ht : t.text.toList = text := by rw [Token.text, hl, Json.display, String.toList_ofList]
  have hv : t.literal = .int (Piece.numberValue t.text.toList) := by rw [hm, hk, ht]; rfl
  cases hn : Piece.isNumber t.text.toList with
  | true => simp [numberOf, text_plain, Rule.ownDefects, hn, hv, Except.map, firstOf]
  | false =>
    simp [numberOf, text_plain, line_plain, Rule.ownDefects, hn, Except.map, firstOf, badNumber]

theorem stringOf_plain (h : t.IsRead) (hk : t.kind = .string) :
    stringOf t.plain = .literal (.data t.literal) := by
  obtain ⟨text, hl, hm⟩ := h.text
  have hp : t.plain.text.toList = text := by
    rw [Token.text, Token.plain, hl, Json.display, String.toList_ofList]
  rw [stringOf, hp, hm, hk]
  rfl

end

theorem combine_of_ne {r : Rule} (hn : r ≠ .numberLiteral) (hs : r ≠ .stringLiteral)
    (ha : r ≠ .assignment) (parts : List Meaning) : combine r parts = .ok (r.build parts) := by
  obtain ⟨m, hm⟩ : ∃ m, combine r parts = .ok m := by
    unfold combine
    split <;> first | exact ⟨_, rfl⟩ | exact absurd rfl hn | exact absurd rfl ha
  have hb : r.build parts = m := by
    unfold Rule.build
    split
    · exact absurd rfl hn
    · exact absurd rfl hs
    · exact absurd rfl ha
    · rw [hm]
  rw [hb, hm]

/-- The tree of a text that some parser follows stands for a node. -/
theorem exists_node {n : Nat} {f : Parser.Parse Node} {r : Rule} (hf : Parser.Follows n 0 f r)
    {us : List Token} {tree : Tree} (h : Derives (.rule r) us [tree])
    (he : tree.elsesNearest = true) (hn : tree.nesting ≤ n) : ∃ node, tree.ast = .node node := by
  have hread := foundWithin _ _ us [tree] [] (Nat.le_refl _) h rfl rfl
    (by simp [elsesNearestAll, he]) (.of_not_extends (by simp) _)
  have ha := hf (us ++ [])
  rw [hread] at ha
  generalize f (us ++ []) = o at ha
  cases ha with
  | @clean node _ _ _ value shallow blame => exact ⟨node, by simpa [astAll] using value⟩
  | tooDeep before after complaints blame error deep =>
    exact absurd (by simpa using hn) (deep [tree] [] rfl).1

theorem combine_assignment {us : List Token} {children : List Tree}
    (h : Derives Rule.assignment.pattern us children) (he : elsesNearestAll children = true) :
    combine .assignment (astAll children) =
      firstOf (Rule.assignment.ownDefects children) (Rule.assignment.build (astAll children)) := by
  obtain ⟨ut, ur, _, _, rfl, rfl, ht, hrest⟩ := derives_seq_iff.1 h
  obtain ⟨target, rfl⟩ := ht.exists_tree
  -- Without an equals sign there is nothing to object to, with one it depends on the target.
  obtain ⟨rfl, rfl⟩ | hrest := derives_optional_iff.1 hrest
  · simp only [List.append_nil, astAll]
    cases target.ast <;> rfl
  · obtain ⟨_, uv, _, _, rfl, rfl, hk, hv⟩ := derives_seq_iff.1 hrest
    obtain ⟨equals, -, rfl, rfl⟩ := derives_keep_iff.1 hk
    obtain ⟨value, rfl⟩ := hv.exists_tree
    simp only [List.cons_append, List.nil_append, elsesNearestAll, Bool.and_eq_true] at he
    obtain ⟨x, hx⟩ := exists_node (Parser.disjunction_follows
      (Parser.deeperWithin_follows target.nesting)) ht he.1 (Nat.le_refl _)
    obtain ⟨y, hy⟩ := exists_node (Parser.assignment_follows
      (Parser.deeperWithin_follows value.nesting)) hv he.2.2.1 (Nat.le_refl _)
    simp only [List.cons_append, List.nil_append, astAll, hx, hy, Tree.ast, combine, Rule.build,
      Rule.ownDefects, Rule.ownBadTargets, Tree.isVariable]
    cases x <;> rfl

/-- From the meanings of its children a rule makes its own, unless it has a defect. -/
theorem combine_astAll {r : Rule} {us : List Token} {children : List Tree}
    (hn : r ≠ .numberLiteral) (hs : r ≠ .stringLiteral) (h : Derives r.pattern us children)
    (he : elsesNearestAll children = true) :
    combine r (astAll children) = firstOf (r.ownDefects children) (r.build (astAll children)) := by
  by_cases ha : r = .assignment
  · subst ha
    exact combine_assignment h he
  · rw [combine_of_ne hn hs ha, Rule.ownDefects_of_ne hn, Parser.Rule.ownBadTargets_eq_nil ha]
    rfl

theorem meanings_append (left right : List Tree) :
    meanings (left ++ right) = (do
      let ls ← meanings left
      let rs ← meanings right
      return ls ++ rs) := by
  induction left with
  | nil => cases h : meanings right <;> simp [meanings, h, bind, Except.bind, pure, Except.pure]
  | cons tree left ih =>
    simp only [List.cons_append, meanings, ih]
    cases meaning tree <;> cases meanings left <;> cases meanings right <;> rfl

theorem meanings_node (r : Rule) (children : List Tree) :
    meanings [.node r children] = (do
      let parts ← meanings children
      let m ← combine r parts
      return [m]) := by
  simp only [meanings, meaning]
  cases meanings children with
  | error e => rfl
  | ok parts => cases h : combine r parts <;> simp [h, bind, Except.bind, pure, Except.pure]

/-- From trees whose leaves have lost their meanings the strict front end makes the same as the
parser, or refuses them with the first defect. -/
def Translates (trees : List Tree) : Prop :=
  meanings (mapAll Token.plain trees) = firstOf (defectsAll trees) (astAll trees)

theorem Translates.append {left right : List Tree} (ha : Translates left) (hb : Translates right) :
    Translates (left ++ right) := by
  rw [Translates, mapAll_append, meanings_append, ha, hb, defectsAll_append, astAll_append]
  exact firstOf_bind (firstOf_map (defectsAll right) (astAll right) _)

theorem Translates.node {r : Rule} {children : List Tree} (hc : Translates children)
    (ho : combine r (astAll children) = firstOf (r.ownDefects children) (r.build (astAll children))) :
    Translates [.node r children] := by
  have hm : (do let m ← combine r (astAll children); pure [m]) =
      firstOf (r.ownDefects children) [r.build (astAll children)] := by
    rw [ho]
    exact firstOf_map (r.ownDefects children) _ _
  rw [Translates, mapAll, mapAll, Tree.map, meanings_node, hc]
  simp only [defectsAll, List.append_nil, Tree.defects]
  exact firstOf_bind hm

theorem meanings_leaf_node (r : Rule) (t : Token) :
    meanings [.node r [.leaf t]] = (combine r [.token t] >>= fun m => .ok [m]) := by
  rw [meanings_node]
  rfl

theorem Translates.number {t : Token} (hr : t.IsRead) (hk : t.kind = .number) :
    Translates [.node .numberLiteral [.leaf t]] := by
  have hn := numberOf_plain hr hk
  simp only [Translates, mapAll, Tree.map, meanings_leaf_node, combine, hn, defectsAll,
    Tree.defects, List.nil_append, List.append_nil]
  cases hd : Rule.numberLiteral.ownDefects [.leaf t] <;> rfl

theorem Translates.string {t : Token} (hr : t.IsRead) (hk : t.kind = .string) :
    Translates [.node .stringLiteral [.leaf t]] := by
  simp only [Translates, mapAll, Tree.map, meanings_leaf_node, combine, stringOf_plain hr hk]
  rfl

/-- The strict front end makes of a text's trees what the parser makes of them, or refuses them
with their first defect. -/
theorem Derives.meanings_plain {p : Pattern} {us : List Token} {trees : List Tree}
    (h : Derives p us trees) (hn : p.mentions .number = false) (hs : p.mentions .string = false)
    (hr : ∀ t ∈ us, t.IsRead) (he : elsesNearestAll trees = true) : Translates trees := by
  induction h with
  | @keep kinds t h =>
    have hk : t.kind ≠ .number ∧ t.kind ≠ .string := by
      constructor <;> rintro hk <;> simp_all [Pattern.mentions]
    have ht : t.plain = t := plain_eq_self (hr t (List.mem_singleton_self t)) hk.1 hk.2
    rw [Translates, mapAll, mapAll, Tree.map, ht]
    rfl
  | skip | absent | done => rfl
  | @rule r us children h ih =>
    -- only the two kinds of literals look at the text of a token
    by_cases hnumber : r = .numberLiteral
    · subst hnumber
      obtain ⟨t, ht, rfl, rfl⟩ := derives_keep_iff.1 h
      exact .number (hr t (List.mem_singleton_self t)) (by simpa using ht)
    by_cases hstring : r = .stringLiteral
    · subst hstring
      obtain ⟨t, ht, rfl, rfl⟩ := derives_keep_iff.1 h
      exact .string (hr t (List.mem_singleton_self t)) (by simpa using ht)
    have hnr : r.pattern.mentions .number = false := by
      cases r <;> first | rfl | exact absurd rfl hnumber
    have hsr : r.pattern.mentions .string = false := by
      cases r <;> first | rfl | exact absurd rfl hstring
    have hec := elsesNearestAll_of_tree he
    have hc := ih hnr hsr hr hec
    obtain ⟨-, child, rfl, ht⟩ | ht := r.tree_cases children
    · rwa [ht]
    · rw [ht]
      exact hc.node (combine_astAll hnumber hstring h hec)
  | seq _ _ iha ihb =>
    rw [Pattern.mentions, Bool.or_eq_false_iff] at hn hs
    rw [elsesNearestAll_append, Bool.and_eq_true] at he
    rw [List.forall_mem_append] at hr
    exact (iha hn.1 hs.1 hr.1 he.1).append (ihb hn.2 hs.2 hr.2 he.2)
  | eitherFirst _ ih =>
    rw [Pattern.mentions, Bool.or_eq_false_iff] at hn hs
    exact ih hn.1 hs.1 hr he
  | eitherSecond _ ih =>
    rw [Pattern.mentions, Bool.or_eq_false_iff] at hn hs
    exact ih hn.2 hs.2 hr he
  | present _ ih => exact ih hn hs hr he
  | more _ _ iha ihb =>
    rw [elsesNearestAll_append, Bool.and_eq_true] at he
    rw [List.forall_mem_append] at hr
    exact (iha hn hs hr.1 he.1).append (ihb hn hs hr.2 he.2)

end LetLang.Strict
