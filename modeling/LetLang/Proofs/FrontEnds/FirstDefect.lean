import LetLang.Proofs.FrontEnds.Equivalence
import LetLang.Proofs.Grammar.NearestElse

namespace LetLang.Strict

/-- A variable without parentheses around it. -/
def Tree.isBare : Tree → Bool
  | .node .variableName _ => true
  | _ => false

theorem leftward_ne_var {build : Node → Token → Node → Node}
    (hb : ∀ a o b name, build a o b ≠ .var name) (left : Node) (ms : List Meaning)
    (hl : ∀ name, left ≠ .var name) : ∀ name, leftward build left ms ≠ .var name := by
  fun_induction leftward build left ms with
  | case1 left operator right rest ih => exact ih (hb left operator right)
  | case2 => exact hl

/-- Rules of operations on two operands or more. -/
def Rule.isOperation : Rule → Bool
  | .comma | .logicOr | .logicAnd | .equality | .comparison | .sum | .product | .exponent => true
  | _ => false

theorem build_operation {r : Rule} (hr : r.isOperation = true) (left : Node) (ms : List Meaning) :
    ∃ build : Node → Token → Node → Node, (∀ a o b name, build a o b ≠ .var name) ∧
      r.build (.node left :: ms) = .node (leftward build left ms) := by
  have hl (a : Node) (o : Token) (b : Node) (name : Token) : Node.logical a o b ≠ .var name := by
    rintro ⟨⟩
  have hb (a : Node) (o : Token) (b : Node) (name : Token) : Node.binary a o b ≠ .var name := by
    rintro ⟨⟩
  cases r with
  | logicOr | logicAnd => exact ⟨.logical, hl, rfl⟩
  | comma | equality | comparison | sum | product | exponent => exact ⟨.binary, hb, rfl⟩
  | _ => cases hr

/-- An operation is no variable. -/
theorem isVariable_operation {r : Rule} (hr : r.isOperation = true) {first second : Tree}
    {operator : Token} {n : Node} (hn : second.ast = .node n) (more : List Tree) :
    (Tree.node r (first :: .leaf operator :: second :: more)).isVariable = false := by
  simp only [Tree.isVariable, Tree.ast, astAll, hn]
  cases first.ast with
  | token | nodes => cases r <;> first | rfl | cases hr
  | node left =>
    obtain ⟨build, hb, he⟩ := build_operation hr left (.token operator :: .node n :: astAll more)
    have hv := leftward_ne_var hb (build left operator n) (astAll more) (hb left operator n)
    rw [he, leftward]
    split
    · next name h => exact absurd (Meaning.node.inj h) (hv name)
    · rfl

/-- The tree of an operand stands for a node. -/
theorem exists_operand {r : Rule} {us : List Token} {tree : Tree}
    (hr : r ∈ [.assignment, .logicAnd, .equality, .comparison, .sum, .product, .unary])
    (h : Derives (.rule r) us [tree]) (he : tree.elsesNearest = true) :
    ∃ node, tree.ast = .node node := by
  have hd := Parser.deeperWithin_follows tree.nesting
  simp only [List.mem_cons, List.not_mem_nil, or_false] at hr
  obtain rfl | rfl | rfl | rfl | rfl | rfl | rfl := hr
  · exact exists_node (Parser.assignment_follows hd) h he (Nat.le_refl _)
  · exact exists_node (Parser.conjunction_follows hd) h he (Nat.le_refl _)
  · exact exists_node (Parser.equality_follows hd) h he (Nat.le_refl _)
  · exact exists_node (Parser.comparison_follows hd) h he (Nat.le_refl _)
  · exact exists_node (Parser.sum_follows hd) h he (Nat.le_refl _)
  · exact exists_node (Parser.product_follows hd) h he (Nat.le_refl _)
  · exact exists_node (Parser.unary_follows hd) h he (Nat.le_refl _)

/-- So a text with more than one operand is no variable. -/
theorem isVariable_of_separated {r operand : Rule} {kinds : List TokenKind} {us : List Token}
    {children : List Tree} (hr : r.isOperation = true)
    (ho : operand ∈ [.assignment, .logicAnd, .equality, .comparison, .sum, .product, .unary])
    (h : Derives (.separated operand kinds) us children) (he : elsesNearestAll children = true)
    (hc : ∀ child, children ≠ [child]) : (Tree.node r children).isVariable = false := by
  obtain ⟨_, _, _, _, rfl, rfl, hfirst, hmore⟩ := derives_seq_iff.1 h
  obtain ⟨first, rfl⟩ := hfirst.exists_tree
  cases hmore with
  | done => exact absurd rfl (hc first)
  | more hnext hothers =>
    obtain ⟨_, _, _, _, rfl, rfl, hoperator, hsecond⟩ := derives_seq_iff.1 hnext
    obtain ⟨operator, -, rfl, rfl⟩ := derives_keep_iff.1 hoperator
    obtain ⟨second, rfl⟩ := hsecond.exists_tree
    simp only [List.cons_append, List.nil_append, elsesNearestAll, Bool.and_eq_true] at he
    obtain ⟨n, hn⟩ := exists_operand ho hsecond he.2.2.1
    exact isVariable_operation hr hn _

theorem isVariable_exponent {us : List Token} {children : List Tree}
    (h : Derives Rule.exponent.pattern us children) (he : elsesNearestAll children = true)
    (hc : ∀ child, children ≠ [child]) : (Tree.node .exponent children).isVariable = false := by
  obtain ⟨_, _, _, _, rfl, rfl, hbase, hpower⟩ := derives_seq_iff.1 h
  obtain ⟨base, rfl⟩ := hbase.exists_tree
  cases hpower with
  | absent => exact absurd rfl (hc base)
  | present hpower =>
    obtain ⟨_, _, _, _, rfl, rfl, hoperator, hsecond⟩ := derives_seq_iff.1 hpower
    obtain ⟨operator, -, rfl, rfl⟩ := derives_keep_iff.1 hoperator
    obtain ⟨second, rfl⟩ := hsecond.exists_tree
    simp only [List.cons_append, List.nil_append, elsesNearestAll, Bool.and_eq_true] at he
    obtain ⟨n, hn⟩ := exists_operand (by decide) hsecond he.2.2.1
    exact isVariable_operation rfl hn _

/-- Only operations and names can make a variable, and an operation only of a single operand. -/
theorem combine_eq_var {r : Rule} {parts : List Meaning} {name : Token}
    (h : combine r parts = .ok (.node (.var name))) : r.isOperation = true ∨ r = .variableName := by
  unfold combine at h
  split at h
  case h_11 target _ _ => cases target <;> cases h
  case h_23 t =>
    unfold numberOf at h
    dsimp only at h
    split at h <;> cases h
  all_goals first | exact .inl rfl | exact .inr rfl | cases h

theorem build_eq_var {r : Rule} {parts : List Meaning} {name : Token}
    (h : r.build parts = .node (.var name)) : r.isOperation = true ∨ r = .variableName := by
  unfold Rule.build at h
  split at h
  · cases h
  · cases h
  · next target _ _ => cases target <;> cases h
  · split at h
    · next hm => exact combine_eq_var (h ▸ hm)
    · cases h

theorem isVariable_of_isOperation {r : Rule} {us : List Token} {children : List Tree}
    (hr : r.isOperation = true) (h : Derives r.pattern us children)
    (he : elsesNearestAll children = true) (hc : ∀ child, children ≠ [child]) :
    (Tree.node r children).isVariable = false := by
  cases r with
  | comma | logicOr | logicAnd | equality | comparison | sum | product =>
    exact isVariable_of_separated rfl (by decide) h he hc
  | exponent => exact isVariable_exponent h he hc
  | _ => cases hr

/-- The node of a rule is a variable just if the rule is that of names. -/
theorem isVariable_node {r : Rule} {us : List Token} {children : List Tree}
    (h : Derives r.pattern us children) (he : elsesNearestAll children = true)
    (hc : r.isTransparent = true → ∀ child, children ≠ [child]) :
    (Tree.node r children).isVariable = (Tree.node r children).isBare := by
  by_cases hn : r = .variableName
  · subst hn
    obtain ⟨t, -, -, rfl⟩ := derives_keep_iff.1 h
    rfl
  have hb : (Tree.node r children).isBare = false := by
    cases r <;> first | rfl | exact absurd rfl hn
  rw [hb]
  -- Only an operation with a single child could stand for a variable, and that leaves no node.
  by_cases ho : r.isOperation = true
  · refine isVariable_of_isOperation ho h he (hc ?_)
    cases r <;> first | rfl | cases ho
  · unfold Tree.isVariable
    split
    · next name hv =>
      obtain ho' | hn' := build_eq_var hv
      · exact absurd ho' ho
      · exact absurd hn' hn
    · rfl

/-- A tree of a text stands for a variable just if it is a bare one. -/
theorem Derives.isVariable_eq {p : Pattern} {us : List Token} {trees : List Tree}
    (h : Derives p us trees) (he : elsesNearestAll trees = true) :
    ∀ tree ∈ trees, tree.isVariable = tree.isBare := by
  induction h with
  | keep => exact List.forall_mem_singleton.2 rfl
  | skip | absent | done => exact List.forall_mem_nil _
  | @rule r us children h ih =>
    have hc := elsesNearestAll_of_tree he
    -- A rule that leaves no node for a single child hands on the tree of that child.
    by_cases ht : r.isTransparent = true ∧ ∃ child, children = [child]
    · obtain ⟨ht, child, rfl⟩ := ht
      have hr : r.tree [child] = [child] := by simp [Rule.tree, ht]
      rw [hr]
      exact ih hc
    · have hnode := isVariable_node h hc fun hr child hs => ht ⟨hr, child, hs⟩
      obtain ⟨hr, child, hs, -⟩ | hr := r.tree_cases children
      · exact absurd ⟨hr, child, hs⟩ ht
      · rw [hr]
        exact List.forall_mem_singleton.2 hnode
  | seq _ _ iha ihb | more _ _ iha ihb =>
    rw [elsesNearestAll_append, Bool.and_eq_true] at he
    exact List.forall_mem_append.2 ⟨iha he.1, ihb he.2⟩
  | eitherFirst _ ih | eitherSecond _ ih | present _ ih => exact ih he

mutual
/-- The nodes of a tree, children before their parent and from left to right. -/
def Tree.postorder : Tree → List Tree
  | .leaf t => [.leaf t]
  | .node r children => postorderAll children ++ [.node r children]
def postorderAll : List Tree → List Tree
  | [] => []
  | tree :: trees => tree.postorder ++ postorderAll trees
end

/-- The nodes inside of a node. -/
def Tree.inner : Tree → List Tree
  | .leaf _ => []
  | .node _ children => postorderAll children

theorem postorderAll_append (left right : List Tree) :
    postorderAll (left ++ right) = postorderAll left ++ postorderAll right := by
  induction left with
  | nil => rfl
  | cons tree left ih => simp only [List.cons_append, postorderAll, ih, List.append_assoc]

mutual
/-- Just before a node come the nodes inside of it. -/
theorem inner_suffix {node : Tree} {before after : List Tree} :
    ∀ tree : Tree, tree.postorder = before ++ node :: after → node.inner <:+ before
  | .leaf t, h => by
    cases before with
    | nil =>
      cases h
      exact List.suffix_refl _
    | cons first before => simp [Tree.postorder] at h
  | .node r children, h => by
    rw [Tree.postorder] at h
    obtain rfl | ⟨init, last, rfl⟩ := List.eq_nil_or_concat after
    · obtain ⟨rfl, hnode⟩ := List.append_inj' h rfl
      cases hnode
      exact List.suffix_refl _
    · rw [List.concat_eq_append, ← List.cons_append, ← List.append_assoc] at h
      exact inner_suffix_all children (List.append_inj' h rfl).1
theorem inner_suffix_all {node : Tree} {before after : List Tree} :
    ∀ trees : List Tree, postorderAll trees = before ++ node :: after → node.inner <:+ before
  | [], h => by simp [postorderAll] at h
  | tree :: trees, h => by
    rw [postorderAll] at h
    obtain ⟨mid, rfl, hrest⟩ | ⟨mid, hfirst, hrest⟩ := List.append_eq_append_iff.1 h
    · exact (inner_suffix_all trees hrest).trans (List.suffix_append _ _)
    · cases mid with
      | nil =>
        have hnil : node.inner <:+ [] := inner_suffix_all trees hrest.symm
        rw [List.suffix_nil.1 hnil]
        exact List.nil_suffix
      | cons first mid =>
        cases hrest
        exact inner_suffix tree hfirst
end

/-- The digits of a number; underscores only stand between them. -/
def digitCount (t : Token) : Nat := (Piece.withoutUnderscores t.text.toList).length

/-- No digit, or more of them than numbers may have. -/
def HasBadDigits (t : Token) : Prop := digitCount t = 0 ∨ Number.maxDigits < digitCount t

instance (t : Token) : Decidable (HasBadDigits t) :=
  inferInstanceAs (Decidable (digitCount t = 0 ∨ Number.maxDigits < digitCount t))

/-- The error that a node gives rise to, apart from those inside of it. -/
def Tree.defect? : Tree → Option Report
  | .node .numberLiteral [.leaf t] => if HasBadDigits t then some (badNumber t) else none
  | .node .assignment [target, .leaf equals, _] =>
    if target.isBare then none else some (badTarget equals)
  | _ => none

/-- An assignment to something else than a bare variable. -/
def Tree.IsBadAssignment (tree : Tree) : Prop :=
  ∃ target equals value, tree = .node .assignment [target, .leaf equals, value] ∧
    target.isBare = false

theorem isNumber_iff (t : Token) : Piece.isNumber t.text.toList = true ↔ ¬ HasBadDigits t := by
  simp [Piece.isNumber, HasBadDigits, digitCount]

theorem ownDefects_eq {r : Rule} {us : List Token} {children : List Tree}
    (h : Derives r.pattern us children) (he : elsesNearestAll children = true) :
    r.ownDefects children = (Tree.node r children).defect?.toList := by
  -- Two rules have defects of their own, and no other one has.
  by_cases hnumber : r = .numberLiteral
  · subst hnumber
    obtain ⟨t, -, -, rfl⟩ := derives_keep_iff.1 h
    have hb := isNumber_iff t
    by_cases hd : HasBadDigits t <;> simp_all [Rule.ownDefects, Tree.defect?]
  by_cases hassignment : r = .assignment
  · subst hassignment
    obtain ⟨_, _, _, _, rfl, rfl, htarget, hrest⟩ := derives_seq_iff.1 h
    obtain ⟨target, rfl⟩ := htarget.exists_tree
    cases hrest with
    | absent => rfl
    | present hrest =>
      obtain ⟨_, _, _, _, rfl, rfl, hkeep, hvalue⟩ := derives_seq_iff.1 hrest
      obtain ⟨equals, -, rfl, rfl⟩ := derives_keep_iff.1 hkeep
      obtain ⟨value, rfl⟩ := hvalue.exists_tree
      simp only [List.cons_append, List.nil_append, elsesNearestAll, Bool.and_eq_true] at he
      have hv : target.isVariable = target.isBare :=
        htarget.isVariable_eq (by simp [elsesNearestAll, he.1]) target (List.mem_singleton_self _)
      cases hb : target.isBare <;>
        simp [Rule.ownDefects, Rule.ownBadTargets, Tree.defect?, hv, hb]
  rw [Rule.ownDefects_of_ne hnumber, Parser.Rule.ownBadTargets_eq_nil hassignment]
  cases r <;> first | rfl | exact absurd rfl hnumber | exact absurd rfl hassignment

/-- The defects of trees, one after another. -/
theorem Derives.defects_eq {p : Pattern} {us : List Token} {trees : List Tree}
    (h : Derives p us trees) (he : elsesNearestAll trees = true) :
    defectsAll trees = (postorderAll trees).filterMap Tree.defect? := by
  induction h with
  | keep | skip | absent | done => rfl
  | @rule r us children h ih =>
    have hc := elsesNearestAll_of_tree he
    rw [r.defects_tree, ih hc, ownDefects_eq h hc]
    obtain ⟨hr, child, rfl, ht⟩ | ht := r.tree_cases children
    · have hd : (Tree.node r [child]).defect? = none := by
        cases r <;> first | rfl | cases hr
      rw [ht, hd, Option.toList_none, List.append_nil]
    · rw [ht, postorderAll, postorderAll, List.append_nil, Tree.postorder, List.filterMap_append]
      cases hd : (Tree.node r children).defect? <;> simp [hd]
  | seq _ _ iha ihb | more _ _ iha ihb =>
    rw [elsesNearestAll_append, Bool.and_eq_true] at he
    rw [defectsAll_append, postorderAll_append, List.filterMap_append, iha he.1, ihb he.2]
  | eitherFirst _ ih | eitherSecond _ ih | present _ ih => exact ih he

section
variable (f : Token → Token)

mutual
theorem postorder_map : ∀ tree : Tree, (tree.map f).postorder = tree.postorder.map (Tree.map f)
  | .leaf _ => rfl
  | .node r children => by
    rw [Tree.map, Tree.postorder, Tree.postorder, postorderAll_mapAll children, List.map_append]
    rfl
theorem postorderAll_mapAll :
    ∀ trees : List Tree, postorderAll (mapAll f trees) = (postorderAll trees).map (Tree.map f)
  | [] => rfl
  | tree :: trees => by
    rw [mapAll, postorderAll, postorderAll, postorder_map tree, postorderAll_mapAll trees,
      List.map_append]
end

end

theorem isBare_map (f : Token → Token) (tree : Tree) : (tree.map f).isBare = tree.isBare := by
  cases tree with
  | leaf => rfl
  | node r children => cases r <;> rfl

/-- A defect shows in the texts and lines of tokens. -/
theorem defect?_map_plain (tree : Tree) : (tree.map Token.plain).defect? = tree.defect? := by
  cases tree with
  | leaf => rfl
  | node r children =>
    cases r with
    | numberLiteral =>
      match children with
      | [] | [.leaf _] | [.node _ _] => rfl
      | first :: _ :: _ => cases first <;> rfl
    | assignment =>
      match children with
      | [] | [_] | [_, .node _ _, _] => rfl
      | [_, second] | _ :: second :: _ :: _ :: _ => cases second <;> rfl
      | [target, .leaf equals, _] =>
        simp only [Tree.map, mapAll, Tree.defect?, isBare_map]
        rfl
    | _ => rfl

theorem defects_map_plain (tree : Tree) :
    (tree.map Token.plain).postorder.filterMap Tree.defect? =
      tree.postorder.filterMap Tree.defect? := by
  have hd : Tree.defect? ∘ Tree.map Token.plain = Tree.defect? := funext defect?_map_plain
  rw [postorder_map, List.filterMap_map, hd]

theorem firstOf_eq_error_iff {α : Type} {ds : List Report} {a : α} {e : Report} :
    firstOf ds a = .error e ↔ ds.head? = some e := by
  cases ds <;> simp [firstOf]

/-- What the strict front end makes of a text with a tree. -/
theorem parse_of_isTreeOf {text : String} {tokens : List Token} {tree : Tree}
    (hs : scan text.toList 1 text.toList = (tokens, .complete)) (ht : IsTreeOf tree tokens) :
    ∃ s, Strict.parse text = firstOf (tree.postorder.filterMap Tree.defect?) s := by
  have hp := (scan_complete_iff text.toList).1 (by rw [hs])
  have htokens : tokens = (uncheckedTokens text).map Token.plain := by
    rw [uncheckedTokens, ← scan_tokens hp, hs]
  have hread : readProgram tokens = .ok [tree] := readProgram_eq_ok_iff.2 ⟨tree, rfl, ht⟩
  rw [htokens] at ht
  obtain ⟨original, rfl, ho⟩ := (isTreeOf_map_iff plain_kind).1 ht
  have hd : original.defects = (original.map Token.plain).postorder.filterMap Tree.defect? := by
    have h := ho.derives.defects_eq (by simp [elsesNearestAll, ho.nearest])
    simpa [defectsAll, postorderAll, defects_map_plain] using h
  refine ⟨original.statements, ?_⟩
  rw [Strict.parse, hs]
  dsimp only
  rw [hread]
  dsimp only
  rw [meanings_of_isTreeOf ho, hd]
  cases List.filterMap Tree.defect? _ <;> rfl

/-- The number of a node stands in the text. -/
theorem Derives.mem_of_numberLiteral {p : Pattern} {us : List Token} {trees : List Tree}
    (h : Derives p us trees) {t : Token}
    (ht : .node .numberLiteral [.leaf t] ∈ postorderAll trees) : t ∈ us ∧ t.kind = .number := by
  induction h with
  | keep | skip | absent | done => simp [postorderAll, Tree.postorder] at ht
  | @rule r us children h ih =>
    obtain ⟨-, child, rfl, hr⟩ | hr := r.tree_cases children
    · exact ih (hr ▸ ht)
    · rw [hr, postorderAll, postorderAll, List.append_nil, Tree.postorder, List.mem_append,
        List.mem_singleton] at ht
      obtain ht | ht := ht
      · exact ih ht
      · cases ht
        obtain ⟨u, hk, rfl, hu⟩ := derives_keep_iff.1 h
        cases hu
        exact ⟨List.mem_singleton_self _, by simpa using hk⟩
  | seq _ _ iha ihb | more _ _ iha ihb =>
    rw [postorderAll_append, List.mem_append] at ht
    obtain ht | ht := ht
    · exact ⟨List.mem_append_left _ (iha ht).1, (iha ht).2⟩
    · exact ⟨List.mem_append_right _ (ihb ht).1, (ihb ht).2⟩
  | eitherFirst _ ih | eitherSecond _ ih | present _ ih => exact ih ht

theorem defect?_cases {node : Tree} {e : Report} (h : node.defect? = some e) :
    (∃ t, node = .node .numberLiteral [.leaf t] ∧ HasBadDigits t) ∨ node.IsBadAssignment := by
  unfold Tree.defect? at h
  split at h
  · next t =>
    split at h
    · next hd => exact .inl ⟨t, rfl, hd⟩
    · cases h
  · next target equals value =>
    split at h
    · cases h
    · next hb => exact .inr ⟨target, equals, value, rfl, by simpa using hb⟩
  · cases h

/-- The defects of a tree are bad numbers and bad assignments. -/
theorem exists_defect_iff {tokens : List Token} {tree : Tree} (ht : IsTreeOf tree tokens) :
    tree.postorder.filterMap Tree.defect? ≠ [] ↔
      (∃ t ∈ tokens, t.kind = .number ∧ HasBadDigits t) ∨
        ∃ node ∈ tree.postorder, node.IsBadAssignment := by
  constructor
  · intro h
    obtain ⟨e, he⟩ := List.exists_mem_of_ne_nil _ h
    obtain ⟨node, hm, hd⟩ := List.mem_filterMap.1 he
    obtain ⟨t, rfl, hb⟩ | hb := defect?_cases hd
    · have hu := ht.derives.mem_of_numberLiteral (by simpa [postorderAll] using hm)
      exact .inl ⟨t, hu.1, hu.2, hb⟩
    · exact .inr ⟨node, hm, hb⟩
  · rintro (⟨t, hm, hk, hb⟩ | ⟨_, hm, target, equals, value, rfl, hb⟩) hn
    · have hd := ht.derives.defects_eq (by simp [elsesNearestAll, ht.nearest])
      simp only [defectsAll, postorderAll, List.append_nil, hn] at hd
      have hg := ((defects_eq_nil_iff ht).1 hd).1 t hm hk
      exact (isNumber_iff t).1 hg hb
    · have hd := List.filterMap_eq_nil_iff.1 hn _ hm
      simp [Tree.defect?, hb] at hd

/-- On a text that can be derived from the grammar, the strict front end finds fault with numbers
without digits or with too many, and with assignments to something else than a bare variable. The
error is that of the first such node when children come before their parent and are taken from left
to right, so the nodes inside of it have none. -/
theorem strict_parse_of_derives {text : String} {tokens : List Token} {trees : List Tree}
    (hs : scan text.toList 1 text.toList = (tokens, .complete))
    (hd : Derives (.rule .program) tokens trees) :
    ∃ tree, IsTreeOf tree tokens ∧
      ((∃ e, Strict.parse text = .error e) ↔
        (∃ t ∈ tokens, t.kind = .number ∧ HasBadDigits t) ∨
          ∃ node ∈ tree.postorder, node.IsBadAssignment) ∧
      ∀ e, Strict.parse text = .error e ↔ ∃ before node after,
        tree.postorder = before ++ node :: after ∧ node.inner <:+ before ∧
          (∀ other ∈ before, other.defect? = none) ∧ node.defect? = some e := by
  obtain ⟨tree, ht⟩ := exists_isTreeOf_iff.2 ⟨trees, hd⟩
  obtain ⟨s, hp⟩ := parse_of_isTreeOf hs ht
  refine ⟨tree, ht, ?_, fun e => ?_⟩
  · rw [← exists_defect_iff ht, hp]
    cases List.filterMap Tree.defect? tree.postorder <;> simp [firstOf]
  · rw [hp, firstOf_eq_error_iff, List.head?_filterMap, List.findSome?_eq_some_iff]
    constructor
    · rintro ⟨before, node, after, hpost, hnode, hbefore⟩
      exact ⟨before, node, after, hpost, inner_suffix tree hpost, hbefore, hnode⟩
    · rintro ⟨before, node, after, hpost, -, hbefore, hnode⟩
      exact ⟨before, node, after, hpost, hnode, hbefore⟩

/-- A number without a digit, in the value of a bad assignment, in the value of another one. -/
theorem strict_parse_of_derives_nested :
    ∃ tokens trees tree,
      scan "(a) = 1 = __;".toList 1 "(a) = 1 = __;".toList = (tokens, .complete) ∧
      Derives (.rule .program) tokens trees ∧ IsTreeOf tree tokens ∧
      ∃ before node after, tree.postorder = before ++ node :: after ∧ node.inner <:+ before ∧
        (∀ other ∈ before, other.defect? = none) ∧
        node.defect? = some ⟨1, "at '__'", "Invalid number literal."⟩ := by
  have hc : (scan "(a) = 1 = __;".toList 1 "(a) = 1 = __;".toList).2 = .complete := by
    decide +kernel
  have he : (match Strict.parse "(a) = 1 = __;" with
      | .error e => decide (e = ⟨1, "at '__'", "Invalid number literal."⟩)
      | .ok _ => false) = true := by
    decide +kernel
  generalize htokens : (scan "(a) = 1 = __;".toList 1 "(a) = 1 = __;".toList).1 = tokens
  have hs : scan "(a) = 1 = __;".toList 1 "(a) = 1 = __;".toList = (tokens, .complete) :=
    Prod.ext htokens hc
  have hread : (readProgram tokens).toOption.isSome = true := by
    rw [← htokens]
    decide +kernel
  cases hr : readProgram tokens with
  | error rest =>
    rw [hr] at hread
    cases hread
  | ok trees =>
    obtain ⟨found, rfl, hf⟩ := readProgram_eq_ok_iff.1 hr
    obtain ⟨tree, ht, -, hfirst⟩ := strict_parse_of_derives hs hf.derives
    refine ⟨tokens, _, tree, hs, hf.derives, ht, (hfirst _).1 ?_⟩
    cases hp : Strict.parse "(a) = 1 = __;" with
    | ok s =>
      rw [hp] at he
      cases he
    | error e =>
      rw [hp] at he
      rw [of_decide_eq_true he]

end LetLang.Strict
