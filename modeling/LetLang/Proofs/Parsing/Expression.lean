import LetLang.Proofs.Grammar.Lookahead
import LetLang.Proofs.Parsing.Agreement

namespace LetLang.Parser
open Strict

/-- The parser agrees with a rule when the tree takes so many levels more than its own. -/
def Follows (n levels : Nat) (f : Parse Node) (r : Rule) : Prop :=
  Mirrors (fun trees => ∀ t ∈ trees, levels + t.nesting ≤ n)
    (fun trees node => astAll trees = [.node node]) f (.rule r)

/-- The same for a parser that may drop what it parsed. -/
def FollowsMaybe (n levels : Nat) (f : Parse (Option Node)) (r : Rule) : Prop :=
  Mirrors (fun trees => ∀ t ∈ trees, levels + t.nesting ≤ n)
    (fun trees found => ∃ node, found = some node ∧ astAll trees = [.node node]) f (.rule r)

/-- The parsers one level deeper agree with their rules when `n` levels are left. -/
structure DeeperFollows (n : Nat) (deeper : Deeper) : Prop where
  expression : Follows n 1 deeper.expression .expression
  assignment : Follows n 1 deeper.assignment .assignment
  unary : Follows n 1 deeper.unary .unary
  statement : Follows n 1 deeper.statement .statement
  declaration : FollowsMaybe n 1 deeper.declaration .declaration

section
variable {α : Type} {n levels : Nat} {f : Parse Node} {r s : Rule}

/-- A rule at a place where it takes as many levels as its parser does. -/
theorem Follows.part (h : Follows n levels f s) {place : Nat} (hw : r.weight place = levels) :
    Mirrors (Shallow r place n) (fun trees node => ∃ t, trees = [t] ∧ t.ast = .node node) f
      (.rule s) := by
  intro ts
  refine (h ts).mono (fun _ _ => astAll_eq_singleton) fun trees rest hr => ?_
  obtain ⟨t, rfl⟩ := exists_tree_of_reading hr
  simp [Shallow, nestingFrom, hw]

/-- A parser that says what is to be complained about at its end. -/
def complainAfter (f : Parse (α × List Complaint)) : Parse α := fun ts =>
  let o := f ts
  ⟨o.result.map (·.1), o.rest, o.complaints ++ (o.result.map (·.2)).getD []⟩

theorem complainAfter_bind {β : Type} (f : Parse β) (g : β → Parse (α × List Complaint)) :
    complainAfter (f >>= g) = f >>= fun b => complainAfter (g b) := by
  funext ts
  simp only [complainAfter, bind, Parse.bind]
  cases (f ts).result with
  | none => simp
  | some b => simp

/-- Agreement on the children of a rule is agreement on its tree, whose own bad target is
complained about after those of its children. -/
theorem Agrees.tree {fits : List Tree → Prop} {means : List Tree → α → Prop}
    {f : Parse (α × List Complaint)} {ts : List Token} {parsed : Strict.Parsed}
    (hfits : ∀ t, fits [t] ↔ t.nesting ≤ n)
    (h : Agrees (Shallow r 0 n) (fun children (a, own) =>
      means (r.tree children) a ∧ Blames own (r.ownBadTargets children)) (f ts) parsed) :
    Agrees fits means (complainAfter f ts)
      (parsed.map fun (children, rest) => (r.tree children, rest)) := by
  -- A tree is nested as deeply as its children and its own rule allow.
  have hshallow (children : List Tree) : fits (r.tree children) ↔ Shallow r 0 n children := by
    obtain ⟨tree, ht⟩ := r.exists_tree children
    rw [ht, hfits, Rule.nesting_tree ht]
    rfl
  rw [complainAfter]
  generalize f ts = o at h
  cases h with
  | @clean a rest complaints trees value shallow blame =>
    refine .clean value.1 ((hshallow _).2 shallow) ?_
    rw [r.badTargets_tree]
    exact blame.append value.2
  | refused before after complaints blame error =>
    exact .refused before (after ++ (o.result.map (·.2)).getD [])
      (by rw [complaints, List.append_assoc, List.cons_append]) blame error
  | tooDeep before after complaints blame error deep =>
    refine .tooDeep before (after ++ (o.result.map (·.2)).getD [])
      (by rw [complaints, List.append_assoc, List.cons_append]) blame error fun trees rest hr => ?_
    cases parsed with
    | error ts' => cases hr
    | ok parsed =>
      obtain ⟨children, rest'⟩ := parsed
      cases hr
      obtain ⟨hdeep, hpre⟩ := deep children _ rfl
      rw [hshallow, r.badTargets_tree]
      exact ⟨hdeep, hpre.trans (List.prefix_append _ _)⟩

theorem Rule.ownBadTargets_eq_nil (hr : r ≠ .assignment) (children : List Tree) :
    r.ownBadTargets children = [] := by
  unfold Rule.ownBadTargets
  split
  · exact absurd rfl hr
  · rfl

/-- Most rules have no targets. -/
theorem Agrees.tree_of_ne {fits : List Tree → Prop} {means : List Tree → α → Prop} {o : Outcome α}
    {parsed : Strict.Parsed} (hr : r ≠ .assignment) (hfits : ∀ t, fits [t] ↔ t.nesting ≤ n)
    (h : Agrees (Shallow r 0 n) (fun children a => means (r.tree children) a) o parsed) :
    Agrees fits means o (parsed.map fun (children, rest) => (r.tree children, rest)) := by
  let f : Parse α := fun _ => o
  have hf : complainAfter (f >>= fun a => pure (a, [])) [] = o := by
    rw [complainAfter, bind_pure_eq]
    obtain ⟨result, rest, complaints⟩ := o
    cases result <;> simp [f]
  rw [← hf]
  refine .tree hfits (Agrees.map (f := f) h ?_)
  intro children a hm
  rw [Rule.ownBadTargets_eq_nil hr]
  exact ⟨hm, .nil⟩

/-- Agreement on an alternative of a rule that leaves no node of its own. -/
theorem Agrees.alternative {o : Outcome Node} {ts : List Token} (hr : r.isTransparent = true)
    (hw : r.weight 0 = 0) (hs : s ≠ .assignment)
    (h : Agrees (Shallow s 0 n) (fun children node => astAll (s.tree children) = [.node node]) o
      (reading s.pattern ts)) :
    Agrees (Shallow r 0 n) (fun trees node => astAll (r.tree trees) = [.node node]) o
      (reading (.rule s) ts) := by
  have ha : Agrees (Shallow r 0 n) (fun trees node => astAll trees = [.node node]) o
      (reading (.rule s) ts) := by
    rw [reading_rule]
    exact .tree_of_ne (n := n) hs (by simp [Shallow, nestingFrom, hw]) h
  refine ha.mono ?_ fun _ _ _ => Iff.rfl
  intro trees node hm
  obtain ⟨tree, rfl, -⟩ := astAll_eq_singleton hm
  simpa [Rule.tree, hr] using hm

theorem Follows.of_pattern (hr : r ≠ .assignment)
    (h : Mirrors (Shallow r 0 n) (fun children node => astAll (r.tree children) = [.node node]) f
      r.pattern) : Follows n 0 f r := by
  intro ts
  rw [reading_rule]
  exact .tree_of_ne (n := n) hr (by simp) (h ts)

variable {place : Nat} {fits : List Tree → Prop} {means : List Tree → α → Prop} {d : α}
  {k : Option Token → Parse α} {p q : Pattern}

/-- Both sides choose by the next token. -/
theorem accept_agrees {kinds : List TokenKind} {yes no : Strict.Parsed} {ts : List Token}
    (hp : ∀ kind, p.startsWith kind = decide (kind ∈ kinds))
    (hsome : ∀ t rest, ts = t :: rest → t.kind ∈ kinds → Agrees fits means (k (some t) rest) yes)
    (hnone : Agrees fits means (k none ts) no) :
    Agrees fits means ((accept kinds >>= k) ts) (if canStart p ts then yes else no) := by
  cases ts with
  | nil =>
    rw [accept_bind_of_not_mem (by simp)]
    exact hnone
  | cons t rest =>
    rw [canStart, hp]
    by_cases h : t.kind ∈ kinds
    · rw [accept_bind_of_mem h, if_pos (by simpa using h)]
      exact hsome t rest rfl h
    · rw [accept_bind_of_not_mem (by simpa using h), if_neg (by simpa using h)]
      exact hnone

theorem reading_seq_keep {kinds : List TokenKind} (hp : (Pattern.seq (.keep kinds) q).isProper = true)
    {t : Token} (h : t.kind ∈ kinds) (rest : List Token) :
    reading (.seq (.keep kinds) q) (t :: rest) =
      (reading q rest).map fun (right, rest) => ([.leaf t] ++ right, rest) := by
  rw [reading_seq hp, reading_keep_of_mem h]
  rfl

theorem reading_seq_skip {kind : TokenKind} (hp : (Pattern.seq (.skip kind) q).isProper = true)
    {t : Token} (h : t.kind = kind) (rest : List Token) :
    reading (.seq (.skip kind) q) (t :: rest) =
      (reading q rest).map fun (right, rest) => ([] ++ right, rest) := by
  rw [reading_seq hp, reading_skip_of_eq h]
  rfl

/-- A kept token and then what follows it. -/
theorem Agrees.keep {kinds : List TokenKind} (hp : (Pattern.seq (.keep kinds) q).isProper = true)
    (hw : r.weight place = 0) {t : Token} (ht : t.kind ∈ kinds) {f : Parse α}
    (h : Mirrors (Shallow r (place + 1) n) (fun right a => means (.leaf t :: right) a) f q)
    (rest : List Token) :
    Agrees (Shallow r place n) means (f rest) (reading (.seq (.keep kinds) q) (t :: rest)) := by
  rw [reading_seq_keep hp ht]
  refine .prepend rfl ((h rest).mono (fun _ _ h => h) fun right _ _ => ?_)
  simp [Shallow, nestingFrom, hw, Tree.nesting]

/-- A token that is only spelling and then what follows it. -/
theorem Agrees.skip {kind : TokenKind} (hp : (Pattern.seq (.skip kind) q).isProper = true)
    {t : Token} (ht : t.kind = kind) {f : Parse α} (h : Mirrors fits means f q)
    (rest : List Token) :
    Agrees fits means (f rest) (reading (.seq (.skip kind) q) (t :: rest)) := by
  rw [reading_seq_skip hp ht]
  exact .prepend rfl (h rest)

theorem mirrors_optional_keep {kinds : List TokenKind} (hw : r.weight place = 0)
    (hp : (Pattern.seq (.keep kinds) q).isProper = true) (hnone : k none = pure d)
    (hd : means [] d)
    (hsome : ∀ t, t.kind ∈ kinds → Mirrors (Shallow r (place + 1) n)
      (fun right a => means (.leaf t :: right) a) (k (some t)) q) :
    Mirrors (Shallow r place n) means (accept kinds >>= k)
      (.optional (.seq (.keep kinds) q)) := by
  intro ts
  rw [reading_optional hp]
  refine accept_agrees (fun _ => rfl) ?_ ?_
  · rintro t rest rfl ht
    exact .keep hp hw ht (hsome t ht) rest
  · rw [hnone]
    exact .clean hd (.nil r place n) .nil

theorem mirrors_optional_skip {kind : TokenKind}
    (hp : (Pattern.seq (.skip kind) q).isProper = true) (hnone : k none = pure d)
    (hd : means [] d) (hsome : ∀ t, Mirrors (Shallow r place n) means (k (some t)) q) :
    Mirrors (Shallow r place n) means (accept [kind] >>= k)
      (.optional (.seq (.skip kind) q)) := by
  intro ts
  rw [reading_optional hp]
  refine accept_agrees (fun _ => by simp [Pattern.startsWith]) ?_ ?_
  · rintro t rest rfl ht
    exact .skip hp (by simpa using ht) (hsome t) rest
  · rw [hnone]
    exact .clean hd (.nil r place n) .nil

theorem andThen_map_prepend (left : List Tree) (first : Strict.Parsed)
    (second : List Token → Strict.Parsed) :
    andThen (first.map fun (right, rest) => (left ++ right, rest)) second =
      (andThen first second).map fun (right, rest) => (left ++ right, rest) := by
  unfold andThen
  cases first with
  | error ts => rfl
  | ok parsed =>
    obtain ⟨right, rest⟩ := parsed
    simp only [Except.map]
    cases second rest <;> simp

theorem isProper_operation (operators : List TokenKind) (s : Rule) :
    (Pattern.seq (.keep operators) (.rule s)).isProper = true := by
  simp [Pattern.isProper, s.rank_le]

theorem isProper_operations (operators : List TokenKind) (s : Rule) :
    (Pattern.many (.seq (.keep operators) (.rule s))).isProper = true := by
  rw [Pattern.isProper, isProper_operation]
  rfl

theorem isProper_separated (operators : List TokenKind) (s : Rule) :
    (Pattern.separated s operators).isProper = true := by
  rw [Pattern.separated, Pattern.isProper, isProper_operations]
  rfl

theorem chainFrom_agrees {operators : List TokenKind} {build : Node → Token → Node → Node}
    {operand : Parse Node} (hs : Follows n 0 operand s) (hw : ∀ place, r.weight place = 0)
    (he : s.canBeEmpty = false) {bound ts : List Token} (h : ts.length ≤ bound.length)
    (left : Node) (place : Nat) :
    Agrees (Shallow r place n) (fun trees node => node = leftward build left (astAll trees))
      (chainFrom operators build operand bound left ts)
      (reading (.many (.seq (.keep operators) (.rule s))) ts) := by
  have hp := isProper_operations operators s
  induction bound generalizing ts left place with
  | nil =>
    have ht : ts = [] := List.length_eq_zero_iff.1 (Nat.le_zero.1 h)
    subst ht
    rw [reading_many hp]
    exact .clean rfl (.nil r place n) .nil
  | cons b bound ih =>
    -- what was built so far is the left operand of the rest, one level further out
    rw [chainFrom, reading_many hp]
    refine accept_agrees (fun _ => rfl) ?_ (.clean rfl (.nil r place n) .nil)
    rintro t rest rfl ht
    rw [reading_seq_keep (isProper_operation operators s) ht, andThen_map_prepend]
    refine .prepend rfl ((hs.part (hw (place + 1)) rest).bind ?_ ?_)
    · intro trees others hshallow
      simp only [List.cons_append, List.nil_append, Shallow, nestingFrom] at hshallow ⊢
      rw [nestingFrom_append] at hshallow
      omega
    · rintro _ x last hr ⟨tree, rfl, hx⟩ hshallow
      have hl := length_lt_of_reading (p := .rule s) he hr
      simp only [List.length_cons] at h
      refine (ih (by omega) (build left t x) (place + 1 + 1)).mono ?_ fun trees _ _ => ?_
      · rintro trees _ rfl
        simp [astAll, Tree.ast, hx, leftward]
      · simp only [Shallow, nestingFrom] at hshallow
        simp only [List.cons_append, List.nil_append, Shallow, nestingFrom, hw, Tree.nesting]
        omega

/-- Operands between operators of one rule. -/
theorem chain_follows {operators : List TokenKind} {build : Node → Token → Node → Node}
    {operand : Parse Node} (hpat : r.pattern = .separated s operators)
    (ht : r.isTransparent = true) (hw : ∀ place, r.weight place = 0) (hr : r ≠ .assignment)
    (hb : ∀ first rest, r.build (.node first :: rest) = .node (leftward build first rest))
    (he : s.canBeEmpty = false) (hs : Follows n 0 operand s) :
    Follows n 0 (chain operators build operand) r := by
  apply Follows.of_pattern hr
  rw [hpat]
  refine Mirrors.seq (isProper_separated operators s) (hs.part (hw 0)) ?_
  rintro _ first ⟨tree, rfl, hx⟩ ts
  refine (chainFrom_agrees hs hw he (Nat.le_refl _) first _).mono ?_ fun _ _ _ => Iff.rfl
  rintro trees _ rfl
  cases trees with
  | nil => simp [Rule.tree, ht, astAll, hx, leftward]
  | cons tree' trees => simp [Rule.tree, ht, astAll, Tree.ast, hx, hb]

variable {deeper : Deeper}

theorem groupingRest_mirrors (hd : DeeperFollows n deeper) :
    Mirrors (Shallow .grouping 0 n)
      (fun children node => astAll (Rule.grouping.tree children) = [.node node])
      (groupingRest deeper) (.seq (.rule .expression) (.skip .rightParen)) := by
  refine Mirrors.seq rfl (hd.expression.part rfl) ?_
  rintro _ inner ⟨t, rfl, ht⟩
  refine (mirrors_expect_skip rfl _ _ _).map ?_
  rintro _ _ rfl
  simp [Rule.tree, Rule.isTransparent, astAll, Tree.ast, Rule.build, combine, ht]

/-- The alternatives of a primary expression. -/
def primaryRules : List Rule :=
  [.trueLiteral, .falseLiteral, .numberLiteral, .stringLiteral, .variableName, .grouping]

theorem reading_primary {t : Token} {s : Rule} (hs : s ∈ primaryRules) (h : t.kind ∈ s.starters)
    (rest : List Token) :
    reading Rule.primary.pattern (t :: rest) = reading (.rule s) (t :: rest) := by
  simp only [Rule.pattern, Pattern.oneOf]
  rw [reading_either rfl, reading_either rfl, reading_either rfl, reading_either rfl,
    reading_either rfl]
  simp only [primaryRules, List.mem_cons, List.not_mem_nil, or_false] at hs
  obtain rfl | rfl | rfl | rfl | rfl | rfl := hs <;>
    simp_all [canStart, Pattern.startsWith, Rule.starters]

/-- Both sides take the next token and make something of it at once. -/
theorem Agrees.single {children : List Tree} {node : Node} {ts rest : List Token}
    (hr : reading r.pattern ts = .ok (children, rest)) (hn : nestingFrom r 0 children = 0)
    (hb : badTargetsAll children = []) (ha : astAll (r.tree children) = [.node node]) :
    Agrees (Shallow r 0 n) (fun trees node => astAll (r.tree trees) = [.node node])
      ⟨some node, rest, []⟩ (reading r.pattern ts) := by
  rw [hr]
  exact .clean ha (by simp [Shallow, hn]) (by rw [hb]; exact .nil)

theorem primary_follows (hd : DeeperFollows n deeper) : Follows n 0 (primary deeper) .primary := by
  refine Follows.of_pattern (by decide) fun ts => ?_
  rw [reading_eq_ite (Rule.isSolid_pattern .primary) rfl]
  refine accept_agrees (Rule.startsWith_pattern .primary) ?_ (.fail rfl ts)
  rintro t rest rfl ht
  simp only [List.mem_cons, List.not_mem_nil, or_false] at ht
  obtain hk | hk | hk | hk | hk | hk := ht <;> simp only [hk]
  · rw [reading_primary (s := .trueLiteral) (by decide) (by simp [hk, Rule.starters])]
    have hr := reading_skip_of_eq hk rest
    exact .alternative rfl rfl (by decide) (.single hr rfl rfl rfl)
  · rw [reading_primary (s := .falseLiteral) (by decide) (by simp [hk, Rule.starters])]
    have hr := reading_skip_of_eq hk rest
    exact .alternative rfl rfl (by decide) (.single hr rfl rfl rfl)
  · rw [reading_primary (s := .numberLiteral) (by decide) (by simp [hk, Rule.starters])]
    have hr := reading_keep_of_mem (List.mem_singleton.2 hk) rest
    exact .alternative rfl rfl (by decide) (.single hr rfl rfl rfl)
  · rw [reading_primary (s := .stringLiteral) (by decide) (by simp [hk, Rule.starters])]
    have hr := reading_keep_of_mem (List.mem_singleton.2 hk) rest
    exact .alternative rfl rfl (by decide) (.single hr rfl rfl rfl)
  · rw [reading_primary (s := .variableName) (by decide) (by simp [hk, Rule.starters])]
    have hr := reading_keep_of_mem (List.mem_singleton.2 hk) rest
    exact .alternative rfl rfl (by decide) (.single hr rfl rfl rfl)
  · rw [reading_primary (s := .grouping) (by decide) (by simp [hk, Rule.starters])]
    exact .alternative rfl rfl (by decide) (.skip rfl hk (groupingRest_mirrors hd) rest)

theorem exponent_follows (hd : DeeperFollows n deeper) :
    Follows n 0 (exponent deeper) .exponent := by
  refine Follows.of_pattern (by decide) ?_
  refine Mirrors.seq rfl ((primary_follows hd).part rfl) ?_
  rintro _ base ⟨t, rfl, ht⟩
  refine mirrors_optional_keep (d := base) rfl rfl rfl ?_ fun operator _ => ?_
  · simp [Rule.tree, Rule.isTransparent, astAll, ht]
  · refine (hd.unary.part rfl).map ?_
    rintro _ power ⟨u, rfl, hu⟩
    simp [Rule.tree, Rule.isTransparent, astAll, Tree.ast, Rule.build, combine, leftward, ht, hu]

theorem unary_follows (hd : DeeperFollows n deeper) : Follows n 0 (unary deeper) .unary := by
  refine Follows.of_pattern (by decide) fun ts => ?_
  simp only [Rule.pattern, Pattern.oneOf]
  rw [reading_either rfl]
  refine accept_agrees (fun _ => rfl) ?_ ?_
  · rintro operator rest rfl ho
    refine .keep rfl rfl ho ((hd.unary.part rfl).map ?_) rest
    rintro _ operand ⟨t, rfl, ht⟩
    simp [Rule.tree, Rule.isTransparent, astAll, Tree.ast, Rule.build, combine, ht]
  · refine ((exponent_follows hd).part rfl ts).mono ?_ fun _ _ _ => Iff.rfl
    rintro _ node ⟨t, rfl, ht⟩
    simp [Rule.tree, Rule.isTransparent, astAll, ht]

theorem product_follows (hd : DeeperFollows n deeper) : Follows n 0 (product deeper) .product :=
  chain_follows rfl rfl (fun _ => rfl) (by decide) (fun _ _ => rfl) rfl (unary_follows hd)

theorem sum_follows (hd : DeeperFollows n deeper) : Follows n 0 (sum deeper) .sum :=
  chain_follows rfl rfl (fun _ => rfl) (by decide) (fun _ _ => rfl) rfl (product_follows hd)

theorem comparison_follows (hd : DeeperFollows n deeper) :
    Follows n 0 (comparison deeper) .comparison :=
  chain_follows rfl rfl (fun _ => rfl) (by decide) (fun _ _ => rfl) rfl (sum_follows hd)

theorem equality_follows (hd : DeeperFollows n deeper) :
    Follows n 0 (equality deeper) .equality :=
  chain_follows rfl rfl (fun _ => rfl) (by decide) (fun _ _ => rfl) rfl (comparison_follows hd)

theorem conjunction_follows (hd : DeeperFollows n deeper) :
    Follows n 0 (conjunction deeper) .logicAnd :=
  chain_follows rfl rfl (fun _ => rfl) (by decide) (fun _ _ => rfl) rfl (equality_follows hd)

theorem disjunction_follows (hd : DeeperFollows n deeper) :
    Follows n 0 (disjunction deeper) .logicOr :=
  chain_follows rfl rfl (fun _ => rfl) (by decide) (fun _ _ => rfl) rfl (conjunction_follows hd)

/-- What is to be complained about an assignment to this target. -/
def targetComplaints (ahead : List Token) : Node → List Complaint
  | .var _ => []
  | _ => [⟨ahead, .invalidAssignment⟩]

/-- An assignment, with the complaint about its own target put off. -/
def assignmentParts (deeper : Deeper) : Parse (Node × List Complaint) := do
  let target ← disjunction deeper
  let ahead ← lookahead
  match ← accept [.equal] with
  | none => pure (target, [])
  | some _ => do
    let value ← deeper.assignment
    pure (assigned target value, targetComplaints ahead target)

theorem assignment_eq (deeper : Deeper) :
    assignment deeper = complainAfter (assignmentParts deeper) := by
  simp only [assignment, assignmentParts, complainAfter_bind]
  refine bind_congr fun target => bind_congr fun ahead => bind_congr fun found => ?_
  cases found with
  | none => rfl
  | some equals =>
    rw [complainAfter_bind]
    refine bind_congr fun value => ?_
    cases target <;> rfl

theorem lookahead_bind (g : List Token → Parse α) (ts : List Token) :
    (lookahead >>= g) ts = g ts ts := by
  rw [bind_of_result_some (f := lookahead) rfl]
  rfl

theorem blames_own_target {target : Tree} {e : Token} {rest : List Token} {value : Tree}
    {x : Node} (hx : target.ast = .node x) :
    Blames (targetComplaints (e :: rest) x)
      (Rule.assignment.ownBadTargets [target, .leaf e, value]) := by
  cases x <;> simp [targetComplaints, Rule.ownBadTargets, Tree.isVariable, hx, Blames]

theorem assignment_follows (hd : DeeperFollows n deeper) :
    Follows n 0 (assignment deeper) .assignment := by
  intro ts
  rw [assignment_eq, reading_rule]
  refine .tree (n := n) (by simp) ?_
  rw [Rule.pattern, reading_seq rfl]
  refine ((disjunction_follows hd).part rfl ts).bind (fun _ _ h => (Shallow.append_iff.1 h).1) ?_
  rintro _ target rest - ⟨t, rfl, ht⟩ hs
  have hfits (right : List Tree) :
      Shallow .assignment 1 n right ↔ Shallow .assignment 0 n ([t] ++ right) := by
    rw [Shallow.append_iff, and_iff_right hs]
    rfl
  -- The target is known to be shallow enough, so only the value is left to be checked.
  suffices h : Agrees (Shallow .assignment 1 n) _ _ _ from
    h.mono (fun _ _ h => h) fun right _ _ => hfits right
  rw [lookahead_bind, reading_optional rfl]
  refine accept_agrees (fun _ => rfl) ?_ ?_
  · rintro e rest rfl he
    refine .keep rfl rfl he ((hd.assignment.part rfl).map ?_) rest
    rintro _ value ⟨u, rfl, hu⟩
    refine ⟨?_, blames_own_target ht⟩
    simp [Rule.tree, Rule.isTransparent, astAll, Tree.ast, Rule.build, ht, hu]
  · refine .clean ⟨?_, .nil⟩ (.nil _ _ _) .nil
    simp [Rule.tree, Rule.isTransparent, astAll, ht]

theorem expression_follows (hd : DeeperFollows n deeper) :
    Follows n 0 (expression deeper) .expression := by
  have hc : Follows n 0 (expression deeper) .comma :=
    chain_follows rfl rfl (fun _ => rfl) (by decide) (fun _ _ => rfl) rfl (assignment_follows hd)
  refine Follows.of_pattern (by decide) fun ts => ?_
  refine (hc.part (r := .expression) rfl ts).mono ?_ fun _ _ _ => Iff.rfl
  rintro _ node ⟨t, rfl, ht⟩
  simp [Rule.tree, Rule.isTransparent, astAll, ht]

end

end LetLang.Parser
