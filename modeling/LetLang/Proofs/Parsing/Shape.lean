import LetLang.Node.Basic

namespace LetLang.Node

/-- The operators whose operands both stand on the level of the whole. -/
def chainedKinds : List TokenKind := [.comma, .equalEqual, .notEqual, .greater, .greaterEqual,
  .less, .lessEqual, .plus, .minus, .asterisk, .slash]

/-- An expression made of the tokens, nested so many levels at most. -/
inductive IsExpression : Nat → List Token → Node → Prop
  | truth {n : Nat} {ts : List Token} (b : Bool) : IsExpression n ts (.literal (.bool b))
  | literal {n : Nat} {ts : List Token} {t : Token} (kind : t.kind = .number ∨ t.kind = .string)
    (used : [t].Sublist ts) : IsExpression n ts (.literal (.data t.literal))
  | var {n : Nat} {ts : List Token} {name : Token} (kind : name.kind = .identifier)
    (used : [name].Sublist ts) : IsExpression n ts (.var name)
  | grouping {m n : Nat} {ts : List Token} {e : Node} (level : m < n) (inner : IsExpression m ts e) :
    IsExpression n ts (.grouping e)
  | unary {m n : Nat} {ts us : List Token} {o : Token} {e : Node} (level : m < n)
    (kind : o.kind ∈ [.bang, .minus]) (operand : IsExpression m ts e)
    (used : (o :: ts).Sublist us) : IsExpression n us (.unary o e)
  | power {m n : Nat} {ts us vs : List Token} {l r : Node} {o : Token} (level : m < n)
    (kind : o.kind = .caret) (left : IsExpression n ts l) (right : IsExpression m us r)
    (used : (ts ++ o :: us).Sublist vs) : IsExpression n vs (.binary l o r)
  | binary {n : Nat} {ts us vs : List Token} {l r : Node} {o : Token}
    (kind : o.kind ∈ chainedKinds) (left : IsExpression n ts l) (right : IsExpression n us r)
    (used : (ts ++ o :: us).Sublist vs) : IsExpression n vs (.binary l o r)
  | logical {n : Nat} {ts us vs : List Token} {l r : Node} {o : Token}
    (kind : o.kind ∈ [.kwAnd, .kwOr]) (left : IsExpression n ts l) (right : IsExpression n us r)
    (used : (ts ++ o :: us).Sublist vs) : IsExpression n vs (.logical l o r)
  | assign {m n : Nat} {ts us : List Token} {name : Token} {e : Node} (level : m < n)
    (kind : name.kind = .identifier) (value : IsExpression m ts e)
    (used : (name :: ts).Sublist us) : IsExpression n us (.assign name e)

mutual
/-- A statement that is no declaration. -/
inductive IsStatement : Nat → List Token → Node → Prop
  | exprStmt {n : Nat} {ts : List Token} {e : Node} (h : IsExpression n ts e) :
    IsStatement n ts (.exprStmt e)
  | printStmt {n : Nat} {ts : List Token} {e : Node} (h : IsExpression n ts e) :
    IsStatement n ts (.printStmt e)
  | ifThen {m n : Nat} {ts us vs : List Token} {c s : Node} (level : m < n)
    (condition : IsExpression n ts c) (thenBranch : IsStatement m us s)
    (used : (ts ++ us).Sublist vs) : IsStatement n vs (.ifStmt c s .absent)
  | ifElse {m m' n : Nat} {ts us vs ws : List Token} {c s s' : Node} (level : m < n)
    (level' : m' < n) (condition : IsExpression n ts c) (thenBranch : IsStatement m us s)
    (elseBranch : IsStatement m' vs s') (used : (ts ++ (us ++ vs)).Sublist ws) :
    IsStatement n ws (.ifStmt c s s')
  | forStmt {n : Nat} {ts us vs ws : List Token} {k : Token} {a b : Node} {body : List Node}
    (kind : k.kind = .kwFor) (start : IsExpression n ts a) (finish : IsExpression n us b)
    (inside : IsBody n vs body) (used : (k :: (ts ++ (us ++ vs))).Sublist ws) :
    IsStatement n ws (.forStmt k a b body)
  | whileStmt {n : Nat} {ts us vs : List Token} {c : Node} {body : List Node}
    (condition : IsExpression n ts c) (inside : IsBody n us body)
    (used : (ts ++ us).Sublist vs) : IsStatement n vs (.whileStmt c body)
inductive IsDeclaration : Nat → List Token → Node → Prop
  | varDecl {n : Nat} {ts : List Token} {name : Token} (kind : name.kind = .identifier)
    (used : [name].Sublist ts) : IsDeclaration n ts (.varDecl name .absent)
  | initialized {n : Nat} {ts us : List Token} {name : Token} {e : Node}
    (kind : name.kind = .identifier) (value : IsExpression n ts e)
    (used : (name :: ts).Sublist us) : IsDeclaration n us (.varDecl name e)
  | statement {n : Nat} {ts : List Token} {s : Node} (h : IsStatement n ts s) : IsDeclaration n ts s
/-- Declarations one after another, each nested less deeply than the whole. -/
inductive IsBody : Nat → List Token → List Node → Prop
  | nil {n : Nat} {ts : List Token} : IsBody n ts []
  | cons {m n : Nat} {ts us vs : List Token} {d : Node} {ds : List Node} (level : m < n)
    (first : IsDeclaration m ts d) (others : IsBody n us ds) (used : (ts ++ us).Sublist vs) :
    IsBody n vs (d :: ds)
end

variable {n : Nat} {ts us : List Token} {node : Node} {body : List Node}

theorem IsExpression.within (h : IsExpression n ts node) (hs : ts.Sublist us) :
    IsExpression n us node := by
  induction h generalizing us with
  | truth b => exact .truth b
  | literal kind used => exact .literal kind (used.trans hs)
  | var kind used => exact .var kind (used.trans hs)
  | grouping level _ ih => exact .grouping level (ih hs)
  | unary level kind operand used => exact .unary level kind operand (used.trans hs)
  | power level kind left right used => exact .power level kind left right (used.trans hs)
  | binary kind left right used => exact .binary kind left right (used.trans hs)
  | logical kind left right used => exact .logical kind left right (used.trans hs)
  | assign level kind value used => exact .assign level kind value (used.trans hs)

theorem IsStatement.within (h : IsStatement n ts node) (hs : ts.Sublist us) :
    IsStatement n us node := by
  cases h with
  | exprStmt h => exact .exprStmt (h.within hs)
  | printStmt h => exact .printStmt (h.within hs)
  | ifThen level condition thenBranch used =>
    exact .ifThen level condition thenBranch (used.trans hs)
  | ifElse level level' condition thenBranch elseBranch used =>
    exact .ifElse level level' condition thenBranch elseBranch (used.trans hs)
  | forStmt kind start finish inside used =>
    exact .forStmt kind start finish inside (used.trans hs)
  | whileStmt condition inside used => exact .whileStmt condition inside (used.trans hs)

theorem IsDeclaration.within (h : IsDeclaration n ts node) (hs : ts.Sublist us) :
    IsDeclaration n us node := by
  cases h with
  | varDecl kind used => exact .varDecl kind (used.trans hs)
  | initialized kind value used => exact .initialized kind value (used.trans hs)
  | statement h => exact .statement (h.within hs)

theorem IsBody.within (h : IsBody n ts body) (hs : ts.Sublist us) : IsBody n us body := by
  cases h with
  | nil => exact .nil
  | cons level first others used => exact .cons level first others (used.trans hs)

theorem IsExpression.ne_absent (h : IsExpression n ts node) : node ≠ .absent := by
  rintro rfl
  cases h

theorem IsStatement.ne_absent (h : IsStatement n ts node) : node ≠ .absent := by
  rintro rfl
  cases h

section
variable {name o k : Token} {e l r c a b : Node}

theorem IsExpression.of_grouping (h : IsExpression n ts (.grouping e)) :
    ∃ m, IsExpression m ts e := by
  cases h with
  | grouping level inner => exact ⟨_, inner⟩

theorem IsExpression.of_var (h : IsExpression n ts (.var name)) : name ∈ ts := by
  cases h with
  | var kind used => exact used.subset (List.mem_singleton_self name)

theorem IsExpression.of_assign (h : IsExpression n ts (.assign name e)) :
    name ∈ ts ∧ ∃ m, IsExpression m ts e := by
  cases h with
  | assign level kind value used =>
    exact ⟨used.subset List.mem_cons_self, _, value.within ((List.sublist_cons_self ..).trans used)⟩

theorem IsExpression.of_unary (h : IsExpression n ts (.unary o e)) :
    o ∈ ts ∧ o.kind ∈ [.bang, .minus] ∧ ∃ m, IsExpression m ts e := by
  cases h with
  | unary level kind operand used =>
    have he := operand.within ((List.sublist_cons_self ..).trans used)
    exact ⟨used.subset List.mem_cons_self, kind, _, he⟩

/-- The operands of an operator between two of them. -/
theorem IsExpression.operands {m : Nat} {us vs : List Token} (left : IsExpression n ts l)
    (right : IsExpression m us r) (used : (ts ++ o :: us).Sublist vs) :
    o ∈ vs ∧ IsExpression n vs l ∧ IsExpression m vs r := by
  have hr := (List.sublist_cons_self ..).trans ((List.sublist_append_right ..).trans used)
  exact ⟨used.subset (List.mem_append_right _ List.mem_cons_self),
    left.within ((List.sublist_append_left ..).trans used), right.within hr⟩

theorem IsExpression.of_binary (h : IsExpression n ts (.binary l o r)) :
    o ∈ ts ∧ (o.kind = .caret ∨ o.kind ∈ chainedKinds) ∧
      (∃ m, IsExpression m ts l) ∧ ∃ m, IsExpression m ts r := by
  cases h with
  | power level kind left right used =>
    obtain ⟨hm, hl, hr⟩ := left.operands right used
    exact ⟨hm, .inl kind, ⟨_, hl⟩, _, hr⟩
  | binary kind left right used =>
    obtain ⟨hm, hl, hr⟩ := left.operands right used
    exact ⟨hm, .inr kind, ⟨_, hl⟩, _, hr⟩

theorem IsExpression.of_logical (h : IsExpression n ts (.logical l o r)) :
    IsExpression n ts l ∧ IsExpression n ts r := by
  cases h with
  | logical kind left right used => exact (left.operands right used).2

theorem IsStatement.of_ifStmt (h : IsStatement n ts (.ifStmt c a b)) :
    IsExpression n ts c ∧ (∃ m, IsStatement m ts a) ∧
      (b ≠ .absent → ∃ m, IsStatement m ts b) := by
  cases h with
  | ifThen level condition thenBranch used =>
    have hc := condition.within ((List.sublist_append_left ..).trans used)
    have ha := thenBranch.within ((List.sublist_append_right ..).trans used)
    exact ⟨hc, ⟨_, ha⟩, fun present => absurd rfl present⟩
  | ifElse level level' condition thenBranch elseBranch used =>
    have hu := (List.sublist_append_left ..).trans ((List.sublist_append_right ..).trans used)
    have hv := (List.sublist_append_right ..).trans ((List.sublist_append_right ..).trans used)
    have hc := condition.within ((List.sublist_append_left ..).trans used)
    exact ⟨hc, ⟨_, thenBranch.within hu⟩, fun _ => ⟨_, elseBranch.within hv⟩⟩

theorem IsStatement.of_whileStmt (h : IsStatement n ts (.whileStmt c body)) :
    IsExpression n ts c ∧ IsBody n ts body := by
  cases h with
  | whileStmt condition inside used =>
    exact ⟨condition.within ((List.sublist_append_left ..).trans used),
      inside.within ((List.sublist_append_right ..).trans used)⟩

theorem IsStatement.of_forStmt (h : IsStatement n ts (.forStmt k a b body)) :
    k ∈ ts ∧ IsExpression n ts a ∧ IsExpression n ts b ∧ IsBody n ts body := by
  cases h with
  | forStmt kind start finish inside used =>
    have hr := (List.sublist_cons_self ..).trans used
    have hb := (List.sublist_append_left ..).trans ((List.sublist_append_right ..).trans hr)
    have hs := (List.sublist_append_right ..).trans ((List.sublist_append_right ..).trans hr)
    exact ⟨used.subset List.mem_cons_self, start.within ((List.sublist_append_left ..).trans hr),
      finish.within hb, inside.within hs⟩

theorem IsDeclaration.of_varDecl (h : IsDeclaration n ts (.varDecl name e)) :
    name ∈ ts ∧ (e ≠ .absent → IsExpression n ts e) := by
  cases h with
  | varDecl kind used =>
    exact ⟨used.subset (List.mem_singleton_self name), fun present => absurd rfl present⟩
  | initialized kind value used =>
    have he := value.within ((List.sublist_cons_self ..).trans used)
    exact ⟨used.subset List.mem_cons_self, fun _ => he⟩
  | statement h => cases h

end

end LetLang.Node
