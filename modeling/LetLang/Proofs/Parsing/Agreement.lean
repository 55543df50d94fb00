import LetLang.Parser.Statement
import LetLang.Proofs.Grammar.Reading
import LetLang.Proofs.Grammar.SyntaxTree

namespace LetLang

/-- Is it the nesting that is complained about? The grammar has no bound on it. -/
def SyntaxError.isDepth : SyntaxError → Bool
  | .expressionTooDeep | .statementTooDeep => true
  | _ => false

/-- Is it an error that a reading by the grammar stops at? -/
def SyntaxError.isRefusal (e : SyntaxError) : Bool := !e.isDepth && e != .invalidAssignment

namespace Parser
open Strict

/-- The complaints are about the targets of assignments, at these equals signs. -/
def Blames (complaints : List Complaint) (equals : List Token) : Prop :=
  complaints.map (fun c => (c.error, c.ahead.head?)) =
    equals.map fun t => (SyntaxError.invalidAssignment, some t)

theorem Blames.nil : Blames [] [] := rfl

theorem Blames.append {cs ds : List Complaint} {us vs : List Token} (h : Blames cs us)
    (h' : Blames ds vs) : Blames (cs ++ ds) (us ++ vs) := by
  unfold Blames at *
  rw [List.map_append, List.map_append, h, h']

theorem Blames.eq_nil_iff {cs : List Complaint} {us : List Token} (h : Blames cs us) :
    cs = [] ↔ us = [] := by
  have hl := congrArg List.length h
  simp only [List.length_map] at hl
  rw [← List.length_eq_zero_iff, ← List.length_eq_zero_iff, hl]

section
variable {α β : Type}

/-- What a parser did and what was read from the same tokens. Unless the nesting is complained
about, the first complaint that is not about a target stands where the reading stopped; and when
there is none, both took the same tokens. Trees that fit are those that do not nest too deeply. -/
inductive Agrees (fits : List Tree → Prop) (means : List Tree → α → Prop) :
    Outcome α → Strict.Parsed → Prop
  | clean {a : α} {rest : List Token} {complaints : List Complaint} {trees : List Tree}
    (value : means trees a) (shallow : fits trees) (blame : Blames complaints (badTargetsAll trees)) :
    Agrees fits means ⟨some a, rest, complaints⟩ (.ok (trees, rest))
  | refused {o : Outcome α} {c : Complaint} {equals : List Token} (before after : List Complaint)
    (complaints : o.complaints = before ++ c :: after) (blame : Blames before equals)
    (error : c.error.isRefusal = true) : Agrees fits means o (.error c.ahead)
  | tooDeep {o : Outcome α} {r : Strict.Parsed} {c : Complaint} {equals : List Token}
    (before after : List Complaint) (complaints : o.complaints = before ++ c :: after)
    (blame : Blames before equals) (error : c.error.isDepth = true)
    (deep : ∀ trees rest, r = .ok (trees, rest) → ¬ fits trees ∧ equals <+: badTargetsAll trees) :
    Agrees fits means o r

/-- The parser agrees with the pattern on all tokens. -/
def Mirrors (fits : List Tree → Prop) (means : List Tree → α → Prop) (f : Parse α) (p : Pattern) :
    Prop :=
  ∀ ts, Agrees fits means (f ts) (reading p ts)

theorem bind_of_result_some {f : Parse α} {g : α → Parse β} {ts rest : List Token} {a : α}
    {cs : List Complaint} (h : f ts = ⟨some a, rest, cs⟩) :
    (f >>= g) ts = ⟨(g a rest).result, (g a rest).rest, cs ++ (g a rest).complaints⟩ := by
  simp only [bind, Parse.bind, h]

theorem exists_complaints_bind (f : Parse α) (g : α → Parse β) (ts : List Token) :
    ∃ more, ((f >>= g) ts).complaints = (f ts).complaints ++ more := by
  simp only [bind, Parse.bind]
  split
  · exact ⟨[], (List.append_nil _).symm⟩
  · exact ⟨_, rfl⟩

variable {fits fits' : List Tree → Prop} {means : List Tree → α → Prop}
  {means' : List Tree → β → Prop} {f : Parse α} {g : α → Parse β} {ts : List Token}

/-- The complaints up to the decisive one are not changed by what is done afterwards. -/
theorem Agrees.bind {r : Strict.Parsed} {next : List Token → Strict.Parsed} (h : Agrees fits means (f ts) r)
    (hfits : ∀ left right, fits' (left ++ right) → fits left)
    (hg : ∀ left a rest, r = .ok (left, rest) → means left a → fits left →
      Agrees (fun right => fits' (left ++ right)) (fun right b => means' (left ++ right) b)
        (g a rest) (next rest)) : Agrees fits' means' ((f >>= g) ts) (andThen r next) := by
  obtain ⟨more, hmore⟩ := exists_complaints_bind f g ts
  generalize ho : f ts = o at h hmore
  cases h with
  | @clean a rest cs left value shallow blame =>
    -- the second parser starts where the first one stopped, and its complaints come after
    rw [bind_of_result_some ho]
    have hs := hg left a rest rfl value shallow
    generalize g a rest = second, hn : next rest = r' at hs
    unfold andThen
    dsimp only
    rw [hn]
    cases hs with
    | clean value shallow blame' =>
      refine .clean value shallow ?_
      rw [badTargetsAll_append]
      exact blame.append blame'
    | refused before after complaints blame' error =>
      refine .refused (cs ++ before) after ?_ (blame.append blame') error
      simp [complaints]
    | tooDeep before after complaints blame' error deep =>
      refine .tooDeep (cs ++ before) after (by simp only [complaints, List.append_assoc])
        (blame.append blame') error ?_
      intro trees last hr
      cases r' with
      | error ts' => cases hr
      | ok parsed =>
        obtain ⟨right, last'⟩ := parsed
        cases hr
        obtain ⟨hdeep, hpre⟩ := deep right last' rfl
        refine ⟨hdeep, ?_⟩
        rw [badTargetsAll_append]
        exact (List.prefix_append_right_inj _).2 hpre
  | refused before after complaints blame error =>
    -- the decisive complaint has been made, whatever is done with the tokens after it
    refine .refused before (after ++ more) ?_ blame error
    rw [hmore, complaints, List.append_assoc, List.cons_append]
  | tooDeep before after complaints blame error deep =>
    refine .tooDeep before (after ++ more)
      (by rw [hmore, complaints, List.append_assoc, List.cons_append]) blame error ?_
    intro trees last hr
    obtain ⟨left, mid, right, rfl, -, rfl⟩ := andThen_eq_ok_iff.1 hr
    obtain ⟨hdeep, hpre⟩ := deep left mid rfl
    rw [badTargetsAll_append]
    exact ⟨fun hf => hdeep (hfits left right hf), hpre.trans (List.prefix_append _ _)⟩

theorem bind_pure_eq (f : Parse α) (k : α → β) (ts : List Token) :
    (f >>= fun a => pure (k a)) ts = ⟨(f ts).result.map k, (f ts).rest, (f ts).complaints⟩ := by
  simp only [bind, Parse.bind, pure, Parse.pure]
  split
  · next h => rw [h, Option.map_none]
  · next a h => rw [h, Option.map_some, List.append_nil]

theorem Agrees.map {r : Strict.Parsed} (h : Agrees fits means (f ts) r) {k : α → β}
    (hm : ∀ trees a, means trees a → means' trees (k a)) :
    Agrees fits means' ((f >>= fun a => pure (k a)) ts) r := by
  rw [bind_pure_eq]
  generalize f ts = o at h
  cases h with
  | clean value shallow blame => exact .clean (hm _ _ value) shallow blame
  | refused before after complaints blame error => exact .refused before after complaints blame error
  | tooDeep before after complaints blame error deep =>
    exact .tooDeep before after complaints blame error deep

theorem Agrees.mono {r : Strict.Parsed} {o : Outcome α} {means₂ : List Tree → α → Prop}
    {fits₂ : List Tree → Prop} (h : Agrees fits means o r)
    (hm : ∀ trees a, means trees a → means₂ trees a)
    (hf : ∀ trees rest, r = .ok (trees, rest) → (fits trees ↔ fits₂ trees)) :
    Agrees fits₂ means₂ o r := by
  cases h with
  | clean value shallow blame => exact .clean (hm _ _ value) ((hf _ _ rfl).1 shallow) blame
  | refused before after complaints blame error => exact .refused before after complaints blame error
  | tooDeep before after complaints blame error deep =>
    refine .tooDeep before after complaints blame error fun trees rest hr => ?_
    obtain ⟨hd, hp⟩ := deep trees rest hr
    exact ⟨fun h => hd ((hf trees rest hr).2 h), hp⟩

/-- Trees that were read before, without bad targets, in front of those that are read now. -/
theorem Agrees.prepend {r : Strict.Parsed} {o : Outcome α} {left : List Tree}
    (hl : badTargetsAll left = [])
    (h : Agrees (fun right => fits (left ++ right)) (fun right a => means (left ++ right) a) o r) :
    Agrees fits means o (r.map fun (right, rest) => (left ++ right, rest)) := by
  cases h with
  | clean value shallow blame =>
    refine .clean value shallow ?_
    rwa [badTargetsAll_append, hl, List.nil_append]
  | refused before after complaints blame error => exact .refused before after complaints blame error
  | @tooDeep _ r _ _ before after complaints blame error deep =>
    refine .tooDeep before after complaints blame error fun trees rest hr => ?_
    cases r with
    | error ts' => cases hr
    | ok parsed =>
      obtain ⟨right, last⟩ := parsed
      cases hr
      rw [badTargetsAll_append, hl, List.nil_append]
      exact deep right _ rfl

/-- From this place of the rule on, the children do not nest too deeply. -/
def Shallow (r : Rule) (place n : Nat) (trees : List Tree) : Prop := nestingFrom r place trees ≤ n

theorem Shallow.append_iff {r : Rule} {place n : Nat} {left right : List Tree} :
    Shallow r place n (left ++ right) ↔
      Shallow r place n left ∧ Shallow r (place + left.length) n right := by
  rw [Shallow, nestingFrom_append, Nat.max_le]
  rfl

theorem Shallow.nil (r : Rule) (place n : Nat) : Shallow r place n [] := Nat.zero_le n

theorem Mirrors.seq {r : Rule} {place n : Nat} {a b : Pattern}
    (hp : (Pattern.seq a b).isProper = true) (hf : Mirrors (Shallow r place n) means f a)
    (hg : ∀ left x, means left x → Mirrors (Shallow r (place + left.length) n)
      (fun right y => means' (left ++ right) y) (g x) b) :
    Mirrors (Shallow r place n) means' (f >>= g) (.seq a b) := by
  intro ts
  rw [reading_seq hp]
  refine (hf ts).bind (fun left right h => (Shallow.append_iff.1 h).1) ?_
  intro left x rest _ hm hs
  refine (hg left x hm rest).mono (fun _ _ h => h) fun right _ _ => ?_
  rw [Shallow.append_iff, and_iff_right hs]

theorem Mirrors.map {p : Pattern} {k : α → β} (h : Mirrors fits means f p)
    (hm : ∀ trees a, means trees a → means' trees (k a)) :
    Mirrors fits means' (f >>= fun a => pure (k a)) p :=
  fun ts => (h ts).map hm

theorem accept_bind_of_mem {kinds : List TokenKind} {g : Option Token → Parse β} {t : Token}
    (h : t.kind ∈ kinds) (rest : List Token) : (accept kinds >>= g) (t :: rest) = g (some t) rest := by
  have ha : accept kinds (t :: rest) = ⟨some (some t), rest, []⟩ := by rw [accept, if_pos h]
  rw [bind_of_result_some ha, List.nil_append]

theorem accept_bind_of_not_mem {kinds : List TokenKind} {g : Option Token → Parse β}
    {ts : List Token} (h : ∀ t ∈ ts.head?, t.kind ∉ kinds) :
    (accept kinds >>= g) ts = g none ts := by
  have ha : accept kinds ts = ⟨some none, ts, []⟩ := by
    cases ts with
    | nil => rfl
    | cons t rest => rw [accept, if_neg (h t rfl)]
  rw [bind_of_result_some ha, List.nil_append]

theorem expect_of_eq {kind : TokenKind} {t : Token} (h : t.kind = kind) (e : SyntaxError)
    (rest : List Token) : expect kind e (t :: rest) = ⟨some t, rest, []⟩ :=
  accept_bind_of_mem (by simp [h]) rest

theorem expect_of_ne {kind : TokenKind} {ts : List Token} (h : ∀ t ∈ ts.head?, t.kind ≠ kind)
    (e : SyntaxError) : expect kind e ts = ⟨none, ts, [⟨ts, e⟩]⟩ :=
  accept_bind_of_not_mem (by simpa using h)

theorem Agrees.fail {e : SyntaxError} (he : e.isRefusal = true) (ts : List Token) :
    Agrees fits means ⟨none, ts, [⟨ts, e⟩]⟩ (.error ts) :=
  .refused (c := ⟨ts, e⟩) [] [] rfl .nil he

theorem mirrors_expect_skip {kind : TokenKind} {e : SyntaxError} (he : e.isRefusal = true)
    (r : Rule) (place n : Nat) :
    Mirrors (Shallow r place n) (fun trees _ => trees = []) (expect kind e) (.skip kind) := by
  intro ts
  cases ts with
  | nil =>
    rw [expect_of_ne (by simp)]
    exact .fail he []
  | cons t ts =>
    rw [reading_skip_cons]
    split
    · next h =>
      rw [expect_of_eq h]
      exact .clean rfl (.nil r place n) .nil
    · next h =>
      rw [expect_of_ne (by simpa using h)]
      exact .fail he _

theorem mirrors_expect_keep {kind : TokenKind} {e : SyntaxError} (he : e.isRefusal = true)
    {r : Rule} {place : Nat} (hw : r.weight place = 0) (n : Nat) :
    Mirrors (Shallow r place n) (fun trees t => trees = [.leaf t]) (expect kind e)
      (.keep [kind]) := by
  intro ts
  cases ts with
  | nil =>
    rw [expect_of_ne (by simp)]
    exact .fail he []
  | cons t ts =>
    rw [reading_keep_cons]
    split
    · next h =>
      rw [expect_of_eq (by simpa using h)]
      exact .clean rfl (by simp [Shallow, nestingFrom, hw, Tree.nesting]) .nil
    · next h =>
      rw [expect_of_ne (by simpa using h)]
      exact .fail he _

end

end Parser

end LetLang
