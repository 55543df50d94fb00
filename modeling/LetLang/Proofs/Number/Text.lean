import LetLang.Number.Text
import LetLang.Proofs.Text.Span
import Mathlib.Data.Nat.Digits.Defs

namespace LetLang.Number

/-- Digits with at most one underscore between two of them, and the values of the digits. -/
inductive IsDigits : List Char → List Nat → Prop
  | last {c : Char} {d : Nat} (digit : decimalDigit? c = some d) : IsDigits [c] [d]
  | cons {c : Char} {cs : List Char} {d : Nat} {ds : List Nat} (digit : decimalDigit? c = some d)
    (more : IsDigits cs ds) : IsDigits (c :: cs) (d :: ds)
  | mark {c : Char} {cs : List Char} {d : Nat} {ds : List Nat} (digit : decimalDigit? c = some d)
    (more : IsDigits cs ds) : IsDigits (c :: '_' :: cs) (d :: ds)

/-- A sign, which may be left out, and the factor that it stands for. -/
inductive IsSign : List Char → Int → Prop
  | none : IsSign [] 1
  | plus : IsSign ['+'] 1
  | minus : IsSign ['-'] (-1)

/-- A text that begins with blanks, a sign and digits, and the rest from where the digits end. -/
inductive Begins : List Char → Int → List Nat → List Char → Prop
  | intro {blanks sign body rest : List Char} {factor : Int} {ds : List Nat}
    (blank : ∀ c ∈ blanks, isSpace c = true) (signed : IsSign sign factor)
    (digits : IsDigits body ds) (ends : ∀ c ∈ rest.head?, isDigitOrMark c = false) :
    Begins (blanks ++ (sign ++ (body ++ rest))) factor ds rest

/-- The texts of a number: behind its digits, of which there are at most 4300, are blanks only. -/
def IsNumberText (cs : List Char) (n : Int) : Prop :=
  ∃ factor ds rest, Begins cs factor ds rest ∧ ds.length ≤ 4300 ∧ (∀ c ∈ rest, isSpace c = true) ∧
    n = factor * (Nat.ofDigits 10 ds.reverse : Nat)

/-- The texts with more digits than are read, whatever stands behind the digits. -/
def HasTooManyDigits (cs : List Char) (count : Nat) : Prop :=
  ∃ factor ds rest, Begins cs factor ds rest ∧ 4300 < ds.length ∧ count = ds.length

theorem decimalDigit?_mark : decimalDigit? '_' = none := by decide

theorem isDigitOrMark_of_digit {c : Char} {d : Nat} (h : decimalDigit? c = some d) :
    isDigitOrMark c = true := by
  rw [isDigitOrMark, h]
  exact Bool.or_true _

theorem ne_mark_of_digit {c : Char} {d : Nat} (h : decimalDigit? c = some d) : c ≠ '_' := by
  rintro rfl
  rw [decimalDigit?_mark] at h
  cases h

theorem exists_digit {c : Char} (h : isDigitOrMark c = true) (hc : c ≠ '_') :
    ∃ d, decimalDigit? c = some d := by
  rw [isDigitOrMark, Bool.or_eq_true, beq_iff_eq] at h
  exact Option.isSome_iff_exists.1 (h.resolve_left hc)

section
variable {cs : List Char} {ds : List Nat}

theorem IsDigits.forall_mem (h : IsDigits cs ds) : ∀ c ∈ cs, isDigitOrMark c = true := by
  induction h with
  | last digit => exact List.forall_mem_singleton.2 (isDigitOrMark_of_digit digit)
  | cons digit more ih => exact List.forall_mem_cons.2 ⟨isDigitOrMark_of_digit digit, ih⟩
  | mark digit more ih =>
    exact List.forall_mem_cons.2 ⟨isDigitOrMark_of_digit digit, List.forall_mem_cons.2 ⟨rfl, ih⟩⟩

theorem IsDigits.exists_cons (h : IsDigits cs ds) :
    ∃ c rest d, cs = c :: rest ∧ decimalDigit? c = some d := by
  cases h with
  | last digit | cons digit | mark digit => exact ⟨_, _, _, rfl, digit⟩

theorem IsDigits.marksAreSingle (h : IsDigits cs ds) : marksAreSingle cs = true := by
  induction h with
  | last digit => exact bne_iff_ne.2 (ne_mark_of_digit digit)
  | cons digit more ih =>
    obtain ⟨e, es, d, rfl, -⟩ := more.exists_cons
    simp [Number.marksAreSingle, ne_mark_of_digit digit, ih]
  | mark digit more ih =>
    obtain ⟨e, es, d, rfl, digit'⟩ := more.exists_cons
    simp [Number.marksAreSingle, ne_mark_of_digit digit, ne_mark_of_digit digit', ih]

theorem IsDigits.filterMap_eq (h : IsDigits cs ds) : cs.filterMap decimalDigit? = ds := by
  induction h with
  | last digit => rw [List.filterMap_cons, digit, List.filterMap_nil]
  | cons digit more ih => rw [List.filterMap_cons, digit, ih]
  | mark digit more ih =>
    rw [List.filterMap_cons, digit, List.filterMap_cons, decimalDigit?_mark, ih]

/-- Digits and underscores that begin with a digit are digits, and those behind an underscore are,
when no two underscores are side by side and none stands at the end. -/
theorem exists_isDigits (hc : ∀ c ∈ cs, isDigitOrMark c = true)
    (hs : Number.marksAreSingle cs = true) :
    (cs.head? ≠ some '_' → ∃ ds, IsDigits cs ds) ∧
      ∀ rest, cs = '_' :: rest → ∃ ds, IsDigits rest ds := by
  induction cs with
  | nil => cases hs
  | cons c cs ih =>
    obtain ⟨hfirst, hmore⟩ := List.forall_mem_cons.1 hc
    cases cs with
    | nil =>
      have hne : c ≠ '_' := bne_iff_ne.1 hs
      obtain ⟨d, hd⟩ := exists_digit hfirst hne
      exact ⟨fun _ => ⟨[d], .last hd⟩, fun rest hr => absurd (List.cons.inj hr).1 hne⟩
    | cons e cs =>
      rw [Number.marksAreSingle, Bool.and_eq_true, Bool.or_eq_true, bne_iff_ne, bne_iff_ne] at hs
      obtain ⟨hdigits, hmark⟩ := ih hmore hs.2
      constructor
      · intro hhead
        obtain ⟨d, hd⟩ := exists_digit hfirst (mt (congrArg some) hhead)
        by_cases he : e = '_'
        · subst he
          obtain ⟨ds, hds⟩ := hmark cs rfl
          exact ⟨d :: ds, .mark hd hds⟩
        · obtain ⟨ds, hds⟩ := hdigits (mt Option.some.inj he)
          exact ⟨d :: ds, .cons hd hds⟩
      · intro rest hr
        obtain ⟨rfl, rfl⟩ := List.cons.inj hr
        exact hdigits (mt Option.some.inj (hs.1.resolve_left fun h => h rfl))

theorem foldl_digits (ds : List Nat) :
    ds.foldl (fun n digit => 10 * n + digit) 0 = Nat.ofDigits 10 ds.reverse := by
  rw [Nat.ofDigits_eq_foldr, List.foldr_reverse]
  congr 1
  funext n d
  exact Nat.add_comm _ _

theorem sizeOfText_append {body rest : List Char} (digits : IsDigits body ds)
    (ends : ∀ c ∈ rest.head?, isDigitOrMark c = false) :
    sizeOfText (body ++ rest) =
      if 4300 < ds.length then .error (.tooManyDigits ds.length)
      else if rest.all isSpace then .ok (Nat.ofDigits 10 ds.reverse)
      else .error .notANumber := by
  have hhead : body.head? ≠ some '_' := by
    obtain ⟨c, cs, d, rfl, digit⟩ := digits.exists_cons
    exact mt Option.some.inj (ne_mark_of_digit digit)
  obtain ⟨hrun, hrest⟩ := Text.span_of_ends digits.forall_mem ends
  rw [sizeOfText, hrun, hrest]
  simp only [hhead, decide_false, digits.marksAreSingle, digits.filterMap_eq, foldl_digits,
    maxDigits, gt_iff_lt, Bool.not_true, Bool.or_self, Bool.false_eq_true, if_false]

/-- Without digits at the start there is no number. -/
theorem sizeOfText_eq_error (h : ∀ body rest ds, cs = body ++ rest → IsDigits body ds →
    ¬ ∀ c ∈ rest.head?, isDigitOrMark c = false) : sizeOfText cs = .error .notANumber := by
  by_cases hbad : decide ((cs.takeWhile isDigitOrMark).head? = some '_') ||
      !Number.marksAreSingle (cs.takeWhile isDigitOrMark)
  · rw [sizeOfText]
    simp only [hbad, if_true]
  · exfalso
    rw [Bool.or_eq_true, not_or, decide_eq_true_iff, Bool.not_eq_true', Bool.not_eq_false] at hbad
    obtain ⟨ds, hds⟩ :=
      (exists_isDigits (fun c hc => List.mem_takeWhile_imp hc) hbad.2).1 hbad.1
    exact h _ _ ds List.takeWhile_append_dropWhile.symm hds
      (Text.not_head_dropWhile isDigitOrMark cs)

end

/-- Between these four ranges lie the blanks. -/
theorem zeroDigits_ranges : ∀ first ∈ zeroDigits, first = 0x30 ∨ 0x660 ≤ first ∧ first ≤ 0x1090 ∨
    0x17E0 ≤ first ∧ first ≤ 0x1C50 ∨ 0xA620 ≤ first := by decide

theorem isDigitOrMark_of_isSpace {c : Char} (h : isSpace c = true) : isDigitOrMark c = false := by
  have hmark : c ≠ '_' := by
    rintro rfl
    exact absurd h (by decide)
  have hdigit : decimalDigit? c = none := by
    rw [decimalDigit?, Option.map_eq_none_iff, List.find?_eq_none]
    intro first hfirst
    have hrange := zeroDigits_ranges first hfirst
    simp only [isSpace, Bool.or_eq_true, Bool.and_eq_true, beq_iff_eq, decide_eq_true_eq] at h ⊢
    omega
  rw [isDigitOrMark, hdigit, beq_eq_false_iff_ne.2 hmark]
  rfl

theorem not_isSpace_of_digit {c : Char} {d : Nat} (h : decimalDigit? c = some d) :
    isSpace c = false := by
  rw [Bool.eq_false_iff]
  intro hs
  have hm := isDigitOrMark_of_digit h
  rw [isDigitOrMark_of_isSpace hs] at hm
  cases hm

section
variable {cs rest : List Char} {factor : Int} {ds : List Nat}

theorem ofText_append {blanks sign : List Char} {c : Char} {d : Nat}
    (blank : ∀ c ∈ blanks, isSpace c = true) (signed : IsSign sign factor)
    (digit : decimalDigit? c = some d) :
    ofText (blanks ++ (sign ++ c :: cs)) = (sizeOfText (c :: cs)).map fun n : Nat => factor * n := by
  have hspace := not_isSpace_of_digit digit
  rw [ofText, List.dropWhile_append_of_pos blank]
  cases signed with
  | none =>
    have hminus : c ≠ '-' := by
      rintro rfl
      cases digit
    have hplus : c ≠ '+' := by
      rintro rfl
      cases digit
    rw [List.nil_append, List.dropWhile_cons_of_neg (Bool.eq_false_iff.1 hspace)]
    split
    · next heq => exact absurd (List.cons.inj heq).1 hminus
    · next heq => exact absurd (List.cons.inj heq).1 hplus
    · exact congrArg (Except.map · _) (funext fun n => (Int.one_mul n).symm)
  | plus =>
    rw [List.singleton_append, List.dropWhile_cons_of_neg (by decide)]
    exact congrArg (Except.map · _) (funext fun n => (Int.one_mul n).symm)
  | minus =>
    rw [List.singleton_append, List.dropWhile_cons_of_neg (by decide)]
    exact congrArg (Except.map · _) (funext fun n => Int.neg_eq_neg_one_mul n)

/-- What a text is read as that begins with blanks, a sign and digits. -/
theorem ofText_of_begins (h : Begins cs factor ds rest) :
    ofText cs =
      if 4300 < ds.length then .error (.tooManyDigits ds.length)
      else if rest.all isSpace then .ok (factor * (Nat.ofDigits 10 ds.reverse : Nat))
      else .error .notANumber := by
  obtain ⟨blank, signed, digits, ends⟩ := h
  have hsize := sizeOfText_append digits ends
  obtain ⟨c, more, d, rfl, digit⟩ := digits.exists_cons
  rw [List.cons_append] at hsize ⊢
  rw [ofText_append blank signed digit, hsize]
  split_ifs <;> rfl

theorem ofText_of_not_begins (h : ∀ factor ds rest, ¬ Begins cs factor ds rest) :
    ofText cs = .error .notANumber := by
  have hblank : ∀ c ∈ cs.takeWhile isSpace, isSpace c = true := fun c hc =>
    List.mem_takeWhile_imp hc
  have hcore {sign core : List Char} {factor : Int} (signed : IsSign sign factor)
      (hcs : cs.dropWhile isSpace = sign ++ core) : sizeOfText core = .error .notANumber := by
    refine sizeOfText_eq_error fun body rest ds hbody digits ends => h factor ds rest ?_
    rw [← @List.takeWhile_append_dropWhile _ isSpace cs, hcs, hbody]
    exact .intro hblank signed digits ends
  rw [ofText]
  split
  · next core hcs => rw [hcore .minus hcs]; rfl
  · next core hcs => rw [hcore .plus hcs]; rfl
  · rw [hcore .none rfl]; rfl

/-- A text either begins with blanks, a sign and digits, or it is not one of a number. -/
theorem begins_or_eq_error (cs : List Char) :
    (∃ factor ds rest, Begins cs factor ds rest) ∨ ofText cs = .error .notANumber := by
  by_cases h : ∃ factor ds rest, Begins cs factor ds rest
  · exact .inl h
  · simp only [not_exists] at h
    exact .inr (ofText_of_not_begins h)

theorem ofText_eq_ok_iff {n : Int} : ofText cs = .ok n ↔ IsNumberText cs n := by
  constructor
  · intro hok
    obtain ⟨factor, ds, rest, hb⟩ | herror := begins_or_eq_error cs
    · rw [ofText_of_begins hb] at hok
      split_ifs at hok with hmany hrest
      cases hok
      exact ⟨factor, ds, rest, hb, Nat.not_lt.1 hmany, List.all_eq_true.1 hrest, rfl⟩
    · rw [herror] at hok
      cases hok
  · rintro ⟨factor, ds, rest, hb, few, blank, rfl⟩
    rw [ofText_of_begins hb, if_neg (Nat.not_lt.2 few), if_pos (List.all_eq_true.2 blank)]

/-- Blanks around a sign and digits with an underscore between them. -/
example : IsNumberText " -1_0\n".toList (-10) := ofText_eq_ok_iff.1 (by decide)

theorem ofText_eq_tooManyDigits_iff {count : Nat} :
    ofText cs = .error (.tooManyDigits count) ↔ HasTooManyDigits cs count := by
  constructor
  · intro hmany
    obtain ⟨factor, ds, rest, hb⟩ | herror := begins_or_eq_error cs
    · rw [ofText_of_begins hb] at hmany
      split_ifs at hmany with hlong
      · cases hmany
        exact ⟨factor, ds, rest, hb, hlong, rfl⟩
      · cases hmany
    · rw [herror] at hmany
      cases hmany
  · rintro ⟨factor, ds, rest, hb, many, rfl⟩
    rw [ofText_of_begins hb, if_pos many]

end

end LetLang.Number
