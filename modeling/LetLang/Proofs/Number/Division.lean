import LetLang.Number.Range

namespace LetLang.Number

variable {a b q q' : Int}

/-- The remainder is smaller than the divisor, and it is zero or has the sign of the dividend. -/
structure IsQuotient (a b q : Int) : Prop where
  small : (a - q * b).natAbs < b.natAbs
  sign : a - q * b = 0 ∨ (a - q * b).sign = a.sign

/-- Dividing the sizes rounds toward zero. -/
theorem divide_eq_tdiv (a b : Int) : divide a b = a.tdiv b := by
  have h : ∀ k : Nat, ¬ (k : Int) < 0 := fun k => Int.not_lt.2 (Int.natCast_nonneg k)
  cases a <;> cases b <;> simp [divide, Int.tdiv, h]

theorem divide?_eq_some_iff : divide? a b = some q ↔ b ≠ 0 ∧ q = divide a b := by
  unfold divide?
  by_cases hb : b = 0
  · simp [hb]
  · simp [hb, eq_comm]

theorem neg_divide (a b : Int) : divide (-a) b = -divide a b := by
  rw [divide_eq_tdiv, divide_eq_tdiv, Int.neg_tdiv]

theorem divide_neg (a b : Int) : divide a (-b) = -divide a b := by
  rw [divide_eq_tdiv, divide_eq_tdiv, Int.tdiv_neg]

theorem natAbs_divide (a b : Int) : (divide a b).natAbs = a.natAbs / b.natAbs := by
  rw [divide_eq_tdiv]
  exact Int.natAbs_tdiv a b

theorem natAbs_divide_le (a b : Int) : (divide a b).natAbs ≤ a.natAbs := by
  rw [natAbs_divide]
  exact Nat.div_le_self _ _

/-- Multiplied by the divisor, a quotient comes back to no more than the dividend. -/
theorem natAbs_divide_mul_le (a b : Int) : (divide a b * b).natAbs ≤ a.natAbs :=
  calc (divide a b * b).natAbs
      = a.natAbs / b.natAbs * b.natAbs := by rw [Int.natAbs_mul, natAbs_divide]
    _ ≤ a.natAbs := Nat.div_mul_le_self _ _

theorem sub_divide_mul (a b : Int) : a - divide a b * b = a.tmod b := by
  rw [divide_eq_tdiv, Int.tmod_def, Int.mul_comm]

theorem isQuotient_divide (a : Int) (hb : b ≠ 0) : IsQuotient a b (divide a b) := by
  constructor
  · rw [sub_divide_mul, Int.natAbs_tmod]
    exact Nat.mod_lt _ (Int.natAbs_pos.2 hb)
  · rw [sub_divide_mul]
    by_cases hd : b ∣ a
    · exact .inl (Int.tmod_eq_zero_of_dvd hd)
    · exact .inr ((Int.sign_tmod a b).trans (if_neg hd))

theorem IsQuotient.nonneg (h : IsQuotient a b q) (ha : 0 ≤ a) : 0 ≤ a - q * b := by
  obtain hr | hr := h.sign
  · omega
  · rw [← Int.sign_nonneg_iff, hr]
    exact Int.sign_nonneg_iff.2 ha

theorem IsQuotient.nonpos (h : IsQuotient a b q) (ha : a ≤ 0) : a - q * b ≤ 0 := by
  obtain hr | hr := h.sign
  · omega
  · rw [← Int.sign_nonpos_iff, hr]
    exact Int.sign_nonpos_iff.2 ha

/-- Two remainders on one side of zero are less than the divisor apart. -/
theorem IsQuotient.unique (h : IsQuotient a b q) (h' : IsQuotient a b q') : q = q' := by
  have hs := h.small
  have hs' := h'.small
  have hlt : ((q - q') * b).natAbs < b.natAbs := by
    rw [Int.sub_mul]
    rcases Int.le_total 0 a with ha | ha
    · have hr := h.nonneg ha
      have hr' := h'.nonneg ha
      omega
    · have hr := h.nonpos ha
      have hr' := h'.nonpos ha
      omega
  rw [Int.natAbs_mul] at hlt
  have hzero : (q - q').natAbs < 1 := Nat.lt_of_mul_lt_mul_right (by rwa [Nat.one_mul])
  omega

/-- There is one quotient with a remainder that is smaller than the divisor and has the sign of the
dividend. -/
theorem isQuotient_iff (hb : b ≠ 0) : IsQuotient a b q ↔ q = divide a b := by
  constructor
  · intro h
    exact h.unique (isQuotient_divide a hb)
  · rintro rfl
    exact isQuotient_divide a hb

end LetLang.Number
