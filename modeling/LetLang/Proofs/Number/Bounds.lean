import Mathlib.Algebra.Group.Nat.Defs
import LetLang.Proofs.Number.Division
import LetLang.Token.Piece

namespace LetLang

namespace Binary64

theorem significand_lt (x : Binary64) : x.significand < 2 ^ 53 := by
  have hf : x.fraction < hiddenBit := Nat.mod_lt _ (by decide)
  unfold significand
  simp only [hiddenBit] at hf ⊢
  split <;> omega

/-- A finite value is smaller than 2^1024. -/
theorem magnitude_lt {x : Binary64} (h : x.isFinite = true) :
    ∃ e, e ≤ 2045 ∧ x.magnitude < 2 ^ (53 + e) := by
  have hl : x.exponentField < 2048 := Nat.mod_lt _ (by decide)
  have hn : x.exponentField ≠ 2047 := by simpa [isFinite] using h
  refine ⟨x.exponentField - 1, by omega, ?_⟩
  rw [Nat.pow_add]
  exact Nat.mul_lt_mul_of_pos_right x.significand_lt (Nat.two_pow_pos _)

theorem natAbs_truncate (x : Binary64) : x.truncate.natAbs = x.magnitude / unitsPerOne := by
  unfold truncate
  dsimp only
  split
  · exact (Int.natAbs_neg _).trans (Int.natAbs_natCast _)
  · exact Int.natAbs_natCast _

end Binary64

namespace Number

theorem natAbs_truncate_lt {x : Binary64} (h : x.isFinite = true) :
    ∃ e, e ≤ 1024 ∧ x.truncate.natAbs < 2 ^ e := by
  obtain ⟨e, he, hm⟩ := Binary64.magnitude_lt h
  obtain ⟨k, hk⟩ : ∃ k, k = 1074 := ⟨_, rfl⟩
  have hu : Binary64.unitsPerOne = 2 ^ k := by
    unfold Binary64.unitsPerOne
    rw [← hk]
    rfl
  refine ⟨53 + e - k, by omega, ?_⟩
  rw [x.natAbs_truncate, hu, Nat.div_lt_iff_lt_mul (Nat.two_pow_pos k), ← Nat.pow_add]
  exact Nat.lt_of_lt_of_le hm (Nat.pow_le_pow_right (by decide) (by omega))

theorem limit_eq : limit = 10 ^ maxDigits := by
  unfold limit
  generalize maxDigits = n
  rfl

theorem limit_pos : 0 < limit :=
  calc 0 < 10 ^ maxDigits := Nat.pow_pos (by decide)
    _ = limit := limit_eq.symm

/-- A finite floating-point value loses its fraction far inside of the range. -/
theorem inRange_truncate {x : Binary64} (h : x.isFinite = true) : InRange x.truncate := by
  obtain ⟨e, he, ht⟩ := natAbs_truncate_lt h
  have hp : 2 ^ e ≤ 10 ^ e := Nat.pow_le_pow_left (by decide) e
  have hm : e ≤ maxDigits := Nat.le_trans he (by decide)
  rw [InRange, limit_eq]
  exact Nat.lt_of_lt_of_le ht (Nat.le_trans hp (Nat.pow_le_pow_right (by decide) hm))

theorem inRange_neg {n : Int} (h : InRange n) : InRange (-n) := by
  rwa [InRange, Int.natAbs_neg]

theorem inRange_of_natAbs_le {m n : Int} (hm : InRange m) (h : n.natAbs ≤ m.natAbs) : InRange n :=
  Nat.lt_of_le_of_lt h hm

theorem inRange_divide? {a b n : Int} (ha : InRange a) (h : divide? a b = some n) : InRange n := by
  obtain ⟨-, rfl⟩ := divide?_eq_some_iff.1 h
  exact inRange_of_natAbs_le ha (natAbs_divide_le a b)

theorem inRange_power? {a b n : Int} (h : power? a b = some n) : InRange n := by
  unfold power? at h
  simp only [Option.bind_eq_bind, Option.bind_eq_some_iff] at h
  obtain ⟨x, -, y, -, h⟩ := h
  split at h
  · next hf =>
    cases h
    exact inRange_truncate hf
  · cases h

theorem ofDigits_lt {digits : List Char} (h : ∀ c ∈ digits, digitValue c ≤ 9) :
    ofDigits digits < 10 ^ digits.length := by
  have hfold : ∀ n, digits.foldl (fun n c => 10 * n + digitValue c) n <
      (n + 1) * 10 ^ digits.length := by
    induction digits with
    | nil => simp
    | cons c cs ih =>
      intro n
      rw [List.forall_mem_cons] at h
      calc (c :: cs).foldl (fun n c => 10 * n + digitValue c) n
          < (10 * n + digitValue c + 1) * 10 ^ cs.length := ih h.2 _
        _ ≤ ((n + 1) * 10) * 10 ^ cs.length :=
          Nat.mul_le_mul_right _ (by have := h.1; omega)
        _ = (n + 1) * 10 ^ (c :: cs).length := by
          rw [List.length_cons, Nat.pow_succ', Nat.mul_assoc]
  simpa [ofDigits] using hfold 0

/-- A number is in range when its decimal text is short enough. -/
theorem inRange_iff_length (n : Int) :
    InRange n ↔ (Nat.toDigits 10 n.natAbs).length ≤ maxDigits := by
  rw [InRange, limit_eq, Nat.length_toDigits_le_iff (by decide) (by decide)]

theorem digitValue_le {c : Char} (h : Piece.isDigit c = true) (hc : c ≠ '_') :
    digitValue c ≤ 9 := by
  have hd : '0' ≤ c ∧ c ≤ '9' := by simpa [Piece.isDigit, hc] using h
  have hn : c.toNat ≤ '9'.toNat := hd.2
  exact Nat.sub_le_sub_right hn '0'.toNat

theorem inRange_numberValue {text : List Char} (hd : ∀ c ∈ text, Piece.isDigit c = true)
    (hn : Piece.isNumber text = true) : InRange (Piece.numberValue text) := by
  have hl : (Piece.withoutUnderscores text).length ≤ maxDigits := by
    simpa [Piece.isNumber] using (Bool.and_eq_true_iff.1 hn).2
  have hv : ∀ c ∈ Piece.withoutUnderscores text, digitValue c ≤ 9 := by
    intro c hc
    obtain ⟨hm, hc⟩ := List.mem_filter.1 hc
    exact digitValue_le (hd c hm) (by simpa using hc)
  rw [InRange, limit_eq, Piece.numberValue, Int.natAbs_natCast]
  exact Nat.lt_of_lt_of_le (ofDigits_lt hv) (Nat.pow_le_pow_right (by decide) hl)

end Number

end LetLang
