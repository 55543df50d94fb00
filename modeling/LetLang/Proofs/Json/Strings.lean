import LetLang.Json.Printer
import LetLang.Json.Reader
import LetLang.Proofs.Number.Bounds
import LetLang.Proofs.Text.Span
import Mathlib.Data.List.TakeDrop
import Mathlib.Data.List.TakeWhile

namespace LetLang.Json

theorem isHalf_toNat (c : Char) : isHighHalf c.toNat = false ∧ isLowHalf c.toNat = false := by
  have hv := c.valid
  simp only [UInt32.isValidChar, Nat.isValidChar] at hv
  simp only [isHighHalf, isLowHalf, Bool.and_eq_false_iff, decide_eq_false_iff_not]
  have hn : c.toNat = c.val.toNat := rfl
  omega

/-- No character is a half of a pair. -/
theorem joinPairs_toNat (cs : List Char) : joinPairs (cs.map Char.toNat) = cs := by
  induction cs with
  | nil => rfl
  | cons c cs ih =>
    have hc : charOfPoint c.toNat = c := by
      simp [charOfPoint, isHalf_toNat c]
    cases cs with
    | nil => simp [joinPairs, hc]
    | cons d cs =>
      rw [List.map_cons] at ih
      simp only [List.map_cons, joinPairs, isHalf_toNat c, hc, ih]
      simp

theorem hexDigits_four (n : Nat) : Text.hexDigits 4 n = [Nat.digitChar (n / 16 / 16 / 16 % 16),
    Nat.digitChar (n / 16 / 16 % 16), Nat.digitChar (n / 16 % 16), Nat.digitChar (n % 16)] := rfl

theorem codeUnit?_of_control : ∀ n < 0x20, codeUnit? (Nat.digitChar (n / 16 / 16 / 16 % 16))
    (Nat.digitChar (n / 16 / 16 % 16)) (Nat.digitChar (n / 16 % 16)) (Nat.digitChar (n % 16)) =
      some n := by
  decide

theorem codePoints?_plain {c : Char} (hq : c ≠ '\x22') (hs : c ≠ '\\') (hc : 0x20 ≤ c.toNat)
    (rest : List Char) :
    codePoints? (c :: rest) =
      (codePoints? rest).map fun (points, rest) => (c.toNat :: points, rest) := by
  rw [codePoints?]
  · rw [if_neg (Nat.not_lt.2 hc)]
    cases codePoints? rest <;> rfl
  · exact hq
  · rintro _ _ _ _ _ rfl
    exact absurd rfl hs
  · rintro _ _ rfl
    exact absurd rfl hs

/-- An escape is read back as the character it stands for. -/
theorem codePoints?_escapeChar (c : Char) (rest : List Char) :
    codePoints? (escapeChar c ++ rest) =
      (codePoints? rest).map fun (points, rest) => (c.toNat :: points, rest) := by
  have hescape {e : Char} (h : plainEscape? e = some c) (hu : e ≠ 'u') :
      codePoints? ('\\' :: e :: rest) =
        (codePoints? rest).map fun (points, rest) => (c.toNat :: points, rest) := by
    rw [codePoints?]
    · rw [h]
      cases codePoints? rest <;> rfl
    · rintro _ _ _ _ _ rfl
      exact absurd rfl hu
  -- seven characters have escapes of their own, the other controls numeric ones
  unfold escapeChar
  split
  · subst_vars
    exact hescape rfl (by decide)
  split
  · subst_vars
    exact hescape rfl (by decide)
  split
  · subst_vars
    exact hescape rfl (by decide)
  split
  · subst_vars
    exact hescape rfl (by decide)
  split
  · subst_vars
    exact hescape rfl (by decide)
  split
  · subst_vars
    exact hescape rfl (by decide)
  split
  · subst_vars
    exact hescape rfl (by decide)
  split
  · next h =>
    rw [hexDigits_four]
    simp only [List.cons_append, List.nil_append]
    rw [codePoints?, codeUnit?_of_control _ h]
    cases codePoints? rest <;> rfl
  · next hq hs _ _ _ _ _ hc => exact codePoints?_plain hq hs (Nat.not_lt.1 hc) rest

theorem codePoints?_text (cs rest : List Char) :
    codePoints? (cs.flatMap escapeChar ++ '\x22' :: rest) = some (cs.map Char.toNat, rest) := by
  induction cs with
  | nil => rfl
  | cons c cs ih =>
    rw [List.flatMap_cons, List.append_assoc, codePoints?_escapeChar, ih]
    rfl

theorem readString_text (s : String) (rest : List Char) :
    readString (s.toList.flatMap escapeChar ++ '\x22' :: rest) = .ok (s, rest) := by
  rw [readString, codePoints?_text]
  dsimp only
  rw [joinPairs_toNat, String.ofList_toList]

/-- A number ends where this text begins. -/
def EndsNumber (rest : List Char) : Prop :=
  ∀ c ∈ rest.head?, isDigit c = false ∧ c ≠ '.' ∧ c ≠ 'e' ∧ c ≠ 'E'

theorem isDigit_of_mem_toDigits {n : Nat} {c : Char} (h : c ∈ Nat.toDigits 10 n) :
    isDigit c = true := by
  have hd := Nat.isDigit_of_mem_toDigits (by decide) (by decide) h
  simpa [isDigit, Char.isDigit, Char.le_def] using hd

theorem toDigits_ne_nil (n : Nat) : Nat.toDigits 10 n ≠ [] := by
  by_cases h : n < 10
  · rw [Nat.toDigits_of_lt_base h]
    nofun
  · rw [Nat.toDigits_of_base_le (by decide) (Nat.not_lt.1 h)]
    simp

/-- Only the number zero starts with a zero. -/
theorem head?_toDigits {n : Nat} (hn : 0 < n) : (Nat.toDigits 10 n).head? ≠ some '0' := by
  have hdigit : ∀ n < 10, 0 < n → some (Nat.digitChar n) ≠ some '0' := by decide
  induction n using Nat.strongRecOn with
  | _ n ih =>
    by_cases h : n < 10
    · rw [Nat.toDigits_of_lt_base h]
      exact hdigit n h hn
    · have hle := Nat.not_lt.1 h
      obtain ⟨c, cs, hc⟩ := List.exists_cons_of_ne_nil (toDigits_ne_nil (n / 10))
      have hhead := ih (n / 10) (by omega) (by omega)
      rw [hc] at hhead
      rw [Nat.toDigits_of_base_le (by decide) hle, hc]
      exact hhead

theorem span_digits {ds rest : List Char} (hd : ∀ c ∈ ds, isDigit c = true)
    (hr : EndsNumber rest) : (ds ++ rest).span isDigit = (ds, rest) := by
  obtain ⟨htake, hdrop⟩ := Text.span_of_ends hd fun c hc => (hr c hc).1
  rw [List.span_eq_takeWhile_dropWhile, htake, hdrop]

theorem ofDigits_toDigits (n : Nat) : Number.ofDigits (Nat.toDigits 10 n) = n :=
  Nat.ofDigitChars_toDigits (by decide) (by decide)

theorem wholePart?_toDigits (n : Nat) {rest : List Char} (hr : EndsNumber rest) :
    wholePart? (Nat.toDigits 10 n ++ rest) = some (Nat.toDigits 10 n, rest) := by
  obtain rfl | hn := Nat.eq_zero_or_pos n
  · rfl
  · have hs := @span_digits (Nat.toDigits 10 n) rest (fun _ => isDigit_of_mem_toDigits) hr
    have hhead := head?_toDigits hn
    obtain ⟨c, cs, hc⟩ := List.exists_cons_of_ne_nil (toDigits_ne_nil n)
    rw [hc] at hs hhead ⊢
    rw [wholePart?, hs]
    · rintro rest' heq
      obtain rfl : c = '0' := (List.cons.inj heq).1
      exact hhead rfl

theorem fractionPart_of_ends {rest : List Char} (hr : EndsNumber rest) :
    fractionPart rest = ([], rest) := by
  cases rest with
  | nil => rfl
  | cons c rest =>
    rw [fractionPart]
    rintro _ heq
    exact absurd (List.cons.inj heq).1 (hr c rfl).2.1

theorem exponentPart?_of_ends {rest : List Char} (hr : EndsNumber rest) :
    exponentPart? rest = none := by
  cases rest with
  | nil => rfl
  | cons c rest =>
    obtain ⟨-, -, he, hE⟩ := hr c rfl
    rw [exponentPart?, if_neg (by simp [he, hE])]

/-- A number that has not too many digits is read back as it was written. -/
theorem readNumber_toDigits (negative : Bool) {n : Nat} (hn : Number.InRange n) {rest : List Char}
    (hr : EndsNumber rest) :
    readNumber negative (Nat.toDigits 10 n ++ rest) =
      .ok (.int (if negative then -n else n), rest) := by
  have hl : ¬ (Nat.toDigits 10 n).length > Number.maxDigits :=
    Nat.not_lt.2 ((Number.inRange_iff_length n).1 hn)
  rw [readNumber, wholePart?_toDigits n hr]
  dsimp only
  rw [fractionPart_of_ends hr]
  dsimp only
  rw [exponentPart?_of_ends hr]
  dsimp only
  rw [if_neg hl, ofDigits_toDigits]

end LetLang.Json
