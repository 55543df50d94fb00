import Mathlib.Data.List.TakeWhile

namespace LetLang.Text

variable {p : Char → Bool}

/-- A run of characters ends before the seam, or the first character behind it ends the run. -/
theorem span_append {cs ds : List Char}
    (h : cs.dropWhile p ≠ [] ∨ ∀ d ∈ ds.head?, p d = false) :
    (cs ++ ds).takeWhile p = cs.takeWhile p ∧ (cs ++ ds).dropWhile p = cs.dropWhile p ++ ds := by
  induction cs with
  | nil =>
    cases ds with
    | nil => exact ⟨rfl, rfl⟩
    | cons d ds =>
      have hd : p d = false := by simpa using h
      simp [hd]
  | cons c cs ih =>
    cases hc : p c with
    | false => simp [hc]
    | true =>
      rw [List.dropWhile_cons_of_pos hc] at h
      simpa [hc] using ih h

/-- A run of characters that what follows does not go on with. -/
theorem span_of_ends {text rest : List Char} (h : ∀ c ∈ text, p c = true)
    (ends : ∀ d ∈ rest.head?, p d = false) :
    (text ++ rest).takeWhile p = text ∧ (text ++ rest).dropWhile p = rest := by
  obtain ⟨ht, hr⟩ := @span_append p text rest (.inr ends)
  rw [ht, hr, List.takeWhile_eq_self_iff.2 h, List.dropWhile_eq_nil_iff.2 h]
  exact ⟨rfl, rfl⟩

theorem not_head_dropWhile (p : Char → Bool) (cs : List Char) :
    ∀ d ∈ (cs.dropWhile p).head?, p d = false := by
  intro d hd
  have h := List.head?_dropWhile_not p cs
  rw [Option.mem_def.1 hd] at h
  simpa using h

end LetLang.Text
