import LetLang.CommandLine.Respond
import Mathlib.Data.List.TakeWhile

namespace LetLang.CommandLine

/-- What stands between two slashes and leads on. -/
structure IsStep (part : List Char) : Prop where
  noSlash : '/' ∉ part
  leads : (part.isEmpty || part == ['.']) = false

theorem pathParts_eq (cs : List Char) : pathParts cs = cs.splitOn '/' := by
  induction cs with
  | nil => rfl
  | cons c cs ih =>
    rw [pathParts, ih, List.splitOn_cons_eq_if_modifyHead]
    by_cases h : c = '/'
    · simp [h]
    · obtain ⟨part, parts, hs⟩ := List.exists_cons_of_ne_nil (List.splitOn_ne_nil '/' cs)
      simp [h, hs]

theorem noSlash_of_mem_pathParts {cs part : List Char} (h : part ∈ pathParts cs) : '/' ∉ part := by
  induction cs generalizing part with
  | nil =>
    rw [pathParts, List.mem_singleton] at h
    simp [h]
  | cons c cs ih =>
    rw [pathParts] at h
    split at h
    · obtain rfl | h := List.mem_cons.1 h
      · exact List.not_mem_nil
      · exact ih h
    · next hc =>
      split at h
      · next first parts heq =>
        rw [heq] at ih
        obtain rfl | h := List.mem_cons.1 h
        · simpa [Ne.symm hc] using ih List.mem_cons_self
        · exact ih (List.mem_cons_of_mem _ h)
      · simpa [List.mem_singleton.1 h] using Ne.symm hc

/-- The steps of a text, as they stand in it. -/
def stepParts (cs : List Char) : List (List Char) :=
  (pathParts cs).filter fun part => !(part.isEmpty || part == ['.'])

theorem isStep_of_mem {cs part : List Char} (h : part ∈ stepParts cs) : IsStep part := by
  obtain ⟨hm, hk⟩ := List.mem_filter.1 h
  exact ⟨noSlash_of_mem_pathParts hm, by simpa using hk⟩

/-- A root and steps after it. -/
def joined (root : String) (parts : List (List Char)) : List Char :=
  root.toList ++ ['/'].intercalate parts

theorem normalPath_eq (path : String) :
    normalPath path =
      if joined (pathRoot path.toList) (stepParts path.toList) = [] then "."
      else String.ofList (joined (pathRoot path.toList) (stepParts path.toList)) := by
  have ht : pathRoot path.toList ++ "/".intercalate (pathSteps path.toList) =
      String.ofList (joined (pathRoot path.toList) (stepParts path.toList)) := by
    rw [← String.toList_inj, String.toList_append, String.toList_intercalate, String.toList_ofList,
      pathSteps, List.map_map]
    simp [joined, stepParts, Function.comp_def]
  rw [normalPath, ht]
  simp only [String.ofList_eq_empty_iff]

theorem pathRoot_mem (cs : List Char) : pathRoot cs ∈ ["", "/", "//"] := by
  unfold pathRoot
  split <;> simp

section
variable {root : String} {parts : List (List Char)} (hr : root ∈ ["", "/", "//"])
  (hp : ∀ part ∈ parts, IsStep part) (hn : parts ≠ [])
include hr hp hn

theorem stepParts_joined : stepParts (joined root parts) = parts := by
  have hsplit : pathParts (['/'].intercalate parts) = parts := by
    rw [pathParts_eq]
    exact List.splitOn_intercalate '/' (fun part hm => (hp part hm).noSlash) hn
  have hkeep : stepParts (['/'].intercalate parts) = parts := by
    rw [stepParts, hsplit, List.filter_eq_self]
    intro part hm
    simpa using (hp part hm).leads
  simp only [List.mem_cons, List.not_mem_nil, or_false] at hr
  obtain rfl | rfl | rfl := hr
  · exact hkeep
  · simpa [stepParts, joined, pathParts] using hkeep
  · simpa [stepParts, joined, pathParts] using hkeep

omit hr in
theorem exists_cons_of_steps : ∃ c cs, ['/'].intercalate parts = c :: cs ∧ c ≠ '/' := by
  obtain ⟨part, parts, rfl⟩ := List.exists_cons_of_ne_nil hn
  obtain ⟨hslash, hleads⟩ := hp part List.mem_cons_self
  cases part with
  | nil => cases hleads
  | cons c cs =>
    have hc : c ≠ '/' := fun h => hslash (h ▸ List.mem_cons_self)
    cases parts with
    | nil => exact ⟨c, cs, List.intercalate_singleton, hc⟩
    | cons next parts => exact ⟨c, _, List.intercalate_cons_cons, hc⟩

theorem pathRoot_joined : pathRoot (joined root parts) = root := by
  -- the first step does not begin with a slash, so the slashes before it are the root's
  obtain ⟨c, cs, hj, hc⟩ := exists_cons_of_steps hp hn
  simp only [List.mem_cons, List.not_mem_nil, or_false] at hr
  rw [joined, hj]
  obtain rfl | rfl | rfl := hr <;> simp [pathRoot, hc]

theorem normalPath_joined :
    normalPath (String.ofList (joined root parts)) = String.ofList (joined root parts) := by
  obtain ⟨c, cs, hj, -⟩ := exists_cons_of_steps hp hn
  have hne : joined root parts ≠ [] := by simp [joined, hj]
  rw [normalPath_eq, String.toList_ofList, pathRoot_joined hr hp hn, stepParts_joined hr hp hn,
    if_neg hne]

end

/-- A path that leads below some directory has steps. -/
theorem exists_joined {path : String} (h : (stepsDown (normalPath path)).isEmpty = false) :
    ∃ root parts, root ∈ ["", "/", "//"] ∧ (∀ part ∈ parts, IsStep part) ∧ parts ≠ [] ∧
      normalPath path = String.ofList (joined root parts) := by
  have hr := pathRoot_mem path.toList
  by_cases hn : stepParts path.toList = []
  · rw [normalPath_eq, hn] at h
    simp only [List.mem_cons, List.not_mem_nil, or_false] at hr
    obtain hr | hr | hr := hr <;> rw [hr] at h <;> cases h
  · obtain ⟨c, cs, hj, -⟩ := exists_cons_of_steps (fun _ => isStep_of_mem) hn
    refine ⟨_, _, hr, fun _ => isStep_of_mem, hn, ?_⟩
    rw [normalPath_eq, if_neg (by simp [joined, hj])]

theorem intercalate_append_last (start : List (List Char)) (last more : List Char) :
    ['/'].intercalate (start ++ [last ++ more]) = ['/'].intercalate (start ++ [last]) ++ more := by
  induction start with
  | nil => simp
  | cons part start ih =>
    rw [List.cons_append, List.cons_append, List.intercalate_cons_of_ne_nil (by simp),
      List.intercalate_cons_of_ne_nil (by simp), ih]
    simp

theorem emittedPath_joined (root : String) (start : List (List Char)) (last : List Char) :
    emittedPath (String.ofList (joined root (start ++ [last]))) =
      String.ofList (joined root (start ++ [last ++ ".ast.json".toList])) := by
  rw [← String.toList_inj, emittedPath]
  simp only [joined, intercalate_append_last, String.toList_append, String.toList_ofList,
    List.append_assoc]

/-- The name of a document is longer than the steps that lead nowhere. -/
theorem emittedName_ne (last : List Char) {part : List Char} (h : part.length ≤ 2) :
    last ++ ".ast.json".toList ≠ part := by
  rintro rfl
  simp at h

/-- The path of an emitted document has its steps only, so it leads to where the document was
written. -/
theorem normalPath_emittedPath {path : String}
    (h : (stepsDown (normalPath path)).isEmpty = false) :
    normalPath (emittedPath (normalPath path)) = emittedPath (normalPath path) ∧
      (stepsDown (emittedPath (normalPath path))).isEmpty = false := by
  obtain ⟨root, parts, hr, hp, hn, hpath⟩ := exists_joined h
  obtain ⟨start, last, rfl⟩ : ∃ start last, parts = start ++ [last] :=
    ⟨_, _, (List.dropLast_concat_getLast hn).symm⟩
  obtain ⟨hstart, hlast⟩ := List.forall_mem_append.1 hp
  have hslash := (hlast last (List.mem_singleton_self last)).noSlash
  have hstep : IsStep (last ++ ".ast.json".toList) := by
    refine ⟨by simpa using hslash, ?_⟩
    simpa using @emittedName_ne last ['.'] (by decide)
  have hp' : ∀ part ∈ start ++ [last ++ ".ast.json".toList], IsStep part :=
    List.forall_mem_append.2 ⟨hstart, List.forall_mem_singleton.2 hstep⟩
  rw [hpath, emittedPath_joined]
  refine ⟨normalPath_joined hr hp' (by simp), ?_⟩
  -- the last step is not one that leads up, so the path leads below some directory
  have hsteps : pathSteps (joined root (start ++ [last ++ ".ast.json".toList])) =
      (start ++ [last ++ ".ast.json".toList]).map String.ofList :=
    congrArg (List.map String.ofList) (stepParts_joined hr hp' (by simp))
  rw [stepsDown, String.toList_ofList, hsteps, List.isEmpty_eq_false_iff, Ne,
    List.dropWhile_eq_nil_iff]
  intro hall
  have hup : String.ofList (last ++ ".ast.json".toList) = ".." := by
    simpa using hall (String.ofList (last ++ ".ast.json".toList)) (by simp)
  rw [← String.toList_inj, String.toList_ofList] at hup
  exact @emittedName_ne last "..".toList (by decide) hup

end LetLang.CommandLine
