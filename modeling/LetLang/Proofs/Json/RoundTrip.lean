import LetLang.Proofs.Json.Strings

namespace LetLang.Json

mutual
/-- Whole numbers in range, no others, and no two fields of one name. -/
def IsPlain : Json → Prop
  | .float _ => False
  | .int n => Number.InRange n
  | .arr items => ArePlain items
  | .obj fields => (fields.map Prod.fst).Nodup ∧ FieldsPlain fields
  | .null | .bool _ | .str _ => True
def ArePlain : List Json → Prop
  | [] => True
  | item :: items => item.IsPlain ∧ ArePlain items
def FieldsPlain : List (String × Json) → Prop
  | [] => True
  | (_, value) :: fields => value.IsPlain ∧ FieldsPlain fields
end

theorem skipBlanks_newLine (level : Nat) (rest : List Char) :
    skipBlanks (newLine level rest) = skipBlanks rest := by
  have hblank : ∀ c ∈ List.replicate (2 * level) ' ', isBlank c = true := by
    intro c hc
    rw [List.eq_of_mem_replicate hc]
    rfl
  rw [newLine, skipBlanks, List.dropWhile_cons_of_pos rfl, List.dropWhile_append_of_pos hblank]
  rfl

theorem skipBlanks_cons {c : Char} (h : isBlank c = false) (rest : List Char) :
    skipBlanks (c :: rest) = c :: rest := by
  rw [skipBlanks, List.dropWhile_cons_of_neg (by simp [h])]

/-- A value may start with the character. -/
structure IsOpener (c : Char) : Prop where
  blank : isBlank c = false
  bracket : c ≠ ']'
  brace : c ≠ '\x7d'

theorem ne_of_isDigit {c d : Char} (hc : isDigit c = true) (hd : isDigit d = false) : c ≠ d := by
  rintro rfl
  rw [hc] at hd
  cases hd

theorem isOpener_of_isDigit {c : Char} (h : isDigit c = true) : IsOpener c := by
  have hne := fun d => @ne_of_isDigit c d h
  refine ⟨?_, hne _ rfl, hne _ rfl⟩
  simp [isBlank, hne ' ' rfl, hne '\t' rfl, hne '\n' rfl, hne '\r' rfl]

theorem toList_toString (n : Int) :
    (toString n).toList =
      if n < 0 then '-' :: Nat.toDigits 10 n.natAbs else Nat.toDigits 10 n.natAbs := by
  cases n with
  | ofNat m =>
    show (Nat.repr m).toList = _
    rw [if_neg (by simp), Nat.repr, String.toList_ofList]
    rfl
  | negSucc m =>
    show ("-" ++ String.ofList (Nat.toDigits 10 (m + 1))).toList = _
    rw [if_pos (Int.negSucc_lt_zero m), String.toList_append,
      @String.toList_ofList (Nat.toDigits 10 (m + 1))]
    rfl

theorem exists_opener {j : Json} (hj : j.IsPlain) (level : Nat) (rest : List Char) :
    ∃ c cs, writeIndented level j rest = c :: cs ∧ IsOpener c := by
  cases j with
  | null => exact ⟨_, _, rfl, by constructor <;> decide⟩
  | bool b => cases b <;> exact ⟨_, _, rfl, by constructor <;> decide⟩
  | str s => exact ⟨_, _, rfl, by constructor <;> decide⟩
  | float x => exact hj.elim
  | arr items => cases items <;> exact ⟨_, _, rfl, by constructor <;> decide⟩
  | obj fields => cases fields <;> exact ⟨_, _, rfl, by constructor <;> decide⟩
  | int n =>
    have hw : writeIndented level (.int n) rest = (toString n).toList ++ rest := rfl
    rw [hw, toList_toString]
    split
    · exact ⟨_, _, rfl, by constructor <;> decide⟩
    · obtain ⟨c, cs, hc⟩ := List.exists_cons_of_ne_nil (toDigits_ne_nil n.natAbs)
      refine ⟨c, cs ++ rest, by rw [hc, List.cons_append], ?_⟩
      exact isOpener_of_isDigit (isDigit_of_mem_toDigits (hc ▸ List.mem_cons_self))

theorem namedValues_eq : namedValues = [(['n', 'u', 'l', 'l'], .null),
    (['t', 'r', 'u', 'e'], .bool true), (['f', 'a', 'l', 's', 'e'], .bool false),
    (['N', 'a', 'N'], .float .nan),
    (['I', 'n', 'f', 'i', 'n', 'i', 't', 'y'], .float (.infinity false)),
    (['-', 'I', 'n', 'f', 'i', 'n', 'i', 't', 'y'], .float (.infinity true))] := rfl

theorem readNamed?_eq_none {c : Char} (h : c ∉ ['n', 't', 'f', 'N', 'I', '-']) (cs : List Char) :
    readNamed? (c :: cs) = none := by
  simp only [List.mem_cons, List.not_mem_nil, or_false, not_or] at h
  rw [readNamed?, namedValues_eq]
  simp [Ne.symm h.1, Ne.symm h.2.1, Ne.symm h.2.2.1, Ne.symm h.2.2.2.1, Ne.symm h.2.2.2.2.1,
    Ne.symm h.2.2.2.2.2]

theorem readNamed?_minus {c : Char} (h : c ≠ 'I') (cs : List Char) :
    readNamed? ('-' :: c :: cs) = none := by
  rw [readNamed?, namedValues_eq]
  simp [h.symm]

theorem readValue_number {n : Int} (hn : Number.InRange n) {rest : List Char}
    (hr : EndsNumber rest) (bound : Nat) :
    readValue (bound + 1) ((toString n).toList ++ rest) = .ok (.int n, rest) := by
  obtain ⟨c, cs, hc⟩ := List.exists_cons_of_ne_nil (toDigits_ne_nil n.natAbs)
  have hd : isDigit c = true := isDigit_of_mem_toDigits (hc ▸ List.mem_cons_self)
  have hne := fun d => @ne_of_isDigit c d hd
  have hin : Number.InRange (n.natAbs : Int) := hn
  rw [toList_toString]
  split
  · next hneg =>
    have hread := readNumber_toDigits true hin hr
    rw [hc] at hread ⊢
    simp only [List.cons_append] at hread ⊢
    -- a minus also begins the name of an infinity
    rw [readValue, readNamed?_minus (hne 'I' rfl)]
    simp only [hread, if_true]
    rw [show -(n.natAbs : Int) = n by omega]
  · next hpos =>
    have hread := readNumber_toDigits false hin hr
    have hnone : c ∉ ['n', 't', 'f', 'N', 'I', '-'] := by
      simp [hne 'n' rfl, hne 't' rfl, hne 'f' rfl, hne 'N' rfl, hne 'I' rfl, hne '-' rfl]
    rw [hc] at hread ⊢
    simp only [List.cons_append] at hread ⊢
    rw [readValue, readNamed?_eq_none hnone]
    · simp only [hread, Bool.false_eq_true, if_false]
      rw [show (n.natAbs : Int) = n by omega]
    all_goals
      rintro _ heq
      exact hne _ rfl (List.cons.inj heq).1

theorem readValue_string (s : String) (rest : List Char) (bound : Nat) :
    readValue (bound + 1) (writeString s rest) = .ok (.str s, rest) := by
  rw [writeString, readValue, readNamed?_eq_none (by decide)]
  dsimp only
  rw [readString_text]
  rfl

mutual
/-- Enough calls to read the value back. -/
def calls : Json → Nat
  | .arr items => 1 + itemCalls items
  | .obj fields => 1 + fieldCalls fields
  | _ => 1
def itemCalls : List Json → Nat
  | [] => 0
  | item :: items => 1 + item.calls + itemCalls items
def fieldCalls : List (String × Json) → Nat
  | [] => 0
  | (_, value) :: fields => 1 + value.calls + fieldCalls fields
end

@[simp] theorem length_newLine (level : Nat) (rest : List Char) :
    (newLine level rest).length = 2 * level + rest.length + 1 := by
  simp [newLine]

theorem length_writeString (s : String) (rest : List Char) :
    rest.length + 2 ≤ (writeString s rest).length := by
  simp [writeString]

mutual
/-- No character of the text of a value takes more than two calls. -/
theorem calls_le (level : Nat) :
    ∀ (j : Json) (rest : List Char), j.IsPlain →
      j.calls + 2 * rest.length ≤ 2 * (writeIndented level j rest).length
  -- On the value and its items at once; what follows it only adds to both sides.
  | .null, rest, _ | .bool true, rest, _ | .bool false, rest, _ => by
    simp [calls, writeIndented, writeScalar, writeText]
    omega
  | .int n, rest, _ => by
    obtain ⟨c, cs, h, -⟩ := exists_opener (j := .int n) ‹_› level []
    have := congrArg List.length h
    simp [calls, writeIndented, writeScalar, writeText] at this ⊢
    omega
  | .str s, rest, _ => by
    have := length_writeString s rest
    simp [calls, writeIndented, writeScalar]
    omega
  | .arr [], rest, _ | .obj [], rest, _ => by
    simp [calls, itemCalls, fieldCalls, writeIndented]
    omega
  | .arr (item :: items), rest, h => by
    have h1 := calls_le (level + 1) item (writeMoreItems (level + 1) items
      (newLine level (']' :: rest))) h.1
    have h2 := itemCalls_le (level + 1) items (newLine level (']' :: rest)) h.2
    simp [calls, itemCalls, writeIndented] at h1 h2 ⊢
    omega
  | .obj ((name, value) :: fields), rest, h => by
    have h0 := length_writeString name (':' :: ' ' :: writeIndented (level + 1) value
      (writeMoreFields (level + 1) fields (newLine level ('\x7d' :: rest))))
    have h1 := calls_le (level + 1) value (writeMoreFields (level + 1) fields
      (newLine level ('\x7d' :: rest))) h.2.1
    have h2 := fieldCalls_le (level + 1) fields (newLine level ('\x7d' :: rest)) h.2.2
    simp [calls, fieldCalls, writeIndented] at h0 h1 h2 ⊢
    omega
theorem itemCalls_le (level : Nat) :
    ∀ (items : List Json) (rest : List Char), ArePlain items →
      itemCalls items + 2 * rest.length ≤ 2 * (writeMoreItems level items rest).length
  | [], rest, _ => by simp [itemCalls, writeMoreItems]
  | item :: items, rest, h => by
    have h1 := calls_le level item (writeMoreItems level items rest) h.1
    have h2 := itemCalls_le level items rest h.2
    simp [itemCalls, writeMoreItems]
    omega
theorem fieldCalls_le (level : Nat) :
    ∀ (fields : List (String × Json)) (rest : List Char), FieldsPlain fields →
      fieldCalls fields + 2 * rest.length ≤ 2 * (writeMoreFields level fields rest).length
  | [], rest, _ => by simp [fieldCalls, writeMoreFields]
  | (name, value) :: fields, rest, h => by
    have h0 := length_writeString name
      (':' :: ' ' :: writeIndented level value (writeMoreFields level fields rest))
    have h1 := calls_le level value (writeMoreFields level fields rest) h.1
    have h2 := fieldCalls_le level fields rest h.2
    simp [fieldCalls, writeMoreFields] at h0 ⊢
    omega
end

/-- The value is read back from its text, whatever stands behind it. -/
def ReadsBack (level : Nat) (j : Json) : Prop :=
  ∀ (rest : List Char) (bound : Nat), EndsNumber rest → j.calls ≤ bound →
    readValue bound (writeIndented level j rest) = .ok (j, rest)

theorem endsNumber_newLine (level : Nat) (rest : List Char) : EndsNumber (newLine level rest) := by
  rintro c hc
  cases hc
  decide

theorem endsNumber_writeMoreItems (level : Nat) (items : List Json) {rest : List Char}
    (hr : EndsNumber rest) : EndsNumber (writeMoreItems level items rest) := by
  cases items with
  | nil => exact hr
  | cons item items =>
    rintro c hc
    cases hc
    decide

theorem endsNumber_writeMoreFields (level : Nat) (fields : List (String × Json))
    {rest : List Char} (hr : EndsNumber rest) :
    EndsNumber (writeMoreFields level fields rest) := by
  cases fields with
  | nil => exact hr
  | cons field fields =>
    rintro c hc
    cases hc
    decide

theorem skipBlanks_writeIndented {j : Json} (h : j.IsPlain) (level : Nat) (rest : List Char) :
    skipBlanks (writeIndented level j rest) = writeIndented level j rest := by
  obtain ⟨c, cs, hc, ho⟩ := exists_opener h level rest
  rw [hc, skipBlanks_cons ho.blank]

theorem readValue_openArray {item : Json} (h : item.IsPlain) (level : Nat) (rest : List Char)
    (bound : Nat) :
    readValue (bound + 1) ('[' :: newLine level (writeIndented level item rest)) =
      (readItems bound (writeIndented level item rest)).map
        fun (items, rest) => (.arr items, rest) := by
  obtain ⟨c, cs, hc, ho⟩ := exists_opener h level rest
  rw [readValue, readNamed?_eq_none (by decide)]
  simp only [skipBlanks_newLine]
  rw [hc, skipBlanks_cons ho.blank]
  split
  · next heq => exact absurd (List.cons.inj heq).1 ho.bracket
  · rfl

theorem readValue_openObject (name : String) (level : Nat) (rest : List Char) (bound : Nat) :
    readValue (bound + 1) ('\x7b' :: newLine level (writeString name rest)) =
      (readFields bound [] (writeString name rest)).map
        fun (fields, rest) => (.obj fields, rest) := by
  rw [readValue, readNamed?_eq_none (by decide)]
  simp only [skipBlanks_newLine, writeString]
  rw [skipBlanks_cons rfl]
  rfl

theorem setField_eq_append {name : String} (value : Json) {fields : List (String × Json)}
    (h : name ∉ fields.map Prod.fst) : setField name value fields = fields ++ [(name, value)] := by
  induction fields with
  | nil => rfl
  | cons field fields ih =>
    obtain ⟨hne, htail⟩ := not_or.1 (mt List.mem_cons.2 h)
    rw [setField, if_neg (Ne.symm hne), ih htail, List.cons_append]

-- By induction on the value. Items and fields take the fact about their first value as a hypothesis,
-- since it is no part of the list that the induction goes down.
mutual
theorem readsBack (level : Nat) : ∀ j : Json, j.IsPlain → ReadsBack level j
  | .null, _, rest, bound + 1, _, _ => by
    simp [readValue, readNamed?, namedValues_eq, writeIndented, writeScalar, writeText]
  | .bool true, _, rest, bound + 1, _, _ => by
    simp [readValue, readNamed?, namedValues_eq, writeIndented, writeScalar, writeText]
  | .bool false, _, rest, bound + 1, _, _ => by
    simp [readValue, readNamed?, namedValues_eq, writeIndented, writeScalar, writeText]
  | .int n, h, rest, bound + 1, hr, _ => readValue_number h hr bound
  | .str s, _, rest, bound + 1, _, _ => readValue_string s rest bound
  | .arr [], _, rest, bound + 1, _, _ => by
    simp [writeIndented, readValue, readNamed?_eq_none, skipBlanks, isBlank]
  | .obj [], _, rest, bound + 1, _, _ => by
    simp [writeIndented, readValue, readNamed?_eq_none, skipBlanks, isBlank]
  | .arr (item :: items), h, rest, bound + 1, _, hb => by
    rw [calls] at hb
    have hread := readItems_text (level + 1) level items h.2 item (readsBack (level + 1) item h.1)
      rest bound (by omega)
    rw [writeIndented, readValue_openArray h.1, hread]
    rfl
  | .obj ((name, value) :: fields), h, rest, bound + 1, _, hb => by
    rw [calls] at hb
    have hread := readFields_text (level + 1) level fields h.2.2 [] name value
      h.2.1
      (readsBack (level + 1) value h.2.1) h.1 rest bound (by omega)
    rw [writeIndented, readValue_openObject, hread]
    rfl
  | .arr (_ :: _), _, _, 0, _, hb | .obj (_ :: _), _, _, 0, _, hb => by simp [calls] at hb
theorem readItems_text (level outer : Nat) :
    ∀ items : List Json, ArePlain items → ∀ item : Json, ReadsBack level item →
      ∀ (rest : List Char) (bound : Nat), itemCalls (item :: items) ≤ bound →
        readItems bound (writeIndented level item
          (writeMoreItems level items (newLine outer (']' :: rest)))) = .ok (item :: items, rest)
  | items, h, item, hitem, rest, bound + 1, hb => by
    rw [itemCalls] at hb
    have hends := endsNumber_writeMoreItems level items (endsNumber_newLine outer (']' :: rest))
    rw [readItems, hitem _ bound hends (by omega)]
    match items, h with
    | [], _ =>
      simp only [bind, Except.bind, writeMoreItems, skipBlanks_newLine]
      rw [skipBlanks_cons rfl]
      rfl
    | next :: items, h =>
      have hread := readItems_text level outer items h.2 next (readsBack level next h.1) rest bound
        (by omega)
      simp only [bind, Except.bind, writeMoreItems]
      rw [skipBlanks_cons rfl]
      simp only [skipBlanks_newLine]
      rw [skipBlanks_writeIndented h.1, hread]
      rfl
  | _, _, _, _, _, 0, hb => by simp [itemCalls] at hb
theorem readFields_text (level outer : Nat) :
    ∀ fields : List (String × Json), FieldsPlain fields →
      ∀ (before : List (String × Json)) (name : String) (value : Json), value.IsPlain →
      ReadsBack level value → ((before ++ (name, value) :: fields).map Prod.fst).Nodup →
      ∀ (rest : List Char) (bound : Nat), fieldCalls ((name, value) :: fields) ≤ bound →
        readFields bound before (writeString name (':' :: ' ' :: writeIndented level value
          (writeMoreFields level fields (newLine outer ('\x7d' :: rest))))) =
            .ok (before ++ (name, value) :: fields, rest)
  | fields, h, before, name, value, hvalue, hreads, hnodup, rest, bound + 1, hb => by
    rw [fieldCalls] at hb
    have hends := endsNumber_writeMoreFields level fields
      (endsNumber_newLine outer ('\x7d' :: rest))
    have hblank (cs : List Char) : skipBlanks (' ' :: cs) = skipBlanks cs := rfl
    have hnew : name ∉ before.map Prod.fst := by
      rw [List.map_append, List.map_cons] at hnodup
      intro hmem
      exact (List.nodup_append.1 hnodup).2.2 _ hmem _ List.mem_cons_self rfl
    -- a name that is not there yet keeps its place at the end, so nothing before it changes
    rw [writeString, readFields]
    simp only [readString_text, bind, Except.bind]
    rw [skipBlanks_cons rfl]
    simp only [hblank, skipBlanks_writeIndented hvalue, hreads _ bound hends (by omega),
      setField_eq_append value hnew]
    match fields, h with
    | [], _ =>
      simp only [writeMoreFields, skipBlanks_newLine]
      rw [skipBlanks_cons rfl]
      rfl
    | (next, nextValue) :: fields, h =>
      -- the field that was read joins those before the next one
      have hread := readFields_text level outer fields h.2 (before ++ [(name, value)]) next
        nextValue h.1 (readsBack level nextValue h.1)
        (by rwa [List.append_assoc, List.cons_append, List.nil_append]) rest bound (by omega)
      simp only [writeMoreFields]
      rw [skipBlanks_cons rfl]
      simp only [skipBlanks_newLine]
      rw [List.append_assoc, List.cons_append, List.nil_append] at hread
      rw [← hread, writeString, skipBlanks_cons rfl]
  | _, _, _, _, _, _, _, _, _, 0, hb => by simp [fieldCalls] at hb
end

/-- A document is read back as it was, unless it holds a number that is not whole, one with too many
digits, or two fields of one name. -/
theorem read_indented {j : Json} (h : j.IsPlain) : read j.indented.toList = .ok j := by
  have hends : EndsNumber [] := by nofun
  have hlength := calls_le 0 j [] h
  rw [indented, String.toList_ofList, read, skipBlanks_writeIndented h,
    readsBack 0 j h [] _ hends (by simp at hlength; omega)]
  rfl

theorem return_not_mem_escapeChar (c : Char) : '\r' ∉ escapeChar c := by
  have hhex : ∀ n < 0x20, '\r' ∉ Text.hexDigits 4 n := by decide
  unfold escapeChar
  split_ifs with hq hs hn hr ht hb hf hc
  any_goals decide
  · simp [hhex _ hc]
  · simp [Ne.symm hr]

theorem return_not_mem_writeString (s : String) {rest : List Char} (hr : '\r' ∉ rest) :
    '\r' ∉ writeString s rest := by
  simp [writeString, hr, return_not_mem_escapeChar]

theorem return_not_mem_newLine (level : Nat) {rest : List Char} (hr : '\r' ∉ rest) :
    '\r' ∉ newLine level rest := by
  simp [newLine, hr]

theorem return_not_mem_toString (n : Int) : '\r' ∉ (toString n).toList := by
  have hdigits : '\r' ∉ Nat.toDigits 10 n.natAbs := by
    intro h
    cases isDigit_of_mem_toDigits h
  rw [toList_toString]
  split
  · simpa using hdigits
  · exact hdigits

mutual
theorem return_not_mem_writeIndented (level : Nat) :
    ∀ (j : Json) (rest : List Char), j.IsPlain → '\r' ∉ rest → '\r' ∉ writeIndented level j rest
  | .null, _, _, hr | .bool true, _, _, hr | .bool false, _, _, hr
  | .arr [], _, _, hr | .obj [], _, _, hr => by
    simp [writeIndented, writeScalar, writeText, hr]
  | .int n, rest, _, hr => List.not_mem_append (return_not_mem_toString n) hr
  | .str s, _, _, hr => return_not_mem_writeString s hr
  | .arr (item :: items), rest, h, hr => by
    rw [writeIndented]
    have hclose := @return_not_mem_newLine level (']' :: rest) (by simpa using hr)
    have hitems := return_not_mem_writeMoreItems (level + 1) items _ h.2 hclose
    have hitem := return_not_mem_writeIndented (level + 1) item _ h.1 hitems
    simpa using return_not_mem_newLine (level + 1) hitem
  | .obj ((name, value) :: fields), rest, h, hr => by
    rw [writeIndented]
    have hclose := @return_not_mem_newLine level ('\x7d' :: rest) (by simpa using hr)
    have hfields := return_not_mem_writeMoreFields (level + 1) fields _ h.2.2 hclose
    have hvalue := return_not_mem_writeIndented (level + 1) value _ h.2.1 hfields
    simpa using return_not_mem_newLine (level + 1)
      (return_not_mem_writeString name (by simpa using hvalue))
theorem return_not_mem_writeMoreItems (level : Nat) :
    ∀ (items : List Json) (rest : List Char), ArePlain items → '\r' ∉ rest →
      '\r' ∉ writeMoreItems level items rest
  | [], _, _, hr => hr
  | item :: items, rest, h, hr => by
    rw [writeMoreItems]
    have hitems := return_not_mem_writeMoreItems level items rest h.2 hr
    have hitem := return_not_mem_writeIndented level item _ h.1 hitems
    simpa using return_not_mem_newLine level hitem
theorem return_not_mem_writeMoreFields (level : Nat) :
    ∀ (fields : List (String × Json)) (rest : List Char), FieldsPlain fields → '\r' ∉ rest →
      '\r' ∉ writeMoreFields level fields rest
  | [], _, _, hr => hr
  | (name, value) :: fields, rest, h, hr => by
    rw [writeMoreFields]
    have hfields := return_not_mem_writeMoreFields level fields rest h.2 hr
    have hvalue := return_not_mem_writeIndented level value _ h.1 hfields
    simpa using return_not_mem_newLine level
      (return_not_mem_writeString name (by simpa using hvalue))
end

theorem return_not_mem_indented {j : Json} (h : j.IsPlain) : '\r' ∉ j.indented.toList := by
  rw [indented, String.toList_ofList]
  exact return_not_mem_writeIndented 0 j [] h List.not_mem_nil

end LetLang.Json
