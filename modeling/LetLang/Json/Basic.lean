import LetLang.Number.Binary64

namespace LetLang

/-- A value of a data document. Whole numbers are exact and kept apart from the others; the fields
of an object keep their order. -/
inductive Json where
  | null
  | bool (b : Bool)
  | int (n : Int)
  | float (x : Binary64)
  | str (s : String)
  | arr (items : List Json)
  | obj (fields : List (String × Json))
deriving Inhabited

namespace Json

mutual
def same : Json → Json → Bool
  | .null, .null => true
  | .bool a, .bool b => a == b
  | .int a, .int b => a == b
  | .float a, .float b => decide (a = b)
  | .str a, .str b => a == b
  | .arr a, .arr b => sameItems a b
  | .obj a, .obj b => sameFields a b
  | _, _ => false
def sameItems : List Json → List Json → Bool
  | [], [] => true
  | a :: as, b :: bs => same a b && sameItems as bs
  | _, _ => false
def sameFields : List (String × Json) → List (String × Json) → Bool
  | [], [] => true
  | (k, a) :: as, (l, b) :: bs => k == l && same a b && sameFields as bs
  | _, _ => false
end

mutual
theorem same_iff : ∀ a b : Json, same a b = true ↔ a = b
  | .null, b => by cases b <;> simp [same]
  | .bool _, b => by cases b <;> simp [same]
  | .int _, b => by cases b <;> simp [same]
  | .float _, b => by cases b <;> simp [same]
  | .str _, b => by cases b <;> simp [same]
  | .arr as, b => by cases b <;> simp [same, sameItems_iff as]
  | .obj as, b => by cases b <;> simp [same, sameFields_iff as]
theorem sameItems_iff : ∀ as bs : List Json, sameItems as bs = true ↔ as = bs
  | [], bs => by cases bs <;> simp [sameItems]
  | a :: as, bs => by cases bs <;> simp [sameItems, same_iff a, sameItems_iff as]
theorem sameFields_iff : ∀ as bs : List (String × Json), sameFields as bs = true ↔ as = bs
  | [], bs => by cases bs <;> simp [sameFields]
  | (k, a) :: as, bs => by
    cases bs <;> simp [sameFields, same_iff a, sameFields_iff as, Prod.ext_iff]
end

instance : DecidableEq Json := fun a b => decidable_of_iff _ (same_iff a b)

/-- Truth values count as the numbers 0 and 1. -/
def truthNumber (b : Bool) : Int := if b then 1 else 0

/-- What a value without parts stands for: an integer is one and the same in all its spellings,
as a truth value and as a float without a fraction too. -/
def meaning : Json → Json
  | .bool b => .int (truthNumber b)
  | .float x =>
    match x.toInt? with
    | some n => .int n
    | none => .float x
  | j => j

@[simp] theorem meaning_str (s : String) : meaning (.str s) = .str s := rfl

/-- Does the value have no parts? -/
def isScalar : Json → Bool
  | .arr _ | .obj _ => false
  | _ => true

mutual
/-- Agreement is wider than equality: values without parts agree when they stand for the same
thing, and the order of fields does not matter. -/
def agrees : Json → Json → Bool
  | .arr as, b => match b with
    | .arr bs => itemsAgree as bs
    | _ => false
  | .obj as, b => match b with
    | .obj bs => as.length == bs.length && fieldsAgree as bs
    | _ => false
  | a, b => decide (a.meaning = b.meaning)
def itemsAgree : List Json → List Json → Bool
  | [], [] => true
  | a :: as, b :: bs => agrees a b && itemsAgree as bs
  | _, _ => false
def fieldsAgree : List (String × Json) → List (String × Json) → Bool
  | [], _ => true
  | (k, a) :: as, bs =>
    (match bs.lookup k with
      | some b => agrees a b
      | none => false) && fieldsAgree as bs
end

/-- The value of a field, if the object has it. -/
def field? (name : String) (fields : List (String × Json)) : Option Json := fields.lookup name

/-- A field that is there keeps its place and takes the new value; another goes to the end. -/
def setField (name : String) (value : Json) : List (String × Json) → List (String × Json)
  | [] => [(name, value)]
  | (k, v) :: fields =>
    if k = name then (k, value) :: fields else (k, v) :: setField name value fields

end Json

end LetLang
