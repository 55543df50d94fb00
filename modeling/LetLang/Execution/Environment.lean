import LetLang.Value

namespace LetLang

/-- The variables of a session: one flat scope. A name is the lexeme of the token that names it, and
two names are the same when they mean the same. -/
structure Environment where
  bindings : List (Json × Value)
deriving DecidableEq, Inhabited

namespace Environment

def empty : Environment := ⟨[]⟩

def valueIn (name : Json) : List (Json × Value) → Option Value
  | [] => none
  | (n, v) :: bindings => if n.meaning = name.meaning then some v else valueIn name bindings

def get? (env : Environment) (name : Json) : Option Value := valueIn name env.bindings

def contains (env : Environment) (name : Json) : Bool := (env.get? name).isSome

/-- A name that is there keeps its place and its spelling. -/
def setIn (name : Json) (value : Value) : List (Json × Value) → List (Json × Value)
  | [] => [(name, value)]
  | (n, v) :: bindings =>
    if n.meaning = name.meaning then (n, value) :: bindings
    else (n, v) :: setIn name value bindings

/-- Gives a name a value, whether or not it had one. -/
def define (env : Environment) (name : Json) (value : Value) : Environment :=
  ⟨setIn name value env.bindings⟩

/-- Gives a new value to a name that has one; nothing otherwise. -/
def assign? (env : Environment) (name : Json) (value : Value) : Option Environment :=
  if env.contains name then some (env.define name value) else none

theorem valueIn_setIn (name other : Json) (value : Value) (bindings : List (Json × Value)) :
    valueIn other (setIn name value bindings) =
      if other.meaning = name.meaning then some value else valueIn other bindings := by
  induction bindings with
  | nil => simp only [setIn, valueIn, eq_comm]
  | cons binding bindings ih =>
    obtain ⟨n, v⟩ := binding
    by_cases hn : n.meaning = name.meaning
    · by_cases ho : other.meaning = name.meaning
      · simp [setIn, valueIn, hn, ho]
      · simp [setIn, valueIn, hn, ho, Ne.symm ho]
    · by_cases ho : n.meaning = other.meaning
      · simp [setIn, valueIn, ho, ho ▸ hn]
      · simp [setIn, valueIn, hn, ho, ih]

/-- A definition changes what is read under its name and nothing else. -/
theorem get?_define (env : Environment) (name other : Json) (value : Value) :
    (env.define name value).get? other =
      if other.meaning = name.meaning then some value else env.get? other :=
  valueIn_setIn name other value env.bindings

end Environment

end LetLang
