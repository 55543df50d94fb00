import LetLang.Node.Basic
import LetLang.Diagnostic

namespace LetLang.Parser

/-- What the parser has to say, with the tokens that lay ahead of it. -/
structure Complaint where
  ahead : List Token
  error : SyntaxError
deriving DecidableEq

/-- What was built, the tokens that were left, and the complaints in order. A parser that builds
nothing has failed, and the rest shows where. -/
structure Outcome (α : Type) where
  result : Option α
  rest : List Token
  complaints : List Complaint

/-- A parser over the tokens before the end of input. -/
def Parse (α : Type) := List Token → Outcome α

namespace Parse

variable {α β : Type}

@[inline] protected def pure (a : α) : Parse α := fun ts => ⟨some a, ts, []⟩

/-- The second parser goes on where the first one stopped, unless that failed. -/
@[inline] protected def bind (p : Parse α) (f : α → Parse β) : Parse β := fun ts =>
  let first := p ts
  match first.result with
  | none => ⟨none, first.rest, first.complaints⟩
  | some a =>
    let second := f a first.rest
    ⟨second.result, second.rest, first.complaints ++ second.complaints⟩

@[always_inline] instance : Monad Parse where
  pure := Parse.pure
  bind := Parse.bind

end Parse

variable {α : Type}

def fail (error : SyntaxError) : Parse α := fun ts => ⟨none, ts, [⟨ts, error⟩]⟩

/-- A complaint about an earlier place that does not stop the parser. -/
def complain (ahead : List Token) (error : SyntaxError) : Parse Unit := fun ts =>
  ⟨some (), ts, [⟨ahead, error⟩]⟩

/-- The tokens that are left; none is taken. -/
def lookahead : Parse (List Token) := fun ts => ⟨some ts, ts, []⟩

/-- Takes the next token if its kind is one of those given. -/
def accept (kinds : List TokenKind) : Parse (Option Token) := fun ts =>
  match ts with
  | t :: rest => if t.kind ∈ kinds then ⟨some (some t), rest, []⟩ else ⟨some none, ts, []⟩
  | [] => ⟨some none, ts, []⟩

/-- Takes the next token, which must be of the given kind. -/
def expect (kind : TokenKind) (error : SyntaxError) : Parse Token := do
  match ← accept [kind] with
  | some t => pure t
  | none => fail error

end LetLang.Parser
