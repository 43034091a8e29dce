import Dossier.Grammar.Token

namespace Dossier.Grammar

variable {m : Type → Type} [Monad m] [Bookkeeping m] (tokens : List Token) (ctx : Context)

/-- `[the] square containment chamber [of] <identifier>` -/
def square : Rule m Expression := Steps.rule do
  allow tokens ctx .the
  expect tokens ctx .square
  allow tokens ctx .of
  let name ← .take (identifier tokens ctx)
  return .square name

def constant : Rule m Expression := (constantValue tokens ctx).as .constant

def bareVariable : Rule m Expression := (identifier tokens ctx).as .variable

/-- `<identifier> in addition to <expression>`, where the expression is `right`. -/
def addOf (right : Rule m Expression) : Rule m Expression := Steps.rule do
  let left ← .take (identifier tokens ctx)
  expect tokens ctx .add
  let right ← .take right
  return .add left right

/-- What may follow an argument of a call. -/
inductive Separator where
  | and
  | close

def separator : Rule m Separator := fun pos => do
  let and ← (token tokens ctx .and).as (fun _ => .and) pos
  let close ← (token tokens ctx .closeParen).as (fun _ => .close) pos
  return Candidate.chooseNearest [⟨and, false⟩, ⟨close, false⟩]

/-- The arguments after the first. Each takes up tokens, so their number bounds the search. -/
def furtherArguments (argument : Rule m Expression) : Nat → Steps m (List Expression)
  | 0 => .fail
  | bound + 1 => do
    match ← .take (separator tokens ctx) with
    | .close => return []
    | .and =>
      let first ← .take argument
      let others ← furtherArguments argument bound
      return first :: others

/-- `( <identifier> <argument> [and <argument>]* )` -/
def functionCallOf (argument : Rule m Expression) : Rule m Expression := Steps.rule do
  expect tokens ctx .openParen
  let name ← .take (identifier tokens ctx)
  let first ← .take argument
  let others ← furtherArguments tokens ctx argument tokens.length
  return .call name (first :: others)

/-- The nearest form of expression, a bare variable being the last resort. -/
def expressionOf (add functionCall : Rule m Expression) : Rule m Expression := fun pos =>
  remember ⟨.expression, ctx, pos⟩ do
    let square ← square tokens ctx pos
    let add ← add pos
    let constant ← constant tokens ctx pos
    let functionCall ← functionCall pos
    let bare ← bareVariable tokens ctx pos
    return Candidate.chooseNearest [⟨square, false⟩, ⟨add, false⟩, ⟨constant, false⟩,
      ⟨functionCall, false⟩, ⟨bare, true⟩]

/-- Expressions with this much room for nested ones. -/
def expressionWithin : Nat → Rule m Expression
  | 0 => expressionOf tokens ⟨some .period, 0⟩ .never .never
  | room + 1 =>
    let inner : Context := ⟨some .period, room⟩
    expressionOf tokens ⟨some .period, room + 1⟩
      (addOf tokens inner (expressionWithin room))
      (functionCallOf tokens inner (expressionWithin room))

/-- Looking for an expression never passes over a period, so it stays within its sentence. -/
def expression : Rule m Expression := expressionWithin tokens ctx.room

def add : Rule m Expression :=
  match ctx.nested? with
  | none => .never
  | some inner => addOf tokens inner (expression tokens inner)

def functionCall : Rule m Expression :=
  match ctx.nested? with
  | none => .never
  | some inner => functionCallOf tokens inner (expression tokens inner)

/-- `<expression> is <expression>` -/
def equality : Rule m Equality := Steps.rule do
  let left ← .take (expression tokens ctx)
  let _ ← Steps.take (copula tokens ctx)
  let right ← .take (expression tokens ctx)
  return ⟨left, right⟩

/-- An expression is a choice between the five forms, with the period forbidden to each. -/
theorem expression_eq :
    expression (m := m) tokens ctx =
      expressionOf tokens (ctx.forbid .period) (add tokens (ctx.forbid .period))
        (functionCall tokens (ctx.forbid .period)) := by
  obtain ⟨_, _ | _⟩ := ctx <;> rfl

end Dossier.Grammar
