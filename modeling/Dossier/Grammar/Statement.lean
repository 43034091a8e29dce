import Dossier.Grammar.Expression

namespace Dossier

/-- Whether alternatives that cannot win are tried all the same. -/
inductive Strategy where
  | pruned
  | exhaustive
deriving DecidableEq, Repr

/-- An alternative that cannot start before `opening` is tried unless a rival lies nearer. -/
def Strategy.tries (strategy : Strategy) (opening rival : Option Nat) : Bool :=
  match strategy, opening, rival with
  | exhaustive, _, _ => true
  | pruned, none, _ => false
  | pruned, some _, none => true
  | pruned, some opening, some rival => opening ≤ rival

namespace Grammar

variable {m : Type → Type} [Monad m] [Bookkeeping m]

section Simple

variable (tokens : List Token) (ctx : Context)

/-- `<identifier> <verb> <constant>.` -/
def assignment : Rule m Statement := Steps.rule do
  let target ← .take (identifier tokens ctx)
  let _ ← Steps.take (verb tokens ctx)
  let value ← .take (constantValue tokens ctx)
  expect tokens ctx .period
  return .assignment target (.constant value)

/-- `<expression> <verb> <identifier>.`, which is no form of statement on its own. -/
def reverseAssignment : Rule m Statement := Steps.rule do
  let value ← .take (expression tokens ctx)
  let _ ← Steps.take (verb tokens ctx)
  let target ← .take (identifier tokens ctx)
  expect tokens ctx .period
  return .assignment target value

/-- `<identifier> will generate a new instance.` -/
def increment : Rule m Statement := Steps.rule do
  let target ← .take (identifier tokens ctx)
  expect tokens ctx .increment
  expect tokens ctx .period
  return .increment target

/-- `See <label>.` -/
def goto : Rule m Statement := Steps.rule do
  expect tokens ctx .see
  let label ← .take (label tokens ctx)
  expect tokens ctx .period
  return .goto label

def expressionStatement : Rule m Statement := Steps.rule do
  let expression ← .take (expression tokens ctx)
  expect tokens ctx .period
  return .expression expression

/-- `[!-- ... --]`, whatever stands between. -/
def comment : Rule m Statement := Steps.rule do
  expect tokens ctx .commentStart
  expect tokens ctx .commentEnd
  return .comment

def invalid : Rule m Statement := Steps.rule do
  expect tokens ctx .period
  return .invalid

/-- The forms that contain no statement, those listed earlier winning full ties. -/
def simpleForms : List (Rule m Statement) :=
  [assignment tokens ctx, increment tokens ctx, goto tokens ctx, expressionStatement tokens ctx,
    comment tokens ctx, invalid tokens ctx]

/-- `If <equality>, <body>` -/
def conditionalOf (body : Rule m Block) : Rule m Statement := Steps.rule do
  expect tokens ctx .ifWord
  let condition ← .take (equality tokens ctx)
  expect tokens ctx .comma
  let body ← .take body
  return .conditional condition body

end Simple

/-- The kinds of token that a statement can start with. -/
def statementStart : List Kind :=
  [.ifWord, .identifier, .see, .the, .square, .constant, .openParen, .commentStart, .period]

variable (strategy : Strategy) (tokens : List Token) (ctx : Context)

/-- The nearest form of statement. A conditional starts at its `If`, so behind a nearer form it is
not worth trying. -/
def statementOf (conditional : Rule m Statement) : Rule m Statement := fun pos =>
  remember ⟨.statement, ctx, pos⟩ do
    let simple ← (simpleForms tokens ctx).mapM fun form => form pos
    let branch ←
      if strategy.tries (peek tokens [.ifWord] pos) (Outcome.nearestStart simple) then
        conditional pos
      else pure none
    return Candidate.chooseNearest ((branch :: simple).map fun outcome => ⟨outcome, false⟩)

/-- A block ends at a rule or at the end of the stream. -/
def blockEnd : Rule m Unit := fun pos => do
  let rule ← (token tokens ctx .rule).as (fun _ => ()) pos
  return Candidate.chooseNearest [⟨rule, false⟩, ⟨endOfStream tokens pos, false⟩]

/-- The next statement of a block, or nothing where its end lies nearer. -/
def blockStep (statement : Rule m Statement) : Rule m (Option Statement) := fun pos => do
  let stop ← blockEnd tokens ctx pos
  let next ←
    if strategy.tries (peek tokens statementStart pos) (stop.map Parsed.start) then statement pos
    else pure none
  return Candidate.chooseNearest [⟨next.as some, false⟩, ⟨stop.as fun _ => none, false⟩]

/-- The statements after the first. What ends the block is not consumed. -/
def furtherStatements (statement : Rule m Statement) : Nat → Steps m (List Statement)
  | 0 => .fail
  | bound + 1 => do
    let step ← .ahead (blockStep strategy tokens ctx statement)
    match step.value with
    | none => return []
    | some first =>
      .moveTo step
      let others ← furtherStatements statement bound
      return first :: others

def blockOf (statement : Rule m Statement) : Rule m Block := fun pos =>
  remember ⟨.block, ctx, pos⟩ <| Steps.rule (do
    let first ← .take statement
    let others ← furtherStatements strategy tokens ctx statement tokens.length
    return first :: others) pos

/-- Statements with this much room for nested ones. -/
def statementWithin (forbidden : Option Kind) : Nat → Rule m Statement
  | 0 => statementOf strategy tokens ⟨forbidden, 0⟩ .never
  | room + 1 =>
    let inner : Context := ⟨forbidden, room⟩
    statementOf strategy tokens ⟨forbidden, room + 1⟩
      (conditionalOf tokens inner
        (blockOf strategy tokens inner (statementWithin forbidden room)))

def statement : Rule m Statement := statementWithin strategy tokens ctx.forbidden ctx.room

/-- One statement, then more of them up to the end of the block. Where neither a statement nor the
end can be found the whole block fails. -/
def block : Rule m Block := blockOf strategy tokens ctx (statement strategy tokens ctx)

def conditional : Rule m Statement :=
  match ctx.nested? with
  | none => .never
  | some inner => conditionalOf tokens inner (block strategy tokens inner)

/-- A statement is a choice between the conditional and the simple forms. -/
theorem statement_eq :
    statement (m := m) strategy tokens ctx =
      statementOf strategy tokens ctx (conditional strategy tokens ctx) := by
  obtain ⟨_, _ | _⟩ := ctx <;> rfl

end Grammar

end Dossier
