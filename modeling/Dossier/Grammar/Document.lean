import Dossier.Grammar.Statement

namespace Dossier.Grammar

variable {m : Type → Type} [Monad m] [Bookkeeping m]
  (strategy : Strategy) (tokens : List Token) (ctx : Context)

def bodyPart : Rule m BodyPart := fun pos => do
  let block ← (block strategy tokens ctx).as .block pos
  let label ← (label tokens ctx).as .label pos
  return Candidate.chooseNearest [⟨block, false⟩, ⟨label, false⟩]

/-- Parts for as long as there is a block or a label. -/
def bodyParts : Nat → Steps m (List BodyPart)
  | 0 => return []
  | bound + 1 => do
    match ← .perhaps (bodyPart strategy tokens ctx) with
    | none => return []
    | some part =>
      let parts ← bodyParts bound
      return part :: parts

/-- The header, which is an item number, an object class and the heading of the containment
procedures, and then the body. -/
def document : Rule m Document := Steps.rule do
  let number ← .take (itemNumber tokens ctx)
  let objectClass ← .take (objectClass tokens ctx)
  expect tokens ctx .procedures
  let parts ← bodyParts strategy tokens ctx tokens.length
  return ⟨number, objectClass, parts⟩

end Dossier.Grammar

namespace Dossier

variable {m : Type → Type} [Monad m] [Bookkeeping m]

/-- The rule that a production's name stands for. -/
def Production.rule (strategy : Strategy) (tokens : List Token) (ctx : Context) :
    (p : Production) → Rule m p.Value
  | token kind => Grammar.token tokens ctx kind
  | endOfStream => fun pos => pure (Dossier.endOfStream tokens pos)
  | identifier => Grammar.identifier tokens ctx
  | constantValue => Grammar.constantValue tokens ctx
  | verb => Grammar.verb tokens ctx
  | itemNumber => Grammar.itemNumber tokens ctx
  | objectClass => Grammar.objectClass tokens ctx
  | label => Grammar.label tokens ctx
  | square => Grammar.square tokens ctx
  | add => Grammar.add tokens ctx
  | constant => Grammar.constant tokens ctx
  | functionCall => Grammar.functionCall tokens ctx
  | .variable => Grammar.bareVariable tokens ctx
  | expression => Grammar.expression tokens ctx
  | copula => Grammar.copula tokens ctx
  | equality => Grammar.equality tokens ctx
  | assignment => Grammar.assignment tokens ctx
  | reverseAssignment => Grammar.reverseAssignment tokens ctx
  | increment => Grammar.increment tokens ctx
  | goto => Grammar.goto tokens ctx
  | expressionStatement => Grammar.expressionStatement tokens ctx
  | comment => Grammar.comment tokens ctx
  | invalid => Grammar.invalid tokens ctx
  | conditional => Grammar.conditional strategy tokens ctx
  | statement => Grammar.statement strategy tokens ctx
  | block => Grammar.block strategy tokens ctx
  | bodyPart => Grammar.bodyPart strategy tokens ctx
  | document => Grammar.document strategy tokens ctx

end Dossier
