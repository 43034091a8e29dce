import Dossier.Context
import Dossier.Outcome
import Dossier.Tree

namespace Dossier

inductive Production where
  | token (kind : Kind)
  | endOfStream
  | identifier
  | constantValue
  | verb
  | itemNumber
  | objectClass
  | label
  | square
  | add
  | constant
  | functionCall
  | variable
  | expression
  | copula
  | equality
  | assignment
  | reverseAssignment
  | increment
  | goto
  | expressionStatement
  | comment
  | invalid
  | conditional
  | statement
  | block
  | bodyPart
  | document
deriving DecidableEq, Repr, Hashable

abbrev Production.Value : Production → Type
  | token _ => Token
  | endOfStream => Unit
  | identifier => String
  | constantValue | itemNumber => Nat
  | verb | copula => Verb
  | objectClass => ObjectClass
  | label => Label
  | square | add | constant | functionCall | .variable | expression => Expression
  | equality => Equality
  | assignment | reverseAssignment | increment | goto | expressionStatement | comment | invalid
  | conditional | statement => Statement
  | block => Block
  | bodyPart => BodyPart
  | document => Document

/-- A production, the context it runs in and the position it starts from. -/
structure Call where
  production : Production
  context : Context
  position : Nat
deriving DecidableEq, Repr, Hashable

/-- What a call comes to. -/
abbrev Call.Result (call : Call) : Type := Outcome call.production.Value

end Dossier
