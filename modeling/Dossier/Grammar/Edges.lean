import Dossier.Grammar.Statement

namespace Dossier

namespace Grammar

/-- The kinds of token that an expression can start with. -/
def expressionStart : List Kind := [.the, .square, .identifier, .constant, .openParen]

/-- The kinds of token that an expression can end with. -/
def expressionEnd : List Kind := [.identifier, .constant, .closeParen]

/-- A statement ends with its sentence, or with the closing mark of a comment. -/
def statementEnd : List Kind := [.period, .commentEnd]

def labelKinds : List Kind := [.addendum, .description]

end Grammar

namespace Production

open Grammar

/-- Whether a production is a form of the grammar, not just one look at the stream. -/
def isForm : Production → Bool
  | token _ | endOfStream => false
  | _ => true

/-- The kinds of token that come first in what a production finds. -/
def openings : Production → List Kind
  | token kind => [kind]
  | endOfStream => []
  | identifier | add | .variable | assignment | increment => [.identifier]
  | constantValue | constant => [.constant]
  | verb | copula => [.verb]
  | itemNumber | document => [.itemNumber]
  | objectClass => [.objectClass]
  | label => labelKinds
  | square => [.the, .square]
  | functionCall => [.openParen]
  | expression | equality | reverseAssignment | expressionStatement => expressionStart
  | goto => [.see]
  | comment => [.commentStart]
  | invalid => [.period]
  | conditional => [.ifWord]
  | statement | block => statementStart
  | bodyPart => statementStart ++ labelKinds

/-- The kinds of token that come last in what a production finds. -/
def closings : Production → List Kind
  | token kind => [kind]
  | endOfStream => []
  | identifier | square | .variable => [.identifier]
  | constantValue | constant => [.constant]
  | verb | copula => [.verb]
  | itemNumber => [.itemNumber]
  | objectClass => [.objectClass]
  | label => labelKinds
  | functionCall => [.closeParen]
  | add | expression | equality => expressionEnd
  | assignment | reverseAssignment | increment | goto | expressionStatement | invalid => [.period]
  | comment => [.commentEnd]
  | conditional | statement | block => statementEnd
  | bodyPart => statementEnd ++ labelKinds
  | document => .procedures :: (statementEnd ++ labelKinds)

end Production

end Dossier
