import Dossier.Token

namespace Dossier

inductive Label where
  | addendum (number : Nat) (letter : Option Char)
  | description
deriving DecidableEq, Repr

inductive Expression where
  | variable (name : String)
  | add (left : String) (right : Expression)
  | constant (value : Nat)
  | call (name : String) (args : List Expression)
  | square (name : String)
deriving Repr

structure Equality where
  left : Expression
  right : Expression
deriving Repr

inductive Statement where
  | assignment (target : String) (value : Expression)
  | increment (target : String)
  | goto (label : Label)
  | conditional (condition : Equality) (body : List Statement)
  | expression (expression : Expression)
  | comment
  | invalid
deriving Repr

/-- A run of statements. -/
abbrev Block := List Statement

inductive BodyPart where
  | block (block : Block)
  | label (label : Label)
deriving Repr

/-- A header and a body. The body alternates between blocks of statements and the labels that jumps
refer to. -/
structure Document where
  number : Nat
  objectClass : ObjectClass
  parts : List BodyPart
deriving Repr

namespace Document

def blocks (doc : Document) : List Block :=
  doc.parts.filterMap fun
    | .block block => some block
    | .label _ => none

def labels (doc : Document) : List Label :=
  doc.parts.filterMap fun
    | .block _ => none
    | .label label => some label

end Document

end Dossier
