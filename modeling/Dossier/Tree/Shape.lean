import Dossier.Tree

namespace Dossier

namespace Expression

mutual

/-- How many sums and calls enclose one another. -/
def nesting : Expression → Nat
  | .add _ right => right.nesting + 1
  | .call _ args => argumentsNesting args + 1
  | .variable _ | .constant _ | .square _ => 0

def argumentsNesting : List Expression → Nat
  | [] => 0
  | e :: es => max e.nesting (argumentsNesting es)

end

mutual

/-- Every call has an argument. -/
def wellFormed : Expression → Bool
  | .add _ right => right.wellFormed
  | .call _ args => !args.isEmpty && argumentsWellFormed args
  | .variable _ | .constant _ | .square _ => true

def argumentsWellFormed : List Expression → Bool
  | [] => true
  | e :: es => e.wellFormed && argumentsWellFormed es

end

def isConstant : Expression → Bool
  | .constant _ => true
  | _ => false

end Expression

namespace Equality

def nesting (e : Equality) : Nat := max e.left.nesting e.right.nesting

def wellFormed (e : Equality) : Bool := e.left.wellFormed && e.right.wellFormed

end Equality

namespace Statement

def isConditional : Statement → Bool
  | .conditional _ _ => true
  | _ => false

mutual

/-- How many conditionals, sums and calls enclose one another. -/
def nesting : Statement → Nat
  | .assignment _ value => value.nesting
  | .conditional ⟨left, right⟩ body =>
    max (max left.nesting right.nesting) (blockNesting body) + 1
  | .expression e => e.nesting
  | .increment _ | .goto _ | .comment | .invalid => 0

def blockNesting : Block → Nat
  | [] => 0
  | s :: ss => max s.nesting (blockNesting ss)

end

mutual

/-- Only constants are assigned, every call has an argument and every body a statement. -/
def wellFormed : Statement → Bool
  | .assignment _ value => value.isConstant
  | .conditional ⟨left, right⟩ body =>
    left.wellFormed && right.wellFormed && !body.isEmpty && blockWellFormed body
  | .expression e => e.wellFormed
  | .increment _ | .goto _ | .comment | .invalid => true

def blockWellFormed : Block → Bool
  | [] => true
  | s :: ss => s.wellFormed && blockWellFormed ss

end

mutual

/-- In every block a conditional comes last. -/
def conditionalsLast : Statement → Bool
  | .conditional _ body => blockConditionalsLast body
  | _ => true

def blockConditionalsLast : Block → Bool
  | [] => true
  | s :: ss => (ss.isEmpty || !s.isConditional) && s.conditionalsLast && blockConditionalsLast ss

end

end Statement

namespace Document

def nesting (doc : Document) : Nat :=
  (doc.blocks.map Statement.blockNesting).foldr max 0

def wellFormed (doc : Document) : Bool :=
  doc.blocks.all fun block => !block.isEmpty && Statement.blockWellFormed block

def conditionalsLast (doc : Document) : Bool :=
  doc.blocks.all Statement.blockConditionalsLast

end Document

end Dossier
