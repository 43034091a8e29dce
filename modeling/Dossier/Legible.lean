import Dossier.Context
import Dossier.Tree.Shape
import Dossier.Wording

namespace Dossier

/-- Whether an `in addition to` lies ahead before the first period. -/
def summed : List Slot → Bool
  | [] => false
  | slot :: slots => slot.kind = .add || slot.kind ≠ .period && summed slots

namespace Expression

mutual

/-- No variable in the expression is taken for a part of a sum, where `room` is what is left for
nesting and `rest` is worded behind it. One is if an `in addition to` stands further on in its
sentence, whatever lies between them; where no room is left for a sum it is safe. -/
def legible : (room : Nat) → (rest : List Slot) → Expression → Bool
  | room, rest, .variable _ => room = 0 || !summed rest
  | room, rest, .add _ right => right.legible (room - 1) rest
  | room, rest, .call _ args => argumentsLegible (room - 1) rest args
  | _, _, .constant _ | _, _, .square _ => true

def argumentsLegible : (room : Nat) → (rest : List Slot) → List Expression → Bool
  | _, _, [] => true
  | room, rest, e :: es =>
    e.legible room (furtherWording .full es ++ rest) && argumentsLegible room rest es

end

end Expression

/-- No variable on either side is taken for a part of a sum, be it one on the other side. -/
def Equality.legible (room : Nat) (rest : List Slot) (e : Equality) : Bool :=
  e.left.legible room (.fixed (.verb .is) :: (e.right.wording .full ++ rest)) &&
    e.right.legible room rest

namespace Statement

mutual

def legible : (room : Nat) → (rest : List Slot) → Statement → Bool
  | room, rest, .expression e => e.legible room (.fixed .period :: rest)
  | room, rest, .conditional ⟨left, right⟩ body =>
    let behind := .fixed .comma :: (blockWording .full body ++ rest)
    left.legible (room - 1) (.fixed (.verb .is) :: (right.wording .full ++ behind)) &&
      right.legible (room - 1) behind && blockLegible (room - 1) rest body
  | _, _, .assignment _ _ | _, _, .increment _ | _, _, .goto _ | _, _, .comment
  | _, _, .invalid => true

def blockLegible : (room : Nat) → (rest : List Slot) → Block → Bool
  | _, _, [] => true
  | room, rest, s :: ss =>
    s.legible room (blockWording .full ss ++ rest) && blockLegible room rest ss

end

end Statement

namespace Document

def bodyLegible : List BodyPart → Bool
  | [] => true
  | .block statements :: parts =>
    Statement.blockLegible Context.limit (.fixed .rule :: bodyWording .full parts) statements &&
      bodyLegible parts
  | .label _ :: parts => bodyLegible parts

/-- No variable in the document is taken for a part of a sum. -/
def legible (doc : Document) : Bool := bodyLegible doc.parts

end Document

end Dossier
