import Dossier.Tree.Outline

namespace Dossier.Node

/-- The node at the end of a way down. The way says of each node which of its children comes
next. -/
def at? : Node → List Nat → Option Node
  | node, [] => some node
  | node, turn :: address => node.children[turn]?.bind fun child => child.at? address

/-- Whether the node at an address has a later sibling. -/
def hasLater (root : Node) (address : List Nat) : Bool :=
  match address.getLast? with
  | none => false
  | some turn => (root.at? (address.dropLast ++ [turn + 1])).isSome

/-- No label of the tree goes over a line break. -/
def OneLine (root : Node) : Prop :=
  ∀ address node, root.at? address = some node → '\n' ∉ node.label.toList

/-- The line of the node at an address: a group for each node that is passed on the way from the
root, a corner and the caption of the node. -/
def line (root : Node) (address : List Nat) : String :=
  let groups := (List.range (address.length - 1)).map fun depth =>
    if root.hasLater (address.take (depth + 1)) then "│ " else "  "
  let caption := (root.at? address).map fun node => Outline.caption node.type node.label
  String.join groups ++ (if root.hasLater address then "├─" else "└─") ++ " " ++ caption.getD ""

mutual

/-- The addresses of all nodes below a node, of each before those of the nodes below it. -/
def addresses : Node → List (List Nat)
  | .mk _ _ children => addressesFrom 0 children

def addressesFrom (turn : Nat) : List Node → List (List Nat)
  | [] => []
  | node :: nodes =>
    [turn] :: node.addresses.map (turn :: ·) ++ addressesFrom (turn + 1) nodes

end

end Dossier.Node
