import Dossier.Tree.Node

namespace Dossier

/-- The types of node that take one from the room for nesting. -/
def NodeType.nests : NodeType → Bool
  | conditional | add | functionCall => true
  | _ => false

namespace Node

/-- The nodes passed on the way down, beginning with the node that the way begins at. -/
inductive Path : Node → List Node → Prop where
  | here {node : Node} : Path node [node]
  | down {node child : Node} {below : List Node} (step : child ∈ node.children)
      (rest : Path child below) : Path node (node :: below)

/-- A block has a statement, a call has an argument, and what is assigned is a constant. -/
def proper : Node → Bool
  | mk .block _ children | mk .functionCall _ children => !children.isEmpty
  | mk .assignment _ children => children.map type = [.constant]
  | _ => true

/-- On every way down from the node all nodes are proper, and no more of them nest than there is
room for. -/
def Fits (room : Nat) (root : Node) : Prop :=
  ∀ path, root.Path path →
    (∀ node ∈ path, node.proper = true) ∧ path.countP (fun node => node.type.nests) ≤ room

/-- The level that a node takes up. -/
def level (node : Node) : Nat := if node.type.nests then 1 else 0

/-- A node fits that is proper itself and leaves enough room to those below it. -/
theorem fits_of_children {node : Node} {room below : Nat} (hproper : node.proper = true)
    (hlevel : below + node.level ≤ room) (h : ∀ child ∈ node.children, child.Fits below) :
    node.Fits room := by
  intro path hpath
  cases hpath with
  | here =>
    constructor
    · intro other hmem
      rw [List.mem_singleton.mp hmem]
      exact hproper
    · rw [List.countP_singleton]
      change node.level ≤ room
      omega
  | down step rest =>
    obtain ⟨hbelow, hcount⟩ := h _ step _ rest
    constructor
    · intro other hmem
      rcases List.mem_cons.mp hmem with rfl | hmem
      · exact hproper
      · exact hbelow other hmem
    · rw [List.countP_cons]
      exact Nat.le_trans (Nat.add_le_add_right hcount node.level) hlevel

/-- A node without children fits as soon as it is proper and nests nothing. -/
theorem fits_of_leaf {node : Node} {room : Nat} (hproper : node.proper = true)
    (hlevel : node.level = 0) (h : node.children = []) : node.Fits room := by
  have hle : 0 + node.level ≤ room := by omega
  refine fits_of_children hproper hle ?_
  rw [h]
  nofun

end Node

end Dossier
