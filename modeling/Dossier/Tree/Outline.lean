import Dossier.Tree.Node

namespace Dossier

namespace Outline

/-- Labels of more than thirty characters are cut. -/
def clip (label : String) : String :=
  if 30 < label.length then String.ofList (label.toList.take 30) ++ "..." else label

/-- A type and, where there is one, a label. -/
def caption (type : NodeType) (label : String) : String :=
  match clip label with
  | "" => type.name
  | label => type.name ++ ": " ++ label

/-- The corner that leads to a node. -/
def corner (isLast : Bool) : String := if isLast then "└─" else "├─"

/-- What passes a node on the way to those below it. -/
def rail (isLast : Bool) : String := if isLast then "  " else "│ "

end Outline

namespace Node

open Outline

mutual

/-- One line a node, drawn behind the branches that lead to it. -/
def outline (lead : String) (isLast : Bool) : Node → String
  | .mk type label children =>
    lead ++ corner isLast ++ " " ++ caption type label ++ "\n" ++
      outlines (lead ++ rail isLast) children

def outlines (lead : String) : List Node → String
  | [] => ""
  | node :: nodes => outline lead nodes.isEmpty node ++ outlines lead nodes

end

end Node

/-- The root itself has no line. -/
def Document.outline (doc : Document) : String := Node.outlines "" doc.node.children

end Dossier
