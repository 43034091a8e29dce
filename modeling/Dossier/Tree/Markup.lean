import Dossier.Json
import Dossier.Tree.Node

namespace Dossier

/-- The five characters that markup reserves are named; any other stands for itself. -/
def Markup.escape (c : Char) : List Char :=
  if c = '&' then "&amp;".toList
  else if c = '<' then "&lt;".toList
  else if c = '>' then "&gt;".toList
  else if c = '"' then "&quot;".toList
  else if c = '\x27' then "&apos;".toList
  else [c]

/-- A capital begins a new word of a tag, and words are joined by hyphens. -/
def Markup.hyphenated : List Char → List Char
  | [] => []
  | c :: cs => c.toLower :: cs.flatMap fun c => if c.isUpper then ['-', c.toLower] else [c]

def NodeType.tag (type : NodeType) : String :=
  String.ofList (Markup.hyphenated type.name.toList)

namespace Node

mutual

/-- An element named for the type of the node. Its label is the text, and what is below it stands in
an element of its own. -/
def markup (depth : Nat) : Node → String
  | .mk type label children =>
    margin depth ++ "<" ++ type.tag ++ ">" ++ String.ofList (label.toList.flatMap Markup.escape) ++
      (match children with
      | [] => ""
      | child :: children =>
        "<children>\n" ++ (markup (depth + 1) child ++ markups (depth + 1) children) ++
          margin depth ++ "</children>") ++
      "</" ++ type.tag ++ ">\n"

def markups (depth : Nat) : List Node → String
  | [] => ""
  | node :: nodes => markup depth node ++ markups depth nodes

end

end Node

def Document.markup (doc : Document) : String := doc.node.markup 0

end Dossier
