import Dossier.Json
import Dossier.Tree

namespace Dossier

def Label.toJson : Label → Json
  | addendum number letter => .tagged "Addendum" (.ofAddendum number letter)
  | description => .text "Description"

namespace Expression

mutual

def toJson : Expression → Json
  | .variable name => .tagged "Variable" (.text name)
  | .add left right => .tagged "Add" (.record [("left", .text left), ("right", right.toJson)])
  | .constant n => .tagged "Constant" (.number n)
  | .call name args =>
    .tagged "FunctionCall" (.record [("name", .text name), ("args", .list (toJsons args))])
  | .square name => .tagged "Square" (.text name)

def toJsons : List Expression → List Json
  | [] => []
  | e :: es => e.toJson :: toJsons es

end

end Expression

def Equality.toJson (e : Equality) : Json :=
  .record [("left", e.left.toJson), ("right", e.right.toJson)]

/-- A block is a record of its one list. -/
def Json.ofBlock (statements : List Json) : Json := .record [("statements", .list statements)]

namespace Statement

mutual

def toJson : Statement → Json
  | .assignment target value =>
    .tagged "Assignment" (.record [("target", .text target), ("value", value.toJson)])
  | .increment target => .tagged "Increment" (.record [("target", .text target)])
  | .goto label => .tagged "GoTo" (.record [("label", label.toJson)])
  | .conditional condition body =>
    .tagged "Conditional"
      (.record [("condition", condition.toJson), ("body", .ofBlock (toJsons body))])
  | .expression e => .tagged "Expression" e.toJson
  | .comment => .text "Comment"
  | .invalid => .text "Invalid"

def toJsons : List Statement → List Json
  | [] => []
  | s :: ss => s.toJson :: toJsons ss

end

end Statement

def BodyPart.toJson : BodyPart → Json
  | block statements => .tagged "Block" (.ofBlock (Statement.toJsons statements))
  | label l => .tagged "Label" l.toJson

def Document.toJson (doc : Document) : Json :=
  .record [("number", .number doc.number), ("class", .text doc.objectClass.name),
    ("parts", .list (doc.parts.map BodyPart.toJson))]

end Dossier
