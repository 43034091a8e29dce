import Dossier.Tree

namespace Dossier

inductive NodeType where
  | document
  | block
  | label
  | assignment
  | increment
  | goto
  | conditional
  | expressionStatement
  | comment
  | invalid
  | equality
  | variable
  | add
  | constant
  | functionCall
  | square
deriving DecidableEq, Repr

namespace NodeType

def name : NodeType → String
  | document => "Document"
  | block => "Block"
  | label => "Label"
  | assignment => "Assignment"
  | increment => "Increment"
  | goto => "GoTo"
  | conditional => "Conditional"
  | expressionStatement => "ExpressionStatement"
  | comment => "Comment"
  | invalid => "InvalidStatement"
  | equality => "Equality"
  | .variable => "Variable"
  | add => "Add"
  | constant => "Constant"
  | functionCall => "FunctionCall"
  | square => "Square"

end NodeType

/-- One view of every tree: a node has a type, a label to read and the nodes below. All that draws a
tree goes through it. -/
inductive Node where
  | mk (type : NodeType) (label : String) (children : List Node)
deriving Repr

namespace Node

def type : Node → NodeType
  | mk type _ _ => type

def label : Node → String
  | mk _ label _ => label

def children : Node → List Node
  | mk _ _ children => children

end Node

def Label.text : Label → String
  | addendum number none => "Addendum " ++ number.repr
  | addendum number (some letter) => "Addendum " ++ number.repr ++ "-" ++ letter.toString
  | description => "Description"

def Label.node (label : Label) : Node := .mk .label label.text []

namespace Expression

mutual

def text : Expression → String
  | .variable name => name
  | .add left right => left ++ " + " ++ right.text
  | .constant value => value.repr
  | .call name args => name ++ "(" ++ ", ".intercalate (texts args) ++ ")"
  | .square name => "square(" ++ name ++ ")"

def texts : List Expression → List String
  | [] => []
  | e :: es => e.text :: texts es

end

mutual

def node : Expression → Node
  | .variable name => .mk .variable name []
  | .add left right => .mk .add (text (.add left right)) [right.node]
  | .constant value => .mk .constant (text (.constant value)) []
  | .call name args => .mk .functionCall (text (.call name args)) (nodes args)
  | .square name => .mk .square (text (.square name)) []

def nodes : List Expression → List Node
  | [] => []
  | e :: es => e.node :: nodes es

end

end Expression

def Equality.text (e : Equality) : String := e.left.text ++ " is " ++ e.right.text

def Equality.node (e : Equality) : Node := .mk .equality e.text [e.left.node, e.right.node]

/-- A block is labelled by its length. -/
def Block.text (block : Block) : String :=
  match block.length with
  | 1 => "1 statement"
  | n => n.repr ++ " statements"

namespace Statement

def text : Statement → String
  | .assignment target value => target ++ " := " ++ value.text
  | .increment target => target ++ "++"
  | .goto label => label.text
  | .conditional condition _ => "if " ++ condition.text
  | .expression e => e.text
  | .comment => ""
  | .invalid => ""

mutual

def node : Statement → Node
  | .assignment target value => .mk .assignment (text (.assignment target value)) [value.node]
  | .increment target => .mk .increment (text (.increment target)) []
  | .goto label => .mk .goto (text (.goto label)) [label.node]
  | .conditional condition body =>
    .mk .conditional (text (.conditional condition []))
      [condition.node, .mk .block (Block.text body) (nodes body)]
  | .expression e => .mk .expressionStatement e.text [e.node]
  | .comment => .mk .comment "" []
  | .invalid => .mk .invalid "" []

def nodes : List Statement → List Node
  | [] => []
  | s :: ss => s.node :: nodes ss

end

end Statement

def Block.node (block : Block) : Node := .mk .block (Block.text block) (Statement.nodes block)

def BodyPart.node : BodyPart → Node
  | block b => Block.node b
  | label l => l.node

namespace Document

/-- Item numbers have at least three digits. -/
def itemText (number : Nat) : String :=
  let digits := Nat.toDigits 10 number
  "SCP-" ++ String.ofList (List.replicate (3 - digits.length) '0' ++ digits)

def text (doc : Document) : String := itemText doc.number ++ " (" ++ doc.objectClass.name ++ ")"

def node (doc : Document) : Node := .mk .document doc.text (doc.parts.map BodyPart.node)

end Document

end Dossier
