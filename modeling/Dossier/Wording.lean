import Dossier.Tree

namespace Dossier

/-- A place in a text: a token that is fixed, or a verb of any kind. -/
inductive Slot where
  | fixed (token : Token)
  | anyVerb
deriving DecidableEq, Repr

namespace Slot

/-- Whether a token can stand in this place. -/
def Accepts : Slot → Token → Prop
  | fixed token, t => t = token
  | anyVerb, t => t.kind = .verb

instance : DecidableRel Accepts
  | fixed token, t => inferInstanceAs (Decidable (t = token))
  | anyVerb, t => inferInstanceAs (Decidable (t.kind = .verb))

def kind : Slot → Kind
  | fixed token => token.kind
  | anyVerb => .verb

theorem Accepts.kind_eq {slot : Slot} {t : Token} (h : slot.Accepts t) : t.kind = slot.kind := by
  cases slot with
  | fixed token => exact congrArg Token.kind h
  | anyVerb => exact h

end Slot

/-- Whether the words that a reader may leave out are written: the article and the preposition of a
square and the rule behind a block. -/
inductive Style where
  | full
  | bare
deriving DecidableEq, Repr

def Style.optional : Style → Token → List Slot
  | full, token => [.fixed token]
  | bare, _ => []

/-- The heading that a label is read from. -/
def Label.token : Label → Token
  | addendum number letter => .addendum number letter
  | description => .description

namespace Expression

mutual

def wording (style : Style) : Expression → List Slot
  | .variable name => [.fixed (.identifier name)]
  | .add left right => .fixed (.identifier left) :: .fixed .add :: right.wording style
  | .constant n => [.fixed (.constant n)]
  | .call name args => .fixed .openParen :: .fixed (.identifier name) :: argumentsWording style args
  | .square name =>
    style.optional .the ++ .fixed .square :: (style.optional .of ++ [.fixed (.identifier name)])

/-- The arguments of a call and its closing parenthesis. -/
def argumentsWording (style : Style) : List Expression → List Slot
  | [] => [.fixed .closeParen]
  | e :: es => e.wording style ++ furtherWording style es

/-- The arguments after the first, each behind its `and`. -/
def furtherWording (style : Style) : List Expression → List Slot
  | [] => [.fixed .closeParen]
  | e :: es => .fixed .and :: (e.wording style ++ furtherWording style es)

end

end Expression

def Equality.wording (style : Style) (e : Equality) : List Slot :=
  e.left.wording style ++ .fixed (.verb .is) :: e.right.wording style

namespace Statement

mutual

def wording (style : Style) : Statement → List Slot
  | .assignment target value =>
    .fixed (.identifier target) :: .anyVerb :: (value.wording style ++ [.fixed .period])
  | .increment target => [.fixed (.identifier target), .fixed .increment, .fixed .period]
  | .goto label => [.fixed .see, .fixed label.token, .fixed .period]
  | .conditional ⟨left, right⟩ body =>
    .fixed .ifWord :: (left.wording style ++ .fixed (.verb .is) :: (right.wording style ++
      .fixed .comma :: blockWording style body))
  | .expression e => e.wording style ++ [.fixed .period]
  | .comment => [.fixed .commentStart, .fixed .commentEnd]
  | .invalid => [.fixed .period]

def blockWording (style : Style) : Block → List Slot
  | [] => []
  | s :: ss => s.wording style ++ blockWording style ss

end

end Statement

def BodyPart.wording (style : Style) : BodyPart → List Slot
  | block statements => Statement.blockWording style statements ++ style.optional .rule
  | label l => [.fixed l.token]

namespace Document

def bodyWording (style : Style) : List BodyPart → List Slot
  | [] => []
  | part :: parts => part.wording style ++ bodyWording style parts

def wording (style : Style) (doc : Document) : List Slot :=
  .fixed (.itemNumber doc.number) :: .fixed (.objectClass doc.objectClass) :: .fixed .procedures ::
    bodyWording style doc.parts

end Document

end Dossier
