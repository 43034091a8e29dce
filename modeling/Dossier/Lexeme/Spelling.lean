import Dossier.Character.Word
import Dossier.Token

namespace Dossier

namespace Token

/-- A name is made of letters, digits and underscores. -/
def IsName (name : String) : Prop :=
  name ≠ "" ∧ ∀ c ∈ name.toList, Character.isAsciiWord c = true

/-- At least one digit, and nothing else. -/
def IsDigits (digits : List Char) : Prop := digits ≠ [] ∧ ∀ c ∈ digits, c.isDigit = true

/-- Two numbers name a part of an item, as in `SCP-1-2`. -/
def IsReference (name : String) : Prop :=
  ∃ digits parts, IsDigits digits ∧ IsDigits parts ∧
    name.toList = "SCP-".toList ++ digits ++ '-' :: parts

/-- Whether a text can hold the token. -/
def Lexable : Token → Prop
  | itemNumber n => n < UInt64.size
  | constant n => n < UInt64.size
  | addendum n letter => n < UInt64.size ∧ ∀ c ∈ letter, Character.isAsciiWord c = true
  | identifier name => IsName name ∨ IsReference name
  | objectClass _ | procedures | description | footnoteStart | footnoteEnd | verb _ | period | the
  | square | of | ifWord | comma | rule | increment | see | add | and | openParen | closeParen
  | tildes | commentStart | commentEnd => True

/-- The words that stand for a token. A reference names itself, any other name is that of a
property. -/
def spelling : Token → String
  | itemNumber n => "Item #: SCP-" ++ n.repr
  | objectClass c => "Object Class: " ++ c.name
  | procedures => "Special Containment Procedures:"
  | description => "Description:"
  | footnoteStart => "[[footnote]]"
  | footnoteEnd => "[[/footnote]]"
  | addendum n none => "Addendum " ++ n.repr
  | addendum n (some letter) => "Addendum " ++ n.repr ++ "-" ++ letter.toString
  | identifier name =>
    if name.toList.all Character.isAsciiWord then "the " ++ name ++ " of" else name
  | verb v => v.word
  | constant n => "GoI-" ++ n.repr
  | period => "."
  | the => "the"
  | square => "square containment chamber"
  | of => "of"
  | ifWord => "If"
  | comma => ","
  | rule => "-----"
  | increment => "will generate a new instance"
  | see => "See"
  | add => "in addition to"
  | and => "and"
  | openParen => "("
  | closeParen => ")"
  | tildes => "~~"
  | commentStart => "[!--"
  | commentEnd => "--]"

end Token

end Dossier
