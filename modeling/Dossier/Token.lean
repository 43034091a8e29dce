namespace Dossier

/-- The containment classes an item can be filed under. -/
inductive ObjectClass where
  | safe
  | euclid
  | keter
  | thaumiel
  | neutralized
deriving DecidableEq, Repr

namespace ObjectClass

def all : List ObjectClass := [safe, euclid, keter, thaumiel, neutralized]

def name : ObjectClass → String
  | safe => "Safe"
  | euclid => "Euclid"
  | keter => "Keter"
  | thaumiel => "Thaumiel"
  | neutralized => "Neutralized"

/-- A class is written with exactly its name. -/
def ofName? (text : String) : Option ObjectClass := all.find? (fun c => c.name == text)

/-- The complaint about a name that `ofName?` does not know. -/
def unknown (text : String) : String := "unknown object class '" ++ text ++ "'"

end ObjectClass

inductive Verb where
  | does
  | has
  | is
deriving DecidableEq, Repr

namespace Verb

/-- The verb as it stands in a sentence. -/
def word : Verb → String
  | does => "does"
  | has => "has"
  | is => "is"

end Verb

inductive Token where
  | itemNumber (number : Nat)
  | objectClass (objectClass : ObjectClass)
  | procedures
  | description
  | footnoteStart
  | footnoteEnd
  | addendum (number : Nat) (letter : Option Char)
  | identifier (name : String)
  | verb (verb : Verb)
  | constant (value : Nat)
  | period
  | the
  | square
  | of
  | ifWord
  | comma
  | rule
  | increment
  | see
  | add
  | and
  | openParen
  | closeParen
  | tildes
  | commentStart
  | commentEnd
deriving DecidableEq, Repr

/-- A token without what it carries. -/
inductive Kind where
  | itemNumber
  | objectClass
  | procedures
  | description
  | footnoteStart
  | footnoteEnd
  | addendum
  | identifier
  | verb
  | constant
  | period
  | the
  | square
  | of
  | ifWord
  | comma
  | rule
  | increment
  | see
  | add
  | and
  | openParen
  | closeParen
  | tildes
  | commentStart
  | commentEnd
deriving DecidableEq, Repr, Hashable

namespace Token

def kind : Token → Kind
  | itemNumber _ => .itemNumber
  | objectClass _ => .objectClass
  | procedures => .procedures
  | description => .description
  | footnoteStart => .footnoteStart
  | footnoteEnd => .footnoteEnd
  | addendum _ _ => .addendum
  | identifier _ => .identifier
  | verb _ => .verb
  | constant _ => .constant
  | period => .period
  | the => .the
  | square => .square
  | of => .of
  | ifWord => .ifWord
  | comma => .comma
  | rule => .rule
  | increment => .increment
  | see => .see
  | add => .add
  | and => .and
  | openParen => .openParen
  | closeParen => .closeParen
  | tildes => .tildes
  | commentStart => .commentStart
  | commentEnd => .commentEnd

/-- Fixed wording stands in quotes; anything else is named and followed by what it carries. -/
def describe : Token → String
  | itemNumber n => "item number " ++ n.repr
  | objectClass c => "object class " ++ c.name
  | procedures => "'Special Containment Procedures:'"
  | description => "'Description:'"
  | footnoteStart => "'[[footnote]]'"
  | footnoteEnd => "'[[/footnote]]'"
  | addendum n none => "addendum " ++ n.repr
  | addendum n (some letter) => "addendum " ++ n.repr ++ "-" ++ letter.toString
  | identifier name => "identifier '" ++ name ++ "'"
  | verb v => "verb '" ++ v.word ++ "'"
  | constant n => "constant " ++ n.repr
  | period => "'.'"
  | the => "'the'"
  | square => "'square containment chamber'"
  | of => "'of'"
  | ifWord => "'If'"
  | comma => "','"
  | rule => "'-----'"
  | increment => "'will generate a new instance'"
  | see => "'See'"
  | add => "'in addition to'"
  | and => "'and'"
  | openParen => "'('"
  | closeParen => "')'"
  | tildes => "'~~'"
  | commentStart => "'[!--'"
  | commentEnd => "'--]'"

end Token

namespace Kind

/-- The name a kind goes by in the dumps. -/
def name : Kind → String
  | itemNumber => "ItemNumber"
  | objectClass => "ObjectClass"
  | procedures => "ConProcsStart"
  | description => "DescriptionStart"
  | footnoteStart => "FootnoteStart"
  | footnoteEnd => "FootnoteEnd"
  | addendum => "AddendumStart"
  | identifier => "Identifier"
  | verb => "Verb"
  | constant => "Constant"
  | period => "Period"
  | the => "The"
  | square => "Square"
  | of => "Of"
  | ifWord => "If"
  | comma => "Comma"
  | rule => "Hr"
  | increment => "Increment"
  | see => "Goto"
  | add => "Add"
  | and => "And"
  | openParen => "LParen"
  | closeParen => "RParen"
  | tildes => "Tilde2"
  | commentStart => "CommentStart"
  | commentEnd => "CommentEnd"

def all : List Kind :=
  [itemNumber, objectClass, procedures, description, footnoteStart, footnoteEnd, addendum,
    identifier, verb, constant, period, the, square, of, ifWord, comma, rule, increment, see, add,
    and, openParen, closeParen, tildes, commentStart, commentEnd]

def ofName? (text : String) : Option Kind := all.find? (fun kind => kind.name == text)

end Kind

end Dossier
