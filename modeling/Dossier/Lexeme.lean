import Dossier.Character.Word
import Dossier.Token

namespace Dossier

/-- The characters a rule covers and, unless they are background, the token they stand for. -/
structure Lexeme where
  text : List Char
  token : Option Token
deriving DecidableEq, Repr

namespace Lexeme

/-- What follows `opening` in a text that begins with it. -/
def after : List Char → List Char → Option (List Char)
  | [], cs => some cs
  | _ :: _, [] => none
  | o :: os, c :: cs => if o = c then after os cs else none

theorem after_eq_some_iff {os cs rest : List Char} :
    after os cs = some rest ↔ cs = os ++ rest := by
  induction os generalizing cs with
  | nil => simp [after, eq_comm]
  | cons o os ih =>
    cases cs with
    | nil => simp [after]
    | cons c cs => by_cases h : o = c <;> simp [after, h, ih, eq_comm (a := c)]

/-- The run of such characters at the front, unless it is empty. -/
def run? (p : Char → Bool) (cs : List Char) : Option (List Char) :=
  match cs.takeWhile p with
  | [] => none
  | c :: run => some (c :: run)

/-- The number that digits spell, if sixty-four bits can hold it. -/
def number? (digits : List Char) : Option Nat :=
  let n := Nat.ofDigitChars 10 digits 0
  if n < UInt64.size then some n else none

/-- Fixed wording that stands for one token. -/
def phrase (wording : String) (token : Token) (cs : List Char) : Option Lexeme :=
  (after wording.toList cs).map fun _ => ⟨wording.toList, some token⟩

/-- The first of several wordings that the text begins with. -/
def anyPhrase (wordings : List (String × Token)) (cs : List Char) : Option Lexeme :=
  wordings.findSome? fun (wording, token) => phrase wording token cs

/-- The line that gives an item its number. -/
def itemNumber (cs : List Char) : Option Lexeme := do
  let opening := "Item #: SCP-".toList
  let digits ← run? Char.isDigit (← after opening cs)
  let n ← number? digits
  return ⟨opening ++ digits, some (.itemNumber n)⟩

/-- The line that gives an item its class. -/
def objectClass (cs : List Char) : Option Lexeme := do
  let opening := "Object Class: ".toList
  let rest ← after opening cs
  let c ← ObjectClass.all.find? fun c => (after c.name.toList rest).isSome
  return ⟨opening ++ c.name.toList, some (.objectClass c)⟩

/-- The letter of an addendum stands behind a hyphen. -/
def letter? : List Char → Option Char
  | '-' :: c :: _ => if Character.isAsciiWord c then some c else none
  | _ => none

/-- The heading of an addendum, or a mention of one. -/
def addendum (cs : List Char) : Option Lexeme := do
  let opening := "Addendum ".toList
  let rest ← after opening cs
  let digits ← run? Char.isDigit rest
  let n ← number? digits
  let letter := letter? (rest.drop digits.length)
  return ⟨opening ++ digits ++ (letter.map (['-', ·])).getD [], some (.addendum n letter)⟩

/-- A reference such as `SCP-1-2` names itself. -/
def reference (cs : List Char) : Option Lexeme := do
  let item := "SCP-".toList
  let rest ← after item cs
  let digits ← run? Char.isDigit rest
  let parts ← run? Char.isDigit (← after ['-'] (rest.drop digits.length))
  let text := item ++ digits ++ '-' :: parts
  return ⟨text, some (.identifier (String.ofList text))⟩

/-- The phrase `the x of` names `x`. -/
def property (cs : List Char) : Option Lexeme := do
  let rest ← after "the ".toList cs
  let word ← run? Character.isAsciiWord rest
  let _ ← after " of".toList (rest.drop word.length)
  return ⟨"the ".toList ++ word ++ " of".toList, some (.identifier (String.ofList word))⟩

/-- Wordings that stand for a number. -/
def quantities : List (String × Token) :=
  [("not cause paradoxes", .constant 0), ("unique features", .constant 1),
    ("single instance of", .constant 1)]

/-- A group of interest stands for its number. -/
def group (cs : List Char) : Option Lexeme := do
  let opening := "GoI-".toList
  let digits ← run? Char.isDigit (← after opening cs)
  let n ← number? digits
  return ⟨opening ++ digits, some (.constant n)⟩

/-- Verbs, connectives and punctuation. No wording begins another, so their order is free. -/
def vocabulary : List (String × Token) :=
  [("does", .verb .does), ("has", .verb .has), ("is", .verb .is), (".", .period), ("the", .the),
    ("square containment chamber", .square), ("of", .of), ("If", .ifWord), (",", .comma),
    ("-----", .rule), ("will generate a new instance", .increment), ("See", .see),
    ("in addition to", .add), ("and", .and), ("(", .openParen), (")", .closeParen),
    ("~~", .tildes), ("[!--", .commentStart), ("--]", .commentEnd)]

/-- Nothing left of this place glues to it. -/
def startsWord (before : Option Char) : Bool := !before.any Character.joins

/-- Nothing right of this place glues to it. -/
def endsWord (rest : List Char) : Bool := !rest.head?.any Character.isWord

/-- A letter that stands alone is a variable, except for the article `a`. -/
def loneLetter (before : Option Char) : List Char → Option Lexeme
  | [] => none
  | c :: cs =>
    if startsWord before && 'b' ≤ c && c ≤ 'z' && endsWord cs then
      some ⟨[c], some (.identifier c.toString)⟩
    else none

/-- A number that stands alone is a constant. -/
def numeral (before : Option Char) (cs : List Char) : Option Lexeme := do
  guard (startsWord before)
  let digits ← run? Char.isDigit cs
  guard (endsWord (cs.drop digits.length))
  let n ← number? digits
  return ⟨digits, some (.constant n)⟩

/-- Any one character, which means nothing. -/
def background : List Char → Option Lexeme
  | [] => none
  | c :: _ => some ⟨[c], none⟩

end Lexeme

/-- The rules by name. -/
inductive LexicalRule where
  | itemNumber
  | objectClass
  | procedures
  | description
  | footnoteStart
  | footnoteEnd
  | addendum
  | identifier
  | constant
  | vocabulary
  | loneLetter
  | numeral
  | background
deriving DecidableEq, Repr

namespace LexicalRule

/-- What a rule finds at the front of `cs`, where `before` is the character left of it. -/
def find? (before : Option Char) (cs : List Char) : LexicalRule → Option Lexeme
  | itemNumber => Lexeme.itemNumber cs
  | objectClass => Lexeme.objectClass cs
  | procedures => Lexeme.phrase "Special Containment Procedures:" .procedures cs
  | description => Lexeme.phrase "Description:" .description cs
  | footnoteStart => Lexeme.phrase "[[footnote]]" .footnoteStart cs
  | footnoteEnd => Lexeme.phrase "[[/footnote]]" .footnoteEnd cs
  | addendum => Lexeme.addendum cs
  | identifier => (Lexeme.reference cs).or (Lexeme.property cs)
  | constant => (Lexeme.anyPhrase Lexeme.quantities cs).or (Lexeme.group cs)
  | vocabulary => Lexeme.anyPhrase Lexeme.vocabulary cs
  | loneLetter => Lexeme.loneLetter before cs
  | numeral => Lexeme.numeral before cs
  | background => Lexeme.background cs

/-- Every rule, the earlier ones first in line. -/
def catalog : List LexicalRule :=
  [itemNumber, objectClass, procedures, description, footnoteStart, footnoteEnd, addendum,
    identifier, constant, vocabulary, loneLetter, numeral, background]

/-- The first rule that applies, with what it found. -/
def winner? (rules : List LexicalRule) (before : Option Char) (cs : List Char) :
    Option (LexicalRule × Lexeme) :=
  rules.findSome? fun rule => (rule.find? before cs).map (rule, ·)

/-- Every rule that applies, in order. -/
def applicable (rules : List LexicalRule) (before : Option Char) (cs : List Char) :
    List (LexicalRule × Lexeme) :=
  rules.filterMap fun rule => (rule.find? before cs).map (rule, ·)

end LexicalRule

end Dossier
