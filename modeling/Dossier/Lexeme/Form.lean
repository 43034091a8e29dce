import Dossier.Lexeme

namespace Dossier

namespace Lexeme

/-- A run of such characters that goes on as far as it can. -/
structure IsRun (p : Char → Bool) (run rest : List Char) : Prop where
  nonempty : run ≠ []
  all : ∀ c ∈ run, p c = true
  stops : rest.head?.any p = false

end Lexeme

namespace LexicalRule

open Lexeme

/-- The fixed wordings of a rule and the tokens they stand for. -/
def wordings : LexicalRule → List (String × Token)
  | objectClass => ObjectClass.all.map fun c => ("Object Class: " ++ c.name, .objectClass c)
  | procedures => [("Special Containment Procedures:", .procedures)]
  | description => [("Description:", .description)]
  | footnoteStart => [("[[footnote]]", .footnoteStart)]
  | footnoteEnd => [("[[/footnote]]", .footnoteEnd)]
  | constant => quantities
  | vocabulary => Lexeme.vocabulary
  | itemNumber | addendum | identifier | loneLetter | numeral | background => []

/-- Whether a rule knows fixed wordings only. -/
def isFixed : LexicalRule → Bool
  | objectClass | procedures | description | footnoteStart | footnoteEnd | vocabulary => true
  | itemNumber | addendum | identifier | constant | loneLetter | numeral | background => false

/-- The rule can read this lexeme where it stands between `before` and `rest`. -/
inductive Matches : (rule : LexicalRule) → (before : Option Char) → Lexeme → (rest : List Char) →
    Prop
  | wording {rule : LexicalRule} {before : Option Char} {rest : List Char} {wording : String}
      {token : Token} (hmem : (wording, token) ∈ rule.wordings) :
      Matches rule before ⟨wording.toList, some token⟩ rest
  | itemNumber {before : Option Char} {digits rest : List Char} {n : Nat}
      (hrun : IsRun Char.isDigit digits rest) (hn : number? digits = some n) :
      Matches itemNumber before ⟨"Item #: SCP-".toList ++ digits, some (.itemNumber n)⟩ rest
  | addendum {before : Option Char} {digits rest : List Char} {n : Nat}
      (hrun : IsRun Char.isDigit digits rest) (hn : number? digits = some n)
      (hletter : letter? rest = none) :
      Matches addendum before ⟨"Addendum ".toList ++ digits, some (.addendum n none)⟩ rest
  | addendumLetter {before : Option Char} {digits rest : List Char} {n : Nat} {c : Char}
      (hrun : IsRun Char.isDigit digits ('-' :: c :: rest)) (hn : number? digits = some n)
      (hletter : Character.isAsciiWord c = true) :
      Matches addendum before
        ⟨"Addendum ".toList ++ digits ++ ['-', c], some (.addendum n (some c))⟩ rest
  | reference {before : Option Char} {digits parts rest : List Char}
      (hdigits : IsRun Char.isDigit digits ('-' :: (parts ++ rest)))
      (hparts : IsRun Char.isDigit parts rest) :
      Matches identifier before
        ⟨"SCP-".toList ++ digits ++ '-' :: parts,
          some (.identifier (String.ofList ("SCP-".toList ++ digits ++ '-' :: parts)))⟩ rest
  | property {before : Option Char} {word rest : List Char}
      (hword : IsRun Character.isAsciiWord word (" of".toList ++ rest)) :
      Matches identifier before
        ⟨"the ".toList ++ word ++ " of".toList, some (.identifier (String.ofList word))⟩ rest
  | group {before : Option Char} {digits rest : List Char} {n : Nat}
      (hrun : IsRun Char.isDigit digits rest) (hn : number? digits = some n) :
      Matches constant before ⟨"GoI-".toList ++ digits, some (.constant n)⟩ rest
  | loneLetter {before : Option Char} {c : Char} {rest : List Char}
      (hbefore : startsWord before = true) (hletter : 'b' ≤ c ∧ c ≤ 'z')
      (hafter : endsWord rest = true) :
      Matches loneLetter before ⟨[c], some (.identifier c.toString)⟩ rest
  | numeral {before : Option Char} {digits rest : List Char} {n : Nat}
      (hbefore : startsWord before = true) (hrun : IsRun Char.isDigit digits rest)
      (hafter : endsWord rest = true) (hn : number? digits = some n) :
      Matches numeral before ⟨digits, some (.constant n)⟩ rest
  | background {before : Option Char} {c : Char} {rest : List Char} :
      Matches background before ⟨[c], none⟩ rest

end LexicalRule

end Dossier
