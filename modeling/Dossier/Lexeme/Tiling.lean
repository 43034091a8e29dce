import Dossier.Lexeme.Scan

namespace Dossier

namespace LexicalRule

/-- What a rule finds at a byte offset of a text. -/
def findAt? (text : String) (offset : Nat) (rule : LexicalRule) : Option Lexeme := do
  let (before, cs) ← placeAt? none offset text.toList
  rule.find? before cs

/-- What the catalog finds at a byte offset of a text, and the offset at which that ends. -/
def recognize? (text : String) (offset : Nat) : Option (LexicalRule × Lexeme × Nat) := do
  let (before, cs) ← placeAt? none offset text.toList
  let (rule, lexeme) ← winner? catalog before cs
  return (rule, lexeme, offset + byteLength lexeme.text)

end LexicalRule

namespace Spanned

/-- The tokens of lexemes that follow one another from an offset on. -/
def along : Nat → List Lexeme → List Spanned
  | _, [] => []
  | start, lexeme :: lexemes =>
    let stop := start + byteLength lexeme.text
    lexeme.token.toList.map (⟨start, stop, ·⟩) ++ along stop lexemes

/-- Asking the catalog at an offset, and then wherever the lexeme ends, comes to the end of the text
after these tokens. -/
inductive Loop (text : String) : (offset : Nat) → List Spanned → Prop
  | ended {offset : Nat} (hend : text.utf8ByteSize ≤ offset) : Loop text offset []
  | found {offset stop : Nat} {rule : LexicalRule} {lexeme : Lexeme} {later : List Spanned}
      (hfound : LexicalRule.recognize? text offset = some (rule, lexeme, stop))
      (hlater : Loop text stop later) :
      Loop text offset (lexeme.token.toList.map (⟨offset, stop, ·⟩) ++ later)

/-- The part of a text that a token was read from. -/
def word (text : String) (s : Spanned) : String := String.Pos.Raw.extract text ⟨s.start⟩ ⟨s.stop⟩

/-- The same token behind that many more bytes of text. -/
def shift (bytes : Nat) (s : Spanned) : Spanned := ⟨bytes + s.start, bytes + s.stop, s.token⟩

end Spanned

/-- The tokens tile a text: their stretches and the single characters that are no part of any token
make up the text, and each of them is what the catalog finds where it begins. -/
structure Tiling (text : String) (spans : List Spanned) : Prop where
  /-- The loop over the text comes to an end, and to these tokens only. -/
  terminates (others : List Spanned) : Spanned.Loop text 0 others ↔ others = spans
  nonempty : ∀ s ∈ spans, s.start < s.stop
  within : ∀ s ∈ spans, s.stop ≤ text.utf8ByteSize
  /-- No stretch begins or ends inside a character. -/
  bounds : ∀ s ∈ spans,
    String.Pos.Raw.IsValid text ⟨s.start⟩ ∧ String.Pos.Raw.IsValid text ⟨s.stop⟩
  ordered : spans.Pairwise fun s t => s.stop ≤ t.start
  recognized : ∀ s ∈ spans, ∃ rule,
    LexicalRule.recognize? text s.start = some (rule, ⟨(s.word text).toList, some s.token⟩, s.stop)
  /-- At a character outside all stretches every rule but the last declines. -/
  ignored (front rest : List Char) (c : Char) : text.toList = front ++ c :: rest →
    (∀ s ∈ spans, ¬ (s.start ≤ byteLength front ∧ byteLength front < s.stop)) →
    (∀ rule : LexicalRule, rule ≠ .background → rule.findAt? text (byteLength front) = none) ∧
      LexicalRule.recognize? text (byteLength front) =
        some (.background, ⟨[c], none⟩, byteLength front + c.utf8Size)
  complete : ∃ lexemes : List Lexeme, lexemes.flatMap Lexeme.text = text.toList ∧
    Spanned.along 0 lexemes = spans ∧
      ∀ lexeme ∈ lexemes, lexeme.token = none → ∃ c, lexeme.text = [c]
  /-- The catalog finds nothing only at the end of the text and past it. -/
  total (offset : Nat)
    (hoffset : String.Pos.Raw.IsValid text ⟨offset⟩ ∨ text.utf8ByteSize ≤ offset) :
    LexicalRule.recognize? text offset = none ↔ text.utf8ByteSize ≤ offset

end Dossier
