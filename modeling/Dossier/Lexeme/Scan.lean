import Dossier.Lexeme

namespace Dossier

/-- A token and the stretch of text it was read from. -/
structure Spanned where
  start : Nat
  stop : Nat
  token : Token
deriving DecidableEq, Repr

/-- The length of the text that some characters make up. -/
def byteLength (cs : List Char) : Nat := cs.foldr (fun c length => c.utf8Size + length) 0

namespace Spanned

/-- The tokens of a text that follows `before` and begins at offset `start`. -/
def scan (rules : List LexicalRule) (before : Option Char) (start : Nat) :
    List Char → List Spanned
  | [] => []
  | c :: cs =>
    match LexicalRule.winner? rules before (c :: cs) with
    | none => []
    | some (_, lexeme) =>
      let stop := start + byteLength lexeme.text
      let later := scan rules (lexeme.text.getLast?.or before) stop
        (cs.drop (lexeme.text.length - 1))
      match lexeme.token with
      | none => later
      | some token => ⟨start, stop, token⟩ :: later
termination_by cs => cs.length

/-- The tokens of a text, each with its stretch. -/
def ofText (text : String) : List Spanned := scan LexicalRule.catalog none 0 text.toList

end Spanned

/-- The tokens of a text. -/
def Token.ofText (text : String) : List Token := (Spanned.ofText text).map Spanned.token

/-- The character left of a byte offset and the text from there on. Past the end and inside a
character there is no such place. -/
def placeAt? (before : Option Char) (offset : Nat) : List Char → Option (Option Char × List Char)
  | [] => if offset = 0 then some (before, []) else none
  | c :: cs =>
    if offset = 0 then some (before, c :: cs)
    else if offset < c.utf8Size then none
    else placeAt? (some c) (offset - c.utf8Size) cs

end Dossier
