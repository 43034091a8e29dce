import Dossier.Grammar.Document
import Dossier.Lexeme.Scan

namespace Dossier

inductive ParseError where
  /-- There is no document; no match reached beyond `furthest`. -/
  | noDocument (furthest : Nat)
deriving DecidableEq, Repr

def ParseError.message : ParseError → String
  | noDocument furthest =>
    "Parse error: no document found (furthest token reached: " ++ furthest.repr ++ ")"

namespace Document

/-- The document that some tokens hold. Those after it do not matter. -/
def ofTokensBy (strategy : Strategy) (tokens : List Token) : Except ParseError Document :=
  match (Grammar.document strategy tokens .root : Rule (StateM Progress) Document) 0 |>.run .start
  with
  | (some found, _) => .ok found.value
  | (none, progress) => .error (.noDocument progress.furthest)

/-- Alternatives that cannot win are left out. -/
def ofTokens (tokens : List Token) : Except ParseError Document := ofTokensBy .pruned tokens

/-- The document that a text holds. -/
def ofText (text : String) : Except ParseError Document := ofTokens (Token.ofText text)

end Document

end Dossier
