import Dossier.Folder
import Dossier.Spec
import Dossier.Tree.Json
import Dossier.Tree.Markup
import Dossier.Tree.Outline

namespace Dossier

def Spanned.describe (s : Spanned) : String :=
  s.start.repr ++ ".." ++ s.stop.repr ++ " " ++ s.token.describe

namespace Dump

/-- Each line ends in a line break. -/
def lines (texts : List String) : String := String.join (texts.map (· ++ "\n"))

/-- Tokens can be listed or written as JSON. Their stretches of text are not known here. -/
def ofTokens (format : Format) (tokens : List Token) : Except Failure String :=
  match format with
  | .simple | .rawSimple => .ok (lines (tokens.map Token.describe))
  | .json => .ok (Json.render (.list (tokens.map Token.toJson)))
  | .tag | .outline => .error (.noTokenDump format)

/-- Tokens with their stretches of text, one a line. -/
def ofSpanned (tokens : List Spanned) : String := lines (tokens.map Spanned.describe)

/-- Documents can be written as JSON, as markup or as an outline. -/
def ofDocument (format : Format) (doc : Document) : Except Failure String :=
  match format with
  | .json => .ok doc.toJson.render
  | .tag => .ok doc.markup
  | .outline => .ok doc.outline
  | .simple | .rawSimple => .error .noTreeDump

/-- The dump that a request asks for. A text without a document fails before its format does. -/
def ofText (spec : Spec) (text : String) : Except Failure String :=
  match spec.stage, spec.format with
  | .tokens, .rawSimple => .ok (ofSpanned (Spanned.ofText text))
  | .tokens, format => ofTokens format (Token.ofText text)
  | .tree, format =>
    match Document.ofText text with
    | .error error => .error (.parse error)
    | .ok doc => ofDocument format doc

end Dump

/-- The dump of the file at a path. -/
def Dump.ofEntry (spec : Spec) (path : String) (entry : Entry) : Except Failure String := do
  Dump.ofText spec (← entry.text path)

end Dossier
