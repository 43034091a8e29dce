import Dossier.Format
import Dossier.Parse

namespace Dossier

/-- Why a request cannot be served. -/
inductive Failure where
  | fileMissing (path : String)
  | sampleMissing (name : String) (available : List String)
  | unreadable (reason : String)
  | undivided (request : String)
  | unknownStage (name : String)
  | unknownFormat (name : String)
  | refusedForTree (format : Format)
  | refusedForTokens (format : Format)
  | noTreeDump
  | noTokenDump (format : Format)
  | parse (error : ParseError)
deriving DecidableEq, Repr

namespace Failure

def quoted (name : String) : String := "\"" ++ name ++ "\""

def message : Failure → String
  | fileMissing path => "File not found: " ++ path
  | sampleMissing name available =>
    "File not found: Sample '" ++ name ++ "' is not available. Available samples: [" ++
      ", ".intercalate (available.map quoted) ++ "]"
  | unreadable reason => "IO error: " ++ reason
  | undivided request => "Invalid format: " ++ request
  | unknownStage name => "Invalid stage: " ++ name
  | unknownFormat name => "Invalid format type: " ++ name
  | refusedForTree format =>
    "Invalid format type: Format '" ++ format.title ++
      "' not supported for AST stage (only 'json', 'tag' and 'treeviz' are supported)"
  | refusedForTokens format =>
    "Invalid format type: Format '" ++ format.name ++ "' only works with AST stage"
  | noTreeDump =>
    "Invalid format type: Only ast-json, ast-tag and ast-treeviz formats are supported for AST stage"
  | noTokenDump format =>
    "Invalid format type: ast-" ++ format.name ++ " format only works with ast stage"
  | parse error => "Failed to parse document: " ++ error.message

end Failure

end Dossier
