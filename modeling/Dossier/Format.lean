namespace Dossier

inductive Stage where
  | tokens
  | tree
deriving DecidableEq, Repr

inductive Format where
  | simple
  | json
  | rawSimple
  | tag
  | outline
deriving DecidableEq, Repr

namespace Stage

def name : Stage → String
  | tokens => "token"
  | tree => "ast"

def ofName? (name : String) : Option Stage :=
  match name with
  | "token" => some tokens
  | "ast" => some tree
  | _ => none

end Stage

namespace Format

def name : Format → String
  | simple => "simple"
  | json => "json"
  | rawSimple => "raw-simple"
  | tag => "tag"
  | outline => "treeviz"

def ofName? (name : String) : Option Format :=
  match name with
  | "simple" => some simple
  | "json" => some json
  | "raw-simple" => some rawSimple
  | "tag" => some tag
  | "treeviz" => some outline
  | _ => none

/-- The name by which a refusal speaks of a format. -/
def title : Format → String
  | simple => "Simple"
  | json => "Json"
  | rawSimple => "RawSimple"
  | tag => "AstTag"
  | outline => "AstTreeviz"

end Format

end Dossier
