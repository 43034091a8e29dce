import Dossier.Failure

namespace Dossier

/-- A request: which stage of reading to show, and how. -/
structure Spec where
  stage : Stage
  format : Format
deriving DecidableEq, Repr

namespace Spec

def name (spec : Spec) : String := spec.stage.name ++ "-" ++ spec.format.name

/-- Every pair of a stage and a format that goes with it. -/
def available : List Spec :=
  [⟨.tokens, .simple⟩, ⟨.tokens, .json⟩, ⟨.tokens, .rawSimple⟩, ⟨.tree, .json⟩, ⟨.tree, .tag⟩,
    ⟨.tree, .outline⟩]

/-- A request names its stage, then a hyphen, then its format. -/
def ofName (request : String) : Except Failure Spec := do
  let stageName := request.toList.takeWhile (· != '-')
  match request.toList.dropWhile (· != '-') with
  | [] => throw (.undivided request)
  | _ :: formatName =>
    let some stage := Stage.ofName? (String.ofList stageName)
      | throw (.unknownStage (String.ofList stageName))
    let some format := Format.ofName? (String.ofList formatName)
      | throw (.unknownFormat (String.ofList formatName))
    match stage, format with
    | .tree, .simple | .tree, .rawSimple => throw (.refusedForTree format)
    | .tokens, .tag | .tokens, .outline => throw (.refusedForTokens format)
    | _, _ => return ⟨stage, format⟩

end Spec

end Dossier
