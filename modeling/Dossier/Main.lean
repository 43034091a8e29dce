import Dossier.Command

open Dossier

/-- The system's words for an error and its number, which may come negated. -/
def systemReason (code : UInt32) (details : String) : String :=
  details.capitalize ++ " (os error " ++ (min code (0 - code)).toNat.repr ++ ")"

/-- The entry at a path of the file system. Where a step of the path is no folder, nothing stands
behind it. -/
def readEntry (path : String) : IO Entry := do
  try
    return .file (← IO.FS.readBinFile path)
  catch
    | .noFileOrDirectory .. => return .missing
    | .inappropriateType (some _) _ _ => return .missing
    | .inappropriateType none code details => return .unreadable (systemReason code details)
    | .permissionDenied _ code details => return .unreadable (systemReason code details)
    | error => return .unreadable (toString error)

def main (args : List String) : IO UInt32 := do
  match Command.ofArgs? args with
  | none =>
    IO.eprint "Usage: redacted execute <PATH> [--format <FORMAT>] | list-formats | --version\n"
    return Command.usageCode.toUInt32
  | some command =>
    let entry ← match command with
      | .execute path _ => readEntry path
      | _ => pure .missing
    let result := command.answer fun _ => entry
    IO.print result.stdout
    IO.eprint result.stderr
    return result.code.toUInt32
