import Dossier.Failure

namespace Dossier

/-- What stands at a path. -/
inductive Entry where
  | missing
  | unreadable (reason : String)
  | file (bytes : ByteArray)

namespace Entry

def directory : Entry := unreadable "Is a directory (os error 21)"

/-- The text at a path. -/
def text (path : String) : Entry → Except Failure String
  | missing => .error (.fileMissing path)
  | unreadable reason => .error (.unreadable reason)
  | file bytes =>
    match String.fromUTF8? bytes with
    | none => .error (.unreadable "stream did not contain valid UTF-8")
    | some text => .ok text

end Entry

/-- A folder that holds files and nothing else. -/
structure Folder where
  files : List (String × ByteArray)

namespace Folder

/-- What the steps of a path lead to, from the folder or from some place above it. Above it stand
folders only: their names are unknown, and the topmost is the one above itself. A file ends the
path, for even a step that stays in place asks for a folder. -/
def walk (folder : Folder) (above : Bool) : List String → Entry
  | [] => .directory
  | step :: steps =>
    if step == "" || step == "." then walk folder above steps
    else if step == ".." then walk folder true steps
    else if above || !steps.isEmpty then .missing
    else (folder.files.lookup step).elim .missing .file

/-- The most bytes that a path may have. -/
def longestPath : Nat := 4095

/-- What a path leads to. One that starts with a slash starts from the topmost folder. -/
def entry (folder : Folder) (path : String) : Entry :=
  if path.utf8ByteSize > longestPath then .missing
  else match path.splitOn "/" with
    | [""] => .missing
    | "" :: steps => folder.walk true steps
    | steps => folder.walk false steps

end Folder

end Dossier
