import Dossier.Dump

namespace Dossier

inductive Command where
  | version
  | listFormats
  | execute (path : String) (request : String)
deriving DecidableEq, Repr

/-- An argument by its looks. -/
inductive Argument where
  | plain (text : String)
  | format (attached : Option String)
  | endOfOptions
  | unknown
deriving DecidableEq, Repr

namespace Argument

/-- The name of a long option and, behind the first `=`, what is attached to it. -/
def long (text : List Char) : Argument :=
  if text.takeWhile (· != '=') = "format".toList then
    match text.dropWhile (· != '=') with
    | [] => format none
    | _ :: value => format (some (String.ofList value))
  else unknown

def ofString (text : String) : Argument :=
  match text.toList with
  | ['-', '-'] => endOfOptions
  | '-' :: '-' :: name => long name
  | ['-', 'f'] => format none
  | '-' :: 'f' :: '=' :: value => format (some (String.ofList value))
  | '-' :: 'f' :: value => format (some (String.ofList value))
  | '-' :: _ :: _ => unknown
  | _ => plain text

end Argument

/-- What the arguments of `execute` have settled so far. -/
structure Settled where
  path : Option String := none
  request : Option String := none
deriving DecidableEq, Repr

namespace Settled

/-- There is one path. -/
def setPath (settled : Settled) (path : String) : Option Settled :=
  if settled.path.isNone then some { settled with path := some path } else none

/-- There is at most one request. -/
def setRequest (settled : Settled) (request : String) : Option Settled :=
  if settled.request.isNone then some { settled with request := some request } else none

/-- Options may stand before and behind the path. Behind `--` there are no options. -/
def read (settled : Settled) : List String → Option Settled
  | [] => some settled
  | arg :: args =>
    match Argument.ofString arg with
    | .plain path => (settled.setPath path).bind (·.read args)
    | .format (some request) => (settled.setRequest request).bind (·.read args)
    | .format none =>
      match args with
      | [] => none
      | value :: args =>
        match Argument.ofString value with
        | .plain request => (settled.setRequest request).bind (·.read args)
        | _ => none
    | .endOfOptions => args.foldlM setPath settled
    | .unknown => none

end Settled

namespace Command

def defaultRequest : String := "ast-treeviz"

/-- The command that arguments spell. The version is asked for in front of any other command. -/
def ofArgs? : List String → Option Command
  | [] => none
  | first :: args =>
    if first == "--version" || "-V".toList.isPrefixOf first.toList then some version
    else if first == "list-formats" then
      if args = [] ∨ args = ["--"] then some listFormats else none
    else if first == "execute" then do
      let settled ← Settled.read {} args
      return execute (← settled.path) (settled.request.getD defaultRequest)
    else none

/-- The exit code for arguments that spell no command. -/
def usageCode : Nat := 2

/-- What a command leaves behind. -/
structure Result where
  code : Nat
  stdout : String
  stderr : String
deriving DecidableEq, Repr

def formatList : String :=
  "Available formats:\n\n" ++ Dump.lines (Spec.available.map fun spec => "  " ++ spec.name)

def Result.ofDump : Except Failure String → Result
  | .ok output => ⟨0, output, ""⟩
  | .error failure => ⟨1, "", "Error: " ++ failure.message ++ "\n"⟩

/-- The answer to a command, given what stands at its path. -/
def answer (entry : String → Entry) : Command → Result
  | version => ⟨0, "redacted 0.1.0\n", ""⟩
  | listFormats => ⟨0, formatList, ""⟩
  | execute path request =>
    .ofDump do
      let spec ← Spec.ofName request
      Dump.ofEntry spec path (entry path)

end Command

end Dossier
