import Dossier.Dump

namespace Dossier

structure Sample where
  name : String
  lines : List String
deriving DecidableEq, Repr

namespace Sample

def headerOnly : Sample where
  name := "000-header-only.redacted"
  lines := [
    "Item #: SCP-001",
    "Object Class: Thaumiel",
    "Special Containment Procedures: Classified"]

def conditional : Sample where
  name := "010-conditional.redacted"
  lines := [
    "Item #: SCP-000",
    "Object Class: Safe",
    "Special Containment Procedures: If x is 1, x will generate a new instance."]

def mixedBody : Sample where
  name := "020-mixed-body.redacted"
  lines := [
    "Item #: SCP-4001",
    "Object Class: Euclid",
    "Special Containment Procedures: SCP-4001-1 has unique features.",
    "The square containment chamber of the n of must be observed.",
    "[!-- Staff rotate weekly --]",
    "See Addendum 1-a.",
    "-----",
    "Description: (the sum of the digits of and GoI-2) does not cause paradoxes.",
    "-----",
    "Addendum 1-a",
    "the n of will generate a new instance."]

def missingHeader : Sample where
  name := "030-missing-header.redacted"
  lines := [
    "Object Class: Safe",
    "Special Containment Procedures: SCP-2-1 has unique features."]

def proseNotation : Sample where
  name := "040-prose-notation.redacted"
  lines := [
    "Item #: SCP-040",
    "Object Class: Safe",
    "Special Containment Procedures: Staff e.g. 3 guards."]

def all : List Sample := [headerOnly, conditional, mixedBody, missingHeader, proseNotation]

def names : List String := all.map name

def text (sample : Sample) : String := Dump.lines sample.lines

/-- The text of the sample with this name. -/
def textOf (name : String) : Except Failure String :=
  match all.find? fun sample => sample.name == name with
  | some sample => .ok sample.text
  | none => .error (.sampleMissing name names)

def tokensOf (name : String) : Except Failure (List Token) := do
  return Token.ofText (← textOf name)

def documentOf (name : String) : Except Failure Document := do
  match Document.ofText (← textOf name) with
  | .ok doc => return doc
  | .error error => throw (.parse error)

/-- A sample's dump. The request is looked at before the name. -/
def dumpOf (name request : String) : Except Failure String := do
  let spec ← Spec.ofName request
  Dump.ofText spec (← textOf name)

end Sample

end Dossier
