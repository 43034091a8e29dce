namespace Dossier

/-- What was found, the position of its first token and the position after its last. -/
structure Parsed (α : Type) where
  value : α
  start : Nat
  next : Nat
deriving DecidableEq, Repr

/-- There is one kind of failure: nothing was found. -/
abbrev Outcome (α : Type) := Option (Parsed α)

namespace Outcome

/-- The same stretch of tokens, read as something else or refused. -/
def read {α β : Type} (f : α → Option β) (outcome : Outcome α) : Outcome β :=
  outcome.bind fun p => (f p.value).map fun value => ⟨value, p.start, p.next⟩

/-- The same stretch of tokens with another value. -/
def as {α β : Type} (f : α → β) (outcome : Outcome α) : Outcome β :=
  outcome.map fun p => ⟨f p.value, p.start, p.next⟩

/-- Where the nearest of several outcomes starts. -/
def nearestStart {α : Type} (outcomes : List (Outcome α)) : Option Nat :=
  (outcomes.filterMap fun outcome => outcome.map Parsed.start).min?

end Outcome

/-- An outcome that competes with others. A deprioritized one wins no tie. -/
structure Candidate (α : Type) where
  outcome : Outcome α
  deprioritized : Bool := false

namespace Candidate

variable {α : Type}

/-- A candidate wins by a smaller start, or on equal starts by a smaller end. -/
def nearer (best : Outcome α) (candidate : Candidate α) : Outcome α :=
  match candidate.outcome, best with
  | none, _ => best
  | some p, none => some p
  | some p, some b =>
    if p.start < b.start ∨ p.start = b.start ∧ p.next < b.next ∧ ¬ candidate.deprioritized then
      some p
    else some b

/-- A candidate wins by a smaller start, or on equal starts by a greater end. -/
def longer (best : Outcome α) (candidate : Candidate α) : Outcome α :=
  match candidate.outcome, best with
  | none, _ => best
  | some p, none => some p
  | some p, some b =>
    if p.start < b.start ∨ p.start = b.start ∧ b.next < p.next then some p else some b

/-- Of rival outcomes the one that skipped the fewest tokens, then the shortest. -/
def chooseNearest (candidates : List (Candidate α)) : Outcome α := candidates.foldl nearer none

/-- Of rival outcomes the one that skipped the fewest tokens, then the longest. -/
def chooseLongest (candidates : List (Candidate α)) : Outcome α := candidates.foldl longer none

end Candidate

end Dossier
