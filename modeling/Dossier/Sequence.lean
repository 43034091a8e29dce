import Dossier.Outcome

namespace Dossier

/-- Steps in a row: each one continues where the one before it ended, and the whole starts where its
first successful step started. -/
structure Sequence where
  start : Option Nat
  position : Nat
deriving DecidableEq, Repr

namespace Sequence

variable {α : Type}

/-- Nothing consumed yet. -/
def empty (position : Nat) : Sequence := ⟨none, position⟩

def advance (seq : Sequence) (p : Parsed α) : Sequence := ⟨seq.start.or (some p.start), p.next⟩

/-- A failed step leaves the sequence where it is. -/
def step (seq : Sequence) (outcome : Outcome α) : Option (α × Sequence) :=
  outcome.map fun p => (p.value, seq.advance p)

/-- A sequence that consumed nothing is empty at its position. -/
def finish (seq : Sequence) (value : α) : Parsed α :=
  ⟨value, seq.start.getD seq.position, seq.position⟩

@[simp] theorem position_empty (position : Nat) : (empty position).position = position := rfl

@[simp] theorem position_advance (seq : Sequence) (p : Parsed α) :
    (seq.advance p).position = p.next := rfl

@[simp] theorem advance_some (start position : Nat) (p : Parsed α) :
    (Sequence.mk (some start) position).advance p = ⟨some start, p.next⟩ := rfl

@[simp] theorem finish_some (start position : Nat) (value : α) :
    (Sequence.mk (some start) position).finish value = ⟨value, start, position⟩ := rfl

end Sequence

/-- A way to find something at or after a position. -/
abbrev Rule (m : Type → Type) (α : Type) : Type := Nat → m (Outcome α)

namespace Rule

variable {m : Type → Type} [Monad m] {α β : Type}

/-- Finds nothing. -/
def never : Rule m α := fun _ => pure none

def read (f : α → Option β) (rule : Rule m α) : Rule m β := fun pos => do
  return (← rule pos).read f

def as (f : α → β) (rule : Rule m α) : Rule m β := fun pos => do
  return (← rule pos).as f

end Rule

/-- The body of a rule: it moves a sequence along or fails. -/
def Steps (m : Type → Type) (α : Type) : Type := Sequence → m (Option (α × Sequence))

namespace Steps

variable {m : Type → Type} [Monad m] {α : Type}

/-- The first step that fails ends the body. -/
instance : Monad (Steps m) where
  pure value := fun seq => pure (some (value, seq))
  bind steps next := fun seq => do
    match ← steps seq with
    | none => return none
    | some (value, seq) => next value seq

def fail : Steps m α := fun _ => pure none

/-- A required step. -/
def take (rule : Rule m α) : Steps m α := fun seq => do
  return seq.step (← rule seq.position)

/-- A step that may fail, and then moves nothing. -/
def perhaps (rule : Rule m α) : Steps m (Option α) := fun seq => do
  match seq.step (← rule seq.position) with
  | none => return some (none, seq)
  | some (value, seq) => return some (some value, seq)

/-- What a required step would find, without taking it. -/
def ahead (rule : Rule m α) : Steps m (Parsed α) := fun seq => do
  return (← rule seq.position).map (·, seq)

/-- The step to something already found. -/
def moveTo (p : Parsed α) : Steps m Unit := fun seq => pure (some ((), seq.advance p))

/-- The rule whose body these steps are. -/
def rule (steps : Steps m α) : Rule m α := fun pos => do
  return (← steps (.empty pos)).map fun (value, seq) => seq.finish value

section Plain

variable {β : Type}

theorem run_rule (steps : Steps Id α) (pos : Nat) :
    Id.run (steps.rule pos) = (Id.run (steps (.empty pos))).map fun r => r.2.finish r.1 := rfl

theorem run_pure (value : α) (seq : Sequence) :
    Id.run ((pure value : Steps Id α) seq) = some (value, seq) := rfl

theorem run_bind (steps : Steps Id α) (next : α → Steps Id β) (seq : Sequence) :
    Id.run ((steps >>= next) seq) =
      (Id.run (steps seq)).bind fun r => Id.run (next r.1 r.2) := by
  simp only [bind, Id.run]
  split <;> simp_all [pure]

theorem run_take (rule : Rule Id α) (seq : Sequence) :
    Id.run (take rule seq) =
      (Id.run (rule seq.position)).map fun p => (p.value, seq.advance p) := rfl

theorem run_perhaps (rule : Rule Id α) (seq : Sequence) :
    Id.run (perhaps rule seq) = some (match Id.run (rule seq.position) with
      | none => (none, seq)
      | some p => (some p.value, seq.advance p)) := by
  simp only [perhaps, Sequence.step, Id.run_bind]
  rcases Id.run (rule seq.position) with _ | p <;> rfl

theorem run_ahead (rule : Rule Id α) (seq : Sequence) :
    Id.run (ahead rule seq) = (Id.run (rule seq.position)).map fun p => (p, seq) := rfl

theorem run_moveTo (p : Parsed α) (seq : Sequence) :
    Id.run (moveTo p seq) = some ((), seq.advance p) := rfl

end Plain

end Steps

end Dossier
