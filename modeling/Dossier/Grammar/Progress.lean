import Dossier.Grammar.Production
import Std.Data.DHashMap

namespace Dossier

/-- What is kept while the grammar runs. The rules are written once, over any monad that can keep
these books: `Id` keeps none, `StateM Mark` keeps the furthest position that a match has reached,
and `StateM Progress` keeps the results already known as well. -/
class Bookkeeping (m : Type → Type) where
  /-- A match ended at this position. -/
  reach : Nat → m Unit
  /-- The result of a call, which need not be worked out twice. -/
  remember (call : Call) (work : m call.Result) : m call.Result

export Bookkeeping (reach remember)

instance : Bookkeeping Id where
  reach _ := pure ()
  remember _ work := work

/-- The furthest position that any match has reached. -/
structure Mark where
  furthest : Nat
deriving DecidableEq, Repr

namespace Mark

def start : Mark := ⟨0⟩

def reach (position : Nat) (mark : Mark) : Mark := ⟨max mark.furthest position⟩

instance : Bookkeeping (StateM Mark) where
  reach position := modify (Mark.reach position)
  remember _ work := work

end Mark

/-- A mark, and the results of the calls that were made. -/
structure Progress extends Mark where
  known : Std.DHashMap Call Call.Result

namespace Progress

def start : Progress := ⟨.start, ∅⟩

def reach (position : Nat) (progress : Progress) : Progress :=
  { progress with toMark := progress.toMark.reach position }

def note (call : Call) (result : call.Result) (progress : Progress) : Progress :=
  { progress with known := progress.known.insert call result }

/-- A call that was made before is answered from memory. -/
instance : Bookkeeping (StateM Progress) where
  reach position := modify (Progress.reach position)
  remember call work := do
    match (← get).known.get? call with
    | some result => return result
    | none =>
      let result ← work
      modify (note call result)
      return result

end Progress

end Dossier
