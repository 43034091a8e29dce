import Dossier.Context
import Dossier.Tree

namespace Dossier

/-- `If <subject> is <value>, <target> will generate a new instance.` -/
structure Clause where
  subject : String
  value : Nat
  target : String
deriving DecidableEq, Repr

namespace Clause

def words (c : Clause) : List Token :=
  [.ifWord, .identifier c.subject, .verb .is, .constant c.value, .comma, .identifier c.target,
    .increment, .period]

/-- The condition with its consequence and whatever is read behind it. -/
def branch (c : Clause) (rest : Block) : Statement :=
  .conditional ⟨.variable c.subject, .constant c.value⟩ (.increment c.target :: rest)

/-- Without room for the condition its words are those of an assignment. -/
def assignment (c : Clause) : Statement := .assignment c.subject (.constant c.value)

/-- What clauses are read as, one behind the other, where this much room is left. Each condition
owns all the clauses behind it, so every one of them is a level deeper than the one before. -/
def reading : (room : Nat) → List Clause → Block
  | _, [] => []
  | 0, c :: cs => c.assignment :: reading 0 cs
  | room + 1, c :: cs => [c.branch (reading room cs)]

theorem reading_zero (cs : List Clause) : reading 0 cs = cs.map assignment := by
  induction cs with
  | nil => rfl
  | cons c cs ih => rw [reading, List.map_cons, ih]

/-- Each clause owns all that follows it as long as there is room. -/
theorem reading_drop {cs : List Clause} {c : Clause} {room i : Nat} (hroom : i < room)
    (hc : cs[i]? = some c) :
    reading (room - i) (cs.drop i) = [c.branch (reading (room - (i + 1)) (cs.drop (i + 1)))] := by
  obtain ⟨hlt, rfl⟩ := List.getElem?_eq_some_iff.mp hc
  rw [List.drop_eq_getElem_cons hlt, show room - i = room - (i + 1) + 1 by omega, reading]

/-- Where the room or the clauses have come to an end, only assignments are left. -/
theorem reading_drop_min (room : Nat) (cs : List Clause) :
    reading (room - min cs.length room) (cs.drop (min cs.length room)) =
      (cs.drop (min cs.length room)).map assignment := by
  rcases Nat.le_total cs.length room with hle | hle
  · rw [Nat.min_eq_left hle, List.drop_length, reading, List.map_nil]
  · rw [Nat.min_eq_right hle, Nat.sub_self, reading_zero]

end Clause

end Dossier
