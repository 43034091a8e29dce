import Dossier.Token

namespace Dossier

/-- What surrounds a search: the kind of token it must not pass over, and how many levels of nesting
are left to it. -/
structure Context where
  forbidden : Option Kind
  room : Nat
deriving DecidableEq, Repr, Hashable

namespace Context

/-- How many conditionals, sums and calls may enclose one another. -/
def limit : Nat := 64

def root : Context := ⟨none, limit⟩

def depth (ctx : Context) : Nat := limit - ctx.room

def forbid (kind : Kind) (ctx : Context) : Context := { ctx with forbidden := some kind }

/-- Whether a search may not pass over tokens of this kind. -/
def forbids (ctx : Context) (kind : Kind) : Bool :=
  match ctx.forbidden with
  | none => false
  | some forbidden => forbidden = kind

@[simp] theorem forbids_iff {ctx : Context} {kind : Kind} :
    ctx.forbids kind ↔ ctx.forbidden = some kind := by
  obtain ⟨_ | _, _⟩ := ctx <;> simp [forbids]

/-- One level deeper, as long as there is room. -/
def nested? (ctx : Context) : Option Context :=
  match ctx.room with
  | 0 => none
  | room + 1 => some { ctx with room }

end Context

end Dossier
