import Dossier.Grammar.Progress
import Dossier.Sequence

namespace Dossier

/-- The first token of a kind in a stream whose first token has this position. -/
def firstOf (ctx : Context) (kind : Kind) (position : Nat) : List Token → Outcome Token
  | [] => none
  | token :: tokens =>
    if token.kind = kind then some ⟨token, position, position + 1⟩
    else if ctx.forbids token.kind then none
    else firstOf ctx kind (position + 1) tokens

/-- The position of the first token of one of several kinds, whatever lies before it. -/
def peek (tokens : List Token) (kinds : List Kind) (pos : Nat) : Option Nat :=
  ((tokens.drop pos).findIdx? fun token => kinds.contains token.kind).map (pos + ·)

/-- The end of the stream starts at its length, behind every token there is. -/
def endOfStream (tokens : List Token) (pos : Nat) : Outcome Unit :=
  if tokens.length ≤ pos then some ⟨(), tokens.length, pos⟩ else none

namespace Grammar

variable {m : Type → Type} [Monad m] [Bookkeeping m] (tokens : List Token) (ctx : Context)

/-- A search passes over whatever it does not look for, except for the forbidden kind, which ends
it; the forbidden kind itself can be looked for. -/
def token (kind : Kind) : Rule m Token := fun pos => do
  match firstOf ctx kind pos (tokens.drop pos) with
  | none => return none
  | some found =>
    reach found.next
    return some found

/-- A token that only has to be there. -/
def expect (kind : Kind) : Steps m Unit := do
  let _ ← Steps.take (token tokens ctx kind)
  return ()

/-- A token that may be left out. -/
def allow (kind : Kind) : Steps m Unit := do
  let _ ← Steps.perhaps (token tokens ctx kind)
  return ()

def identifier : Rule m String :=
  (token tokens ctx .identifier).read fun
    | .identifier name => some name
    | _ => none

def constantValue : Rule m Nat :=
  (token tokens ctx .constant).read fun
    | .constant value => some value
    | _ => none

def verb : Rule m Verb :=
  (token tokens ctx .verb).read fun
    | .verb verb => some verb
    | _ => none

/-- The next verb, which has to be `is`. -/
def copula : Rule m Verb :=
  (verb tokens ctx).read fun
    | .is => some .is
    | _ => none

def itemNumber : Rule m Nat :=
  (token tokens ctx .itemNumber).read fun
    | .itemNumber number => some number
    | _ => none

def objectClass : Rule m ObjectClass :=
  (token tokens ctx .objectClass).read fun
    | .objectClass c => some c
    | _ => none

def label : Rule m Label := fun pos => do
  let addendum ← (token tokens ctx .addendum).read (fun
    | .addendum number letter => some (.addendum number letter)
    | _ => none) pos
  let description ← (token tokens ctx .description).as (fun _ => .description) pos
  return Candidate.chooseNearest [⟨addendum, false⟩, ⟨description, false⟩]

end Grammar

end Dossier
