import Dossier.Grammar.Document

namespace Dossier

/-- What a production comes to on a fresh stream. -/
def Production.outcome (p : Production) (tokens : List Token) (ctx : Context) (pos : Nat) :
    Outcome p.Value :=
  ((p.rule .pruned tokens ctx pos : StateM Progress _).run .start).1

/-- What a stream can be asked: where a token of some kinds lies, or what a call comes to. -/
inductive Question where
  | peek (kinds : List Kind) (pos : Nat)
  | call (call : Call)
deriving DecidableEq, Repr

namespace Question

abbrev Answer : Question → Type
  | peek _ _ => Option Nat
  | call c => c.Result

variable {m : Type → Type} [Monad m] [Bookkeeping m]

def answer (tokens : List Token) : (question : Question) → m question.Answer
  | peek kinds pos => pure (Dossier.peek tokens kinds pos)
  | call c => c.production.rule .pruned tokens c.context c.position

end Question

/-- An answer, and the furthest position that any match had reached by then. -/
structure Reply where
  question : Question
  answer : question.Answer
  furthest : Nat

namespace Session

/-- The replies of one stream, whose books are passed on from question to question. -/
def replies (tokens : List Token) (progress : Progress) : List Question → List Reply
  | [] => []
  | question :: questions =>
    let done := (question.answer tokens : StateM Progress _).run progress
    ⟨question, done.1, done.2.furthest⟩ :: replies tokens done.2 questions

/-- Nothing is remembered: every answer is that of a fresh stream. The mark is passed on. -/
def freshReplies (tokens : List Token) (mark : Mark) : List Question → List Reply
  | [] => []
  | question :: questions =>
    let search : StateM Mark _ := question.answer tokens
    let after := (search.run mark).2
    ⟨question, (search.run .start).1, after.furthest⟩ :: freshReplies tokens after questions

end Session

end Dossier
