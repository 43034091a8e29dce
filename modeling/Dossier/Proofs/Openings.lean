import Dossier.Proofs.Spans

namespace Dossier

variable {tokens : List Token} {kinds : List Kind} {α β : Type}

/-- Something looked for from `pos` on starts at a token of one of these kinds. -/
structure Opens (tokens : List Token) (kinds : List Kind) (pos start : Nat) : Prop where
  le : pos ≤ start
  opening : ∃ t, tokens[start]? = some t ∧ t.kind ∈ kinds

/-- Whatever the rule finds starts at a token of one of these kinds. -/
def Rule.OpensWith (rule : Rule Id α) (tokens : List Token) (kinds : List Kind) : Prop :=
  ∀ pos p, Id.run (rule pos) = some p → Opens tokens kinds pos p.start

namespace Rule.OpensWith

variable {rule : Rule Id α}

theorem as (f : α → β) (h : rule.OpensWith tokens kinds) : (rule.as f).OpensWith tokens kinds := by
  intro pos p hp
  obtain ⟨q, hq, rfl⟩ := Rule.run_as.mp hp
  exact h pos q hq

/-- Looking ahead for the kinds something opens with goes no further than to where it starts. -/
theorem peek_le {pos : Nat} {p : Parsed α} (h : rule.OpensWith tokens kinds)
    (hp : Id.run (rule pos) = some p) : ∃ i, peek tokens kinds pos = some i ∧ i ≤ p.start := by
  obtain ⟨hle, t, ht, hmem⟩ := h pos p hp
  exact Dossier.peek_le hle ht hmem

end Rule.OpensWith

/-- What spans tokens starts at the first of them. -/
theorem Rule.Spans.opens {last : List Kind} {rule : Rule Id α} (h : rule.Spans tokens kinds last) :
    rule.OpensWith tokens kinds :=
  fun _ _ hp => ⟨(h hp).le, (h hp).opening⟩

namespace Grammar

variable {ctx : Context}

theorem never_opens : (Rule.never : Rule Id α).OpensWith tokens kinds :=
  fun _ _ hp => nomatch hp

/-- A conditional starts at its `If`, whatever is taken for its body. -/
theorem conditionalOf_opens (body : Rule Id Block) :
    (conditionalOf tokens ctx body).OpensWith tokens [.ifWord] := by
  intro pos p hp
  rw [run_conditionalOf] at hp
  obtain ⟨opening, hopening, hp⟩ := Option.bind_eq_some_iff.mp hp
  obtain ⟨condition, _, hp⟩ := Option.bind_eq_some_iff.mp hp
  obtain ⟨comma, _, hp⟩ := Option.bind_eq_some_iff.mp hp
  obtain ⟨body, _, hp⟩ := Option.bind_eq_some_iff.mp hp
  cases hp
  exact (token_spans .ifWord).opens pos opening hopening

end Grammar

end Dossier
