import Dossier.Proofs.Places
import Dossier.Proofs.Yield

namespace Dossier

variable {tokens : List Token} {ctx inner : Context} {kind barrier : Kind} {pos : Nat}

/-- Up to where a search ends there is nothing that it may not pass over. -/
theorem free_of_run_token {p : Parsed Token} (hctx : ctx.forbidden = some barrier)
    (hkind : kind ≠ barrier) (h : Id.run (Grammar.token tokens ctx kind pos) = some p) :
    Free tokens barrier pos p.next := by
  obtain ⟨hfinds, hnext⟩ := run_token_eq_some_iff.mp h
  intro i t hle hlt ht he
  rcases Nat.lt_or_eq_of_le (Nat.le_of_lt_succ (hnext ▸ hlt)) with hbefore | rfl
  · exact (hfinds.passes i t hle hbefore ht).2 (he ▸ hctx)
  · rw [hfinds.at_index] at ht
    cases ht
    exact hkind (hfinds.kind_eq.symm.trans he)

theorem nested_forbidden (h : ctx.nested? = some inner) : inner.forbidden = ctx.forbidden := by
  obtain ⟨forbidden, _ | room⟩ := ctx
  · cases h
  · cases h
    rfl

namespace Grammar

theorem identifier_free {p : Parsed String} (hctx : ctx.forbidden = some .period)
    (h : Id.run (identifier tokens ctx pos) = some p) : Free tokens .period pos p.next :=
  free_of_run_token hctx (by decide) (run_identifier.mp h)

theorem constantValue_free {p : Parsed Nat} (hctx : ctx.forbidden = some .period)
    (h : Id.run (constantValue tokens ctx pos) = some p) : Free tokens .period pos p.next :=
  free_of_run_token hctx (by decide) (run_constantValue.mp h)

/-- A word that may be left out does not lead behind a period either. -/
theorem nextOr_free (hctx : ctx.forbidden = some .period) (hkind : kind ≠ .period) :
    Free tokens .period pos ((Id.run (token tokens ctx kind pos)).nextOr pos) := by
  cases h : Id.run (token tokens ctx kind pos) with
  | none =>
    intro i t hle hlt
    exact absurd hlt (Nat.not_lt_of_le hle)
  | some p => exact free_of_run_token hctx hkind h

theorem square_free {p : Parsed Expression} (hctx : ctx.forbidden = some .period)
    (h : Id.run (square tokens ctx pos) = some p) : Free tokens .period pos p.next := by
  rw [run_square] at h
  obtain ⟨phrase, hphrase, h⟩ := Option.bind_eq_some_iff.mp h
  obtain ⟨name, hname, h⟩ := Option.bind_eq_some_iff.mp h
  cases h
  have hthe : Free tokens .period pos ((Id.run (token tokens ctx .the pos)).nextOr pos) :=
    nextOr_free hctx (by decide)
  have hof : Free tokens .period phrase.next
      ((Id.run (token tokens ctx .of phrase.next)).nextOr phrase.next) :=
    nextOr_free hctx (by decide)
  have hopening := hthe.append (free_of_run_token hctx (by decide) hphrase)
  exact hopening.append (hof.append (identifier_free hctx hname))

end Grammar

/-- What was found for an expression reaches up to a period at most, and so do the arguments of a
call where they are looked for as a part of one. -/
def Finding.WithinSentence (tokens : List Token) : Finding → Prop
  | expression _ pos p => Free tokens .period pos p.next
  | arguments ctx pos _ next => ctx.forbidden = some .period → Free tokens .period pos next
  | statement _ _ _ | statements _ _ _ _ => True

namespace Grammar

theorem Derives.within_sentence {finding : Finding} (h : Derives tokens finding) :
    finding.WithinSentence tokens := by
  induction h with
  | square hp => exact square_free rfl hp
  | constant hp => exact constantValue_free rfl hp
  | bare hp => exact identifier_free rfl hp
  | add hctx hleft hplus _ hright =>
    have hinner := nested_forbidden hctx
    exact (identifier_free hinner hleft).append
      ((free_of_run_token hinner (by decide) hplus).append hright)
  | call hctx hopening hname _ _ hfirst hothers =>
    have hinner := nested_forbidden hctx
    have hopened := (free_of_run_token hinner (by decide) hopening).append
      (identifier_free hinner hname)
    exact hopened.append (hfirst.append (hothers hinner))
  | close hclosing => exact fun hctx => free_of_run_token hctx (by decide) hclosing
  | argument hlink _ _ hfirst hothers =>
    intro hctx
    exact (free_of_run_token hctx (by decide) hlink).append (hfirst.append (hothers hctx))
  | assignment | increment | goto | expression | comment | invalid | conditional | stop | more =>
    trivial

/-- No period stands before the end of an expression. -/
theorem expression_free {p : Parsed Expression}
    (h : Id.run (expression tokens ctx pos) = some p) : Free tokens .period pos p.next :=
  (expression_derives h).within_sentence

theorem add_free {p : Parsed Expression}
    (h : Id.run (add tokens (ctx.forbid .period) pos) = some p) :
    Free tokens .period pos p.next := by
  obtain ⟨inner, hinner, h⟩ := run_add.mp h
  exact (add_derives hinner expression_derives h).within_sentence

theorem functionCall_free {p : Parsed Expression}
    (h : Id.run (functionCall tokens (ctx.forbid .period) pos) = some p) :
    Free tokens .period pos p.next := by
  obtain ⟨inner, hinner, h⟩ := run_functionCall.mp h
  exact (call_derives hinner expression_derives h).within_sentence

end Grammar

end Dossier
