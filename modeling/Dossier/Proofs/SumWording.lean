import Dossier.Proofs.ExpressionWording

namespace Dossier

open Grammar

variable {tokens : List Token} {ctx : Context} {pos : Nat} {slots rest : List Slot}

/-- Whether an identifier or a constant lies ahead before the first period. -/
def named : List Slot → Bool
  | [] => false
  | slot :: slots =>
    slot.kind = .identifier || slot.kind = .constant || slot.kind ≠ .period && named slots

/-- Whether every `in addition to` has something named behind it. -/
def sumsNamed : List Slot → Bool
  | [] => true
  | slot :: slots => (slot.kind ≠ .add || named slots) && sumsNamed slots

theorem run_token_of_named (h : Reads tokens pos slots) (hnamed : named slots = true)
    (hctx : ctx.forbidden = some .period) :
    (∃ p, Id.run (token tokens ctx .identifier pos) = some p) ∨
      ∃ p, Id.run (token tokens ctx .constant pos) = some p := by
  induction slots generalizing pos with
  | nil => cases hnamed
  | cons slot slots ih =>
    obtain ⟨t, ht, haccept, hrest⟩ := h.cons
    have hkind := haccept.kind_eq
    by_cases hidentifier : slot.kind = .identifier
    · exact .inl ⟨_, run_token_here ht (hkind.trans hidentifier)⟩
    · by_cases hconstant : slot.kind = .constant
      · exact .inr ⟨_, run_token_here ht (hkind.trans hconstant)⟩
      · simp only [named, hidentifier, hconstant, decide_false, Bool.false_or, Bool.and_eq_true,
          decide_eq_true_eq] at hnamed
        have hpass : ctx.forbidden ≠ some t.kind := by
          rw [hctx, hkind]
          exact fun he => hnamed.1 (Option.some.inj he).symm
        rw [run_token_succ ht (hkind ▸ hidentifier) hpass,
          run_token_succ ht (hkind ▸ hconstant) hpass]
        exact ih hrest hnamed.2

/-- Where something named lies ahead in the sentence, there is an expression. -/
theorem run_expression_of_named (h : Reads tokens pos slots) (hnamed : named slots = true) :
    ∃ p, Id.run (expression tokens ctx pos) = some p := by
  have hsearch : (∃ p, Id.run (token tokens (ctx.forbid .period) .identifier pos) = some p) ∨
      ∃ p, Id.run (token tokens (ctx.forbid .period) .constant pos) = some p :=
    run_token_of_named h hnamed rfl
  rw [run_expression]
  rcases hsearch with ⟨⟨t, start, next⟩, hp⟩ | ⟨⟨t, start, next⟩, hp⟩
  · have hkind := (run_token_eq_some_iff.mp hp).1.kind_eq
    cases t with
    | identifier name =>
      have hbare : Id.run (bareVariable tokens (ctx.forbid .period) pos) =
          some ⟨.variable name, start, next⟩ :=
        Rule.run_as.mpr ⟨⟨name, start, next⟩, run_identifier.mpr hp, rfl⟩
      refine Exists.imp (fun p h => h.1) (Candidate.chooseNearest_of_mem
        (c := ⟨Id.run (bareVariable tokens (ctx.forbid .period) pos), true⟩) ?_ hbare)
      simp
    | _ => cases hkind
  · have hkind := (run_token_eq_some_iff.mp hp).1.kind_eq
    cases t with
    | constant n =>
      have hconstant : Id.run (constant tokens (ctx.forbid .period) pos) =
          some ⟨.constant n, start, next⟩ :=
        Rule.run_as.mpr ⟨⟨n, start, next⟩, run_constantValue.mpr hp, rfl⟩
      refine Exists.imp (fun p h => h.1) (Candidate.chooseNearest_of_mem
        (c := ⟨Id.run (constant tokens (ctx.forbid .period) pos), false⟩) ?_ hconstant)
      simp
    | _ => cases hkind

theorem run_expression_of_sum (h : Reads tokens pos slots) (hsums : sumsNamed slots = true)
    {i : Nat} (hle : pos ≤ i) (ht : tokens[i]? = some .add) :
    ∃ p, Id.run (expression tokens ctx (i + 1)) = some p := by
  induction slots generalizing pos with
  | nil =>
    obtain ⟨slot, hslot, _⟩ := h.slot_at hle ht
    cases hslot
  | cons slot slots ih =>
    obtain ⟨t, hhere, haccept, hrest⟩ := h.cons
    simp only [sumsNamed, Bool.and_eq_true] at hsums
    by_cases he : pos = i
    · subst he
      rw [ht] at hhere
      cases hhere
      have hkind : slot.kind = .add := haccept.kind_eq.symm
      exact run_expression_of_named hrest (by simpa [hkind] using hsums.1)
    · exact ih hrest hsums.2 (by omega)

theorem sumsNamed_cons {slot : Slot} (hk : slot.kind ≠ .add) (h : sumsNamed slots = true) :
    sumsNamed (slot :: slots) = true := by
  simp [sumsNamed, hk, h]

theorem named_expression (e : Expression) (rest : List Slot) :
    named (e.wording .full ++ rest) = true := by
  cases e <;> rfl

mutual

theorem sumsNamed_expression (e : Expression) {rest : List Slot} (h : sumsNamed rest = true) :
    sumsNamed (e.wording .full ++ rest) = true := by
  cases e with
  | «variable» name => simpa [Expression.wording, sumsNamed, Slot.kind, Token.kind] using h
  | add left right =>
    have hright := sumsNamed_expression right h
    simpa [Expression.wording, sumsNamed, Slot.kind, Token.kind, named_expression] using hright
  | constant n => simpa [Expression.wording, sumsNamed, Slot.kind, Token.kind] using h
  | call name args =>
    cases args with
    | nil =>
      simpa [Expression.wording, Expression.argumentsWording, sumsNamed, Slot.kind, Token.kind]
        using h
    | cons e es =>
      have hes := sumsNamed_expression e (sumsNamed_furtherWording es h)
      simpa [Expression.wording, Expression.argumentsWording, sumsNamed, Slot.kind, Token.kind]
        using hes
  | square name =>
    simpa [Expression.wording, Style.optional, sumsNamed, Slot.kind, Token.kind] using h

theorem sumsNamed_furtherWording (es : List Expression) {rest : List Slot}
    (h : sumsNamed rest = true) :
    sumsNamed (Expression.furtherWording .full es ++ rest) = true := by
  cases es with
  | nil => simpa [Expression.furtherWording, sumsNamed, Slot.kind, Token.kind] using h
  | cons e es =>
    have hes := sumsNamed_expression e (sumsNamed_furtherWording es h)
    simpa [Expression.furtherWording, sumsNamed, Slot.kind, Token.kind] using hes

end

theorem label_kind_ne_add (label : Label) : (Slot.fixed label.token).kind ≠ .add := by
  cases label <;> simp [Label.token, Slot.kind, Token.kind]

mutual

theorem sumsNamed_statement (s : Statement) {rest : List Slot} (h : sumsNamed rest = true) :
    sumsNamed (s.wording .full ++ rest) = true := by
  have hperiod : sumsNamed (.fixed .period :: rest) = true := by
    simpa [sumsNamed, Slot.kind, Token.kind] using h
  cases s with
  | assignment target value =>
    have hvalue := sumsNamed_expression value hperiod
    simpa [Statement.wording, sumsNamed, Slot.kind, Token.kind] using hvalue
  | increment target => simpa [Statement.wording, sumsNamed, Slot.kind, Token.kind] using h
  | goto label =>
    exact sumsNamed_cons (by decide) (sumsNamed_cons (label_kind_ne_add label) hperiod)
  | conditional condition body =>
    obtain ⟨left, right⟩ := condition
    have hbody := sumsNamed_cons (by decide : (Slot.fixed .comma).kind ≠ .add)
      (sumsNamed_block body h)
    have hright := sumsNamed_cons (by decide : (Slot.fixed (.verb .is)).kind ≠ .add)
      (sumsNamed_expression right hbody)
    have hleft := sumsNamed_cons (by decide : (Slot.fixed .ifWord).kind ≠ .add)
      (sumsNamed_expression left hright)
    simpa [Statement.wording] using hleft
  | expression e =>
    have he := sumsNamed_expression e hperiod
    simpa [Statement.wording] using he
  | comment => simpa [Statement.wording, sumsNamed, Slot.kind, Token.kind] using h
  | invalid => exact hperiod

theorem sumsNamed_block (block : Block) {rest : List Slot} (h : sumsNamed rest = true) :
    sumsNamed (Statement.blockWording .full block ++ rest) = true := by
  cases block with
  | nil => exact h
  | cons s ss =>
    have hs := sumsNamed_statement s (sumsNamed_block ss h)
    simpa [Statement.blockWording] using hs

end

theorem sumsNamed_body (parts : List BodyPart) :
    sumsNamed (Document.bodyWording .full parts) = true := by
  induction parts with
  | nil => rfl
  | cons part parts ih =>
    cases part with
    | block block =>
      have hrule := sumsNamed_cons (by decide : (Slot.fixed .rule).kind ≠ .add) ih
      have hblock := sumsNamed_block block hrule
      simpa [Document.bodyWording, BodyPart.wording, Style.optional] using hblock
    | label label => exact sumsNamed_cons (label_kind_ne_add label) ih

theorem sumsComplete_of_named (h : Reads tokens 0 slots) (hsums : sumsNamed slots = true) :
    SumsComplete tokens := by
  intro i ctx ht
  exact run_expression_of_sum h hsums (Nat.zero_le i) ht

/-- In a stream that is worded like a document there is an expression behind every `in addition
to`. -/
theorem sumsComplete_of_reads {doc : Document} (h : Reads tokens 0 (doc.wording .full)) :
    SumsComplete tokens := by
  have hbody := sumsNamed_body doc.parts
  refine sumsComplete_of_named h ?_
  simpa [Document.wording, sumsNamed, Slot.kind, Token.kind] using hbody

end Dossier
