import Dossier.Proofs.ExpressionForms

namespace Dossier

open Grammar

variable {tokens : List Token} {ctx : Context} {pos index start : Nat} {slots rest : List Slot}

/-- A search for a sum goes to the end of the sentence. -/
theorem isSome_run_add (h : Reads tokens pos slots) (hctx : ctx.forbidden = some .period) :
    (Id.run (token tokens ctx .add pos)).isSome = summed slots := by
  induction slots generalizing pos with
  | nil =>
    cases hrun : Id.run (token tokens ctx .add pos) with
    | none => rfl
    | some p =>
      obtain ⟨hfinds, _⟩ := run_token_eq_some_iff.mp hrun
      obtain ⟨slot, hslot, _⟩ := h.slot_at hfinds.le hfinds.at_index
      cases hslot
  | cons slot slots ih =>
    obtain ⟨t, ht, haccept, hrest⟩ := h.cons
    have hkind := haccept.kind_eq
    by_cases hadd : slot.kind = .add
    · rw [run_token_here ht (hkind.trans hadd)]
      simp [summed, hadd]
    · by_cases hperiod : slot.kind = .period
      · rw [run_token_barred ht (hkind ▸ hadd) (by rw [hctx, hkind, hperiod])]
        simp [summed, hperiod]
      · have hpass : ctx.forbidden ≠ some t.kind := by
          rw [hctx, hkind]
          exact fun he => hperiod (Option.some.inj he).symm
        rw [run_token_succ ht (hkind ▸ hadd) hpass, ih hrest]
        simp [summed, hadd, hperiod]

theorem separator_and (ht : tokens[pos]? = some .and) :
    Id.run (separator tokens ctx pos) = some ⟨.and, pos, pos + 1⟩ := by
  have hand : Id.run ((token tokens ctx .and).as (fun _ => Separator.and) pos) =
      some ⟨.and, pos, pos + 1⟩ := Rule.run_as.mpr ⟨_, run_token_here ht rfl, rfl⟩
  change Candidate.chooseNearest [⟨Id.run ((token tokens ctx .and).as _ pos), false⟩,
    ⟨Id.run ((token tokens ctx .closeParen).as _ pos), false⟩] = _
  rw [hand]
  refine Candidate.chooseNearest_of_alone [] false [_] ?_
  simp only [List.nil_append, List.mem_singleton, forall_eq]
  intro q hq
  exact ((token_spans _).opens.as _).later .here ht (by decide) (by decide) hq

theorem separator_close (ht : tokens[pos]? = some .closeParen) :
    Id.run (separator tokens ctx pos) = some ⟨.close, pos, pos + 1⟩ := by
  have hclose : Id.run ((token tokens ctx .closeParen).as (fun _ => Separator.close) pos) =
      some ⟨.close, pos, pos + 1⟩ := Rule.run_as.mpr ⟨_, run_token_here ht rfl, rfl⟩
  change Candidate.chooseNearest [⟨Id.run ((token tokens ctx .and).as _ pos), false⟩,
    ⟨Id.run ((token tokens ctx .closeParen).as _ pos), false⟩] = _
  rw [hclose]
  refine Candidate.chooseNearest_of_alone [_] false [] ?_
  simp only [List.append_nil, List.mem_singleton, forall_eq]
  intro q hq
  exact ((token_spans _).opens.as _).later .here ht (by decide) (by decide) hq

theorem length_lt_furtherWording (style : Style) (es : List Expression) :
    es.length < (Expression.furtherWording style es).length := by
  induction es with
  | nil => simp [Expression.furtherWording]
  | cons e es ih =>
    simp only [Expression.furtherWording, List.length_cons, List.length_append]
    omega

/-- A variable is bare unless there is room for a sum and an `in addition to` ahead. -/
theorem expression_of_unsummed {name : String} (hclear : Clear tokens pos index)
    (hreads : Reads tokens index (.fixed (.identifier name) :: rest))
    (hlegible : ctx.room = 0 ∨ summed rest = false) :
    Id.run (expression tokens ctx pos) = some ⟨.variable name, index, index + 1⟩ := by
  obtain ⟨ht, hrest⟩ := hreads.fixed
  refine expression_of_variable hclear ht ?_
  cases hroom : ctx.room with
  | zero => exact add_without_room hroom
  | succ room =>
    refine add_without_plus hroom hclear ht ?_
    have hsummed : summed rest = false := by simpa [hroom] using hlegible
    have hsearch :
        (Id.run (token tokens ⟨some .period, room⟩ .add (index + 1))).isSome = false := by
      rw [isSome_run_add hrest rfl, hsummed]
    simpa using hsearch

/-- An expression of the shape that reports have, with room for its nesting. -/
structure Expression.Regular (room : Nat) (e : Expression) : Prop where
  wellFormed : e.wellFormed = true
  nesting : e.nesting ≤ room

structure Expression.ArgumentsRegular (room : Nat) (es : List Expression) : Prop where
  wellFormed : Expression.argumentsWellFormed es = true
  nesting : Expression.argumentsNesting es ≤ room

theorem Expression.Regular.right {room : Nat} {left : String} {right : Expression}
    (h : Expression.Regular room (.add left right)) :
    ∃ inner, room = inner + 1 ∧ Expression.Regular inner right := by
  obtain ⟨hwf, hnesting⟩ := h
  simp only [Expression.wellFormed] at hwf
  simp only [Expression.nesting] at hnesting
  obtain ⟨inner, rfl⟩ : ∃ inner, room = inner + 1 := Nat.exists_eq_add_one.mpr (by omega)
  exact ⟨inner, rfl, hwf, by omega⟩

theorem Expression.Regular.arguments {room : Nat} {name : String} {args : List Expression}
    (h : Expression.Regular room (.call name args)) :
    ∃ inner, room = inner + 1 ∧ args ≠ [] ∧ Expression.ArgumentsRegular inner args := by
  obtain ⟨hwf, hnesting⟩ := h
  simp only [Expression.wellFormed, Bool.and_eq_true, Bool.not_eq_true',
    List.isEmpty_eq_false_iff] at hwf
  simp only [Expression.nesting] at hnesting
  obtain ⟨inner, rfl⟩ : ∃ inner, room = inner + 1 := Nat.exists_eq_add_one.mpr (by omega)
  exact ⟨inner, rfl, hwf.1, hwf.2, by omega⟩

theorem Expression.ArgumentsRegular.cons {room : Nat} {e : Expression} {es : List Expression}
    (h : Expression.ArgumentsRegular room (e :: es)) :
    Expression.Regular room e ∧ Expression.ArgumentsRegular room es := by
  obtain ⟨hwf, hnesting⟩ := h
  simp only [Expression.argumentsWellFormed, Bool.and_eq_true] at hwf
  simp only [Expression.argumentsNesting] at hnesting
  exact ⟨⟨hwf.1, by omega⟩, hwf.2, by omega⟩

mutual

/-- An expression comes back from its own words if no variable in it is taken for a part of a
sum. -/
theorem run_expression_of_reads (e : Expression) {ctx : Context} {pos index : Nat}
    {rest : List Slot} (hregular : Expression.Regular ctx.room e)
    (hlegible : e.legible ctx.room rest = true) (hclear : Clear tokens pos index)
    (hreads : Reads tokens index (e.wording .full ++ rest)) :
    Id.run (expression tokens ctx pos) = some ⟨e, index, index + (e.wording .full).length⟩ := by
  cases e with
  | «variable» name =>
    exact expression_of_unsummed hclear hreads (by simpa [Expression.legible] using hlegible)
  | add left right =>
    obtain ⟨room, hroom, hshape⟩ := hregular.right
    simp only [Expression.legible, hroom, Nat.add_sub_cancel] at hlegible
    obtain ⟨ht, hreads⟩ := hreads.fixed
    obtain ⟨hplus, hreads⟩ := hreads.fixed
    have hright : Id.run (expression tokens ⟨some .period, room⟩ (index + 1 + 1)) =
        some ⟨right, index + 1 + 1, index + 1 + 1 + (right.wording .full).length⟩ :=
      run_expression_of_reads right hshape hlegible .here hreads
    refine expression_of_sum hclear ht ?_
    rw [add_forbid hroom,
      run_addOf_some (identifier_at hclear ht (by simp)) (run_token_here hplus rfl) hright]
    simp only [Expression.wording, List.length_cons, Option.some.injEq, Parsed.mk.injEq, true_and]
    omega
  | constant n =>
    obtain ⟨ht, _⟩ := hreads.fixed
    exact expression_of_constant hclear ht
  | call name args =>
    obtain ⟨room, hroom, hsome, hshape⟩ := hregular.arguments
    simp only [Expression.legible, hroom, Nat.add_sub_cancel] at hlegible
    obtain ⟨ht, hreads⟩ := hreads.fixed
    obtain ⟨hname, hreads⟩ := hreads.fixed
    cases args with
    | nil => exact absurd rfl hsome
    | cons e es =>
      obtain ⟨hshape, hothersShape⟩ := hshape.cons
      simp only [Expression.argumentsLegible, Bool.and_eq_true] at hlegible
      have hreads : Reads tokens (index + 1 + 1)
          (e.wording .full ++ (Expression.furtherWording .full es ++ rest)) := hreads.assoc
      have hfirst : Id.run (expression tokens ⟨some .period, room⟩ (index + 1 + 1)) =
          some ⟨e, index + 1 + 1, index + 1 + 1 + (e.wording .full).length⟩ :=
        run_expression_of_reads e hshape hlegible.1 .here hreads
      have hbound : es.length < tokens.length :=
        Nat.lt_of_lt_of_le (length_lt_furtherWording .full es) hreads.append.length_le
      have hothers : Id.run (furtherArguments tokens ⟨some .period, room⟩
          (expression tokens ⟨some .period, room⟩) tokens.length
          ⟨some index, index + 1 + 1 + (e.wording .full).length⟩) = some (es, ⟨some index,
            index + 1 + 1 + (e.wording .full).length +
              (Expression.furtherWording .full es).length⟩) :=
        run_furtherArguments_of_reads es index hothersShape hlegible.2 hbound hreads.append
      refine expression_of_call hclear ht ?_
      rw [functionCall_forbid hroom,
        run_functionCallOf_some (hclear.run_token ht rfl (by decide) (by simp))
          (identifier_at .here hname (by simp)) hfirst hothers]
      simp only [Expression.wording, Expression.argumentsWording, List.length_cons,
        List.length_append, Option.some.injEq, Parsed.mk.injEq, true_and]
      omega
  | square name =>
    obtain ⟨hthe, hreads⟩ := hreads.fixed
    obtain ⟨hsquare, hreads⟩ := hreads.fixed
    obtain ⟨hof, hreads⟩ := hreads.fixed
    obtain ⟨hname, _⟩ := hreads.fixed
    exact expression_of_square hclear hthe
      (square_at hclear hthe hsquare hof hname (by simp [Context.forbid]))

theorem run_furtherArguments_of_reads (es : List Expression) (start : Nat) {ctx : Context}
    {bound pos : Nat} {rest : List Slot} (hregular : Expression.ArgumentsRegular ctx.room es)
    (hlegible : Expression.argumentsLegible ctx.room rest es = true) (hbound : es.length < bound)
    (hreads : Reads tokens pos (Expression.furtherWording .full es ++ rest)) :
    Id.run (furtherArguments tokens ctx (expression tokens ctx) bound ⟨some start, pos⟩) =
      some (es, ⟨some start, pos + (Expression.furtherWording .full es).length⟩) := by
  obtain ⟨bound, rfl⟩ : ∃ fewer, bound = fewer + 1 := Nat.exists_eq_add_one.mpr (by omega)
  cases es with
  | nil =>
    obtain ⟨ht, _⟩ := hreads.fixed
    rw [run_furtherArguments, separator_close ht]
    rfl
  | cons e es =>
    obtain ⟨hshape, hothersShape⟩ := hregular.cons
    simp only [Expression.argumentsLegible, Bool.and_eq_true] at hlegible
    obtain ⟨ht, hreads⟩ := hreads.fixed
    have hreads : Reads tokens (pos + 1)
        (e.wording .full ++ (Expression.furtherWording .full es ++ rest)) := hreads.assoc
    have hfirst := run_expression_of_reads e hshape hlegible.1 .here hreads
    have hothers := run_furtherArguments_of_reads es start hothersShape hlegible.2
      (Nat.lt_of_succ_lt_succ hbound) hreads.append
    rw [run_furtherArguments, separator_and ht]
    simp only [Option.bind_eq_bind, Option.bind_some, hfirst, hothers, Expression.furtherWording,
      List.length_cons, List.length_append, Option.pure_def, Option.some.injEq, Prod.mk.injEq,
      Sequence.mk.injEq, true_and]
    omega

end

/-- Behind every `in addition to` there is an expression to add. -/
def SumsComplete (tokens : List Token) : Prop :=
  ∀ i ctx, tokens[i]? = some .add → ∃ p, Id.run (expression tokens ctx (i + 1)) = some p

/-- A variable with room for a sum and an `in addition to` ahead is the left side of a sum. -/
theorem expression_of_summed (hsums : SumsComplete tokens) {name : String} {room : Nat}
    {p : Parsed Expression} (hclear : Clear tokens pos index)
    (hreads : Reads tokens index (.fixed (.identifier name) :: rest)) (hroom : ctx.room = room + 1)
    (hsummed : summed rest = true) (h : Id.run (expression tokens ctx pos) = some p) :
    ∃ right, p.value = .add name right := by
  obtain ⟨ht, hrest⟩ := hreads.fixed
  have hsearch : (Id.run (token tokens ⟨some .period, room⟩ .add (index + 1))).isSome = true := by
    rw [isSome_run_add hrest rfl, hsummed]
  obtain ⟨plus, hplus⟩ := Option.isSome_iff_exists.mp hsearch
  obtain ⟨hfinds, hnext⟩ := run_token_eq_some_iff.mp hplus
  have hvalue : plus.value = .add := Token.eq_of_kind (by rw [hfinds.kind_eq]; rfl)
  have hadd : tokens[plus.start]? = some .add := by rw [hfinds.at_index, hvalue]
  obtain ⟨right, hright⟩ := hsums plus.start ⟨some .period, room⟩ hadd
  rw [← hnext] at hright
  have hsum := run_addOf_some (identifier_at hclear ht (by simp)) hplus hright
  rw [← add_forbid hroom] at hsum
  rw [expression_of_sum hclear ht hsum] at h
  cases h
  exact ⟨right.value, rfl⟩

mutual

/-- An expression that comes back from its own words had no variable taken for a part of a sum. -/
theorem legible_of_run_expression (hsums : SumsComplete tokens) (e : Expression) {ctx : Context}
    {pos index : Nat} {rest : List Slot} {p : Parsed Expression}
    (hregular : Expression.Regular ctx.room e) (hclear : Clear tokens pos index)
    (hreads : Reads tokens index (e.wording .full ++ rest))
    (h : Id.run (expression tokens ctx pos) = some p) (hvalue : p.value = e) :
    e.legible ctx.room rest = true := by
  cases e with
  | «variable» name =>
    simp only [Expression.legible, Bool.or_eq_true, decide_eq_true_eq, Bool.not_eq_true']
    cases hroom : ctx.room with
    | zero => exact .inl rfl
    | succ room =>
      refine .inr (Bool.eq_false_iff.mpr ?_)
      intro hsummed
      obtain ⟨right, hother⟩ := expression_of_summed hsums hclear hreads hroom hsummed h
      cases hvalue.symm.trans hother
  | add left right =>
    obtain ⟨room, hroom, hshape⟩ := hregular.right
    obtain ⟨ht, hreads⟩ := hreads.fixed
    obtain ⟨hplus, hreads⟩ := hreads.fixed
    have hsum := add_of_expression h hvalue
    rw [add_forbid hroom] at hsum
    obtain ⟨q, hq, hother⟩ :=
      right_of_addOf (identifier_at hclear ht (by simp)) (run_token_here hplus rfl) hsum
    obtain ⟨-, hright⟩ := Expression.add.inj (hvalue.symm.trans hother)
    have hright : right.legible room rest = true :=
      legible_of_run_expression hsums right hshape .here hreads hq hright.symm
    simpa [Expression.legible, hroom] using hright
  | constant n => rfl
  | call name args =>
    obtain ⟨room, hroom, hsome, hshape⟩ := hregular.arguments
    obtain ⟨ht, hreads⟩ := hreads.fixed
    obtain ⟨hname, hreads⟩ := hreads.fixed
    have hcall := functionCall_of_expression h hvalue
    rw [functionCall_forbid hroom] at hcall
    obtain ⟨first, others, seq, hfirst, hothers, hother⟩ := arguments_of_functionCallOf
      (hclear.run_token ht rfl (by decide) (by simp)) (identifier_at .here hname (by simp)) hcall
    obtain ⟨-, hargs⟩ := Expression.call.inj (hvalue.symm.trans hother)
    cases args with
    | nil => cases hargs
    | cons e es =>
      obtain ⟨he, rfl⟩ := List.cons.inj hargs
      obtain ⟨hshape, hothersShape⟩ := hshape.cons
      have hreads : Reads tokens (index + 1 + 1)
          (e.wording .full ++ (Expression.furtherWording .full es ++ rest)) := hreads.assoc
      have hlegible : e.legible room (Expression.furtherWording .full es ++ rest) = true :=
        legible_of_run_expression hsums e hshape .here hreads hfirst he.symm
      have hexact : Id.run (expression tokens ⟨some .period, room⟩ (index + 1 + 1)) =
          some ⟨e, index + 1 + 1, index + 1 + 1 + (e.wording .full).length⟩ :=
        run_expression_of_reads e hshape hlegible .here hreads
      cases hfirst.symm.trans hexact
      have hrest : Expression.argumentsLegible room rest es = true :=
        argumentsLegible_of_run hsums es hothersShape hreads.append hothers
      simp [Expression.legible, Expression.argumentsLegible, hroom, hlegible, hrest]
  | square name => rfl

theorem argumentsLegible_of_run (hsums : SumsComplete tokens) (es : List Expression)
    {ctx : Context} {bound start pos : Nat} {rest : List Slot} {seq : Sequence}
    (hregular : Expression.ArgumentsRegular ctx.room es)
    (hreads : Reads tokens pos (Expression.furtherWording .full es ++ rest))
    (h : Id.run (furtherArguments tokens ctx (expression tokens ctx) bound ⟨some start, pos⟩) =
      some (es, seq)) :
    Expression.argumentsLegible ctx.room rest es = true := by
  cases es with
  | nil => rfl
  | cons e es =>
    cases bound with
    | zero => cases h
    | succ bound =>
      obtain ⟨hshape, hothersShape⟩ := hregular.cons
      obtain ⟨ht, hreads⟩ := hreads.fixed
      have hreads : Reads tokens (pos + 1)
          (e.wording .full ++ (Expression.furtherWording .full es ++ rest)) := hreads.assoc
      rw [run_furtherArguments, separator_and ht] at h
      simp only [Option.bind_eq_bind, Option.bind_some] at h
      obtain ⟨first, hfirst, h⟩ := Option.bind_eq_some_iff.mp h
      obtain ⟨⟨others, seq'⟩, hothers, h⟩ := Option.bind_eq_some_iff.mp h
      obtain ⟨hargs, rfl⟩ := Prod.mk.inj (Option.some.inj h)
      obtain ⟨he, rfl⟩ : e = first.value ∧ es = others := List.cons.inj hargs.symm
      have hlegible :=
        legible_of_run_expression hsums e hshape .here hreads hfirst he.symm
      have hexact := run_expression_of_reads e hshape hlegible .here hreads
      cases hfirst.symm.trans hexact
      have hrest := argumentsLegible_of_run hsums es hothersShape hreads.append hothers
      simp [Expression.argumentsLegible, hlegible, hrest]

end

end Dossier
