import Dossier.Proofs.Places

namespace Dossier.Grammar

variable {tokens : List Token} {ctx : Context} {pos index next room : Nat} {name : String}
  {e : Expression}

theorem add_forbid (h : ctx.room = room + 1) :
    add tokens (ctx.forbid .period) =
      (addOf tokens ⟨some .period, room⟩ (expression tokens ⟨some .period, room⟩) :
        Rule Id Expression) := by
  obtain ⟨forbidden, _ | _⟩ := ctx
  · cases h
  · cases h
    rfl

theorem add_without_room (h : ctx.room = 0) :
    Id.run (add tokens (ctx.forbid .period) pos) = none := by
  obtain ⟨forbidden, _ | _⟩ := ctx
  · rfl
  · cases h

theorem functionCall_forbid (h : ctx.room = room + 1) :
    functionCall tokens (ctx.forbid .period) =
      (functionCallOf tokens ⟨some .period, room⟩ (expression tokens ⟨some .period, room⟩) :
        Rule Id Expression) := by
  obtain ⟨forbidden, _ | _⟩ := ctx
  · cases h
  · cases h
    rfl

theorem identifier_at (hclear : Clear tokens pos index)
    (ht : tokens[index]? = some (.identifier name)) (hctx : ctx.forbidden ≠ some .rule) :
    Id.run (identifier tokens ctx pos) = some ⟨name, index, index + 1⟩ :=
  run_identifier.mpr (hclear.run_token ht rfl (by decide) hctx)

theorem constantValue_at {n : Nat} (hclear : Clear tokens pos index)
    (ht : tokens[index]? = some (.constant n)) (hctx : ctx.forbidden ≠ some .rule) :
    Id.run (constantValue tokens ctx pos) = some ⟨n, index, index + 1⟩ :=
  run_constantValue.mpr (hclear.run_token ht rfl (by decide) hctx)

theorem square_at (hclear : Clear tokens pos index) (hthe : tokens[index]? = some .the)
    (hsquare : tokens[index + 1]? = some .square) (hof : tokens[index + 1 + 1]? = some .of)
    (hname : tokens[index + 1 + 1 + 1]? = some (.identifier name))
    (hctx : ctx.forbidden ≠ some .rule) :
    Id.run (square tokens ctx pos) = some ⟨.square name, index, index + 4⟩ := by
  have hthe : Id.run (token tokens ctx .the pos) = some ⟨.the, index, index + 1⟩ :=
    hclear.run_token hthe rfl (by decide) hctx
  have hsquare : Id.run (token tokens ctx .square (index + 1)) =
      some ⟨.square, index + 1, index + 1 + 1⟩ := run_token_here hsquare rfl
  have hof : Id.run (token tokens ctx .of (index + 1 + 1)) =
      some ⟨.of, index + 1 + 1, index + 1 + 1 + 1⟩ := run_token_here hof rfl
  have hname := identifier_at .here hname hctx
  rw [run_square, hthe]
  simp [Outcome.nextOr, Outcome.startOr, hsquare, hof, hname]

theorem run_addOf_some {right : Rule Id Expression} {left : Parsed String} {plus : Parsed Token}
    {p : Parsed Expression} (hleft : Id.run (identifier tokens ctx pos) = some left)
    (hplus : Id.run (token tokens ctx .add left.next) = some plus)
    (hright : Id.run (right plus.next) = some p) :
    Id.run (addOf tokens ctx right pos) =
      some ⟨.add left.value p.value, left.start, p.next⟩ := by
  rw [run_addOf]
  simp [hleft, hplus, hright]

theorem add_without_plus (hroom : ctx.room = room + 1) (hclear : Clear tokens pos index)
    (ht : tokens[index]? = some (.identifier name))
    (hplus : Id.run (token tokens ⟨some .period, room⟩ .add (index + 1)) = none) :
    Id.run (add tokens (ctx.forbid .period) pos) = none := by
  rw [add_forbid hroom, run_addOf, identifier_at hclear ht (by simp)]
  simp [hplus]

theorem run_functionCallOf_some {argument : Rule Id Expression} {opening : Parsed Token}
    {function : Parsed String} {first : Parsed Expression} {others : List Expression}
    (hopening : Id.run (token tokens ctx .openParen pos) = some opening)
    (hname : Id.run (identifier tokens ctx opening.next) = some function)
    (hfirst : Id.run (argument function.next) = some first)
    (hothers : Id.run (furtherArguments tokens ctx argument tokens.length
      ⟨some opening.start, first.next⟩) = some (others, ⟨some opening.start, next⟩)) :
    Id.run (functionCallOf tokens ctx argument pos) =
      some ⟨.call function.value (first.value :: others), opening.start, next⟩ := by
  rw [run_functionCallOf]
  simp [hopening, hname, hfirst, hothers]

/-- Behind a known left side only the right side of a sum is open. -/
theorem right_of_addOf {right : Rule Id Expression} {left : Parsed String} {plus : Parsed Token}
    {p : Parsed Expression} (hleft : Id.run (identifier tokens ctx pos) = some left)
    (hplus : Id.run (token tokens ctx .add left.next) = some plus)
    (h : Id.run (addOf tokens ctx right pos) = some p) :
    ∃ q, Id.run (right plus.next) = some q ∧ p.value = .add left.value q.value := by
  rw [run_addOf, hleft] at h
  simp only [Option.bind_eq_bind, Option.bind_some, hplus] at h
  obtain ⟨q, hq, h⟩ := Option.bind_eq_some_iff.mp h
  cases h
  exact ⟨q, hq, rfl⟩

/-- Behind a known name only the arguments of a call are open. -/
theorem arguments_of_functionCallOf {argument : Rule Id Expression} {opening : Parsed Token}
    {function : Parsed String} {p : Parsed Expression}
    (hopening : Id.run (token tokens ctx .openParen pos) = some opening)
    (hname : Id.run (identifier tokens ctx opening.next) = some function)
    (h : Id.run (functionCallOf tokens ctx argument pos) = some p) :
    ∃ first others seq, Id.run (argument function.next) = some first ∧
      Id.run (furtherArguments tokens ctx argument tokens.length
        ⟨some opening.start, first.next⟩) = some (others, seq) ∧
      p.value = .call function.value (first.value :: others) := by
  rw [run_functionCallOf, hopening] at h
  simp only [Option.bind_eq_bind, Option.bind_some, hname] at h
  obtain ⟨first, hfirst, h⟩ := Option.bind_eq_some_iff.mp h
  obtain ⟨⟨others, seq⟩, hothers, h⟩ := Option.bind_eq_some_iff.mp h
  cases h
  exact ⟨first, others, seq, hfirst, hothers, rfl⟩

theorem square_value {p : Parsed Expression} (h : Id.run (square tokens ctx pos) = some p) :
    ∃ name, p.value = .square name := by
  rw [run_square] at h
  obtain ⟨phrase, _, h⟩ := Option.bind_eq_some_iff.mp h
  obtain ⟨found, _, h⟩ := Option.bind_eq_some_iff.mp h
  cases h
  exact ⟨found.value, rfl⟩

theorem add_value {p : Parsed Expression} (h : Id.run (add tokens ctx pos) = some p) :
    ∃ left right, p.value = .add left right := by
  obtain ⟨inner, _, h⟩ := run_add.mp h
  rw [run_addOf] at h
  obtain ⟨left, _, h⟩ := Option.bind_eq_some_iff.mp h
  obtain ⟨plus, _, h⟩ := Option.bind_eq_some_iff.mp h
  obtain ⟨right, _, h⟩ := Option.bind_eq_some_iff.mp h
  cases h
  exact ⟨left.value, right.value, rfl⟩

theorem functionCall_value {p : Parsed Expression}
    (h : Id.run (functionCall tokens ctx pos) = some p) :
    ∃ function args, p.value = .call function args := by
  obtain ⟨inner, _, h⟩ := run_functionCall.mp h
  rw [run_functionCallOf] at h
  obtain ⟨opening, _, h⟩ := Option.bind_eq_some_iff.mp h
  obtain ⟨function, _, h⟩ := Option.bind_eq_some_iff.mp h
  obtain ⟨first, _, h⟩ := Option.bind_eq_some_iff.mp h
  obtain ⟨⟨others, seq⟩, _, h⟩ := Option.bind_eq_some_iff.mp h
  cases h
  exact ⟨function.value, first.value :: others, rfl⟩

/-- What is read as a sum was found as one. -/
theorem add_of_expression {p : Parsed Expression} {left : String} {right : Expression}
    (h : Id.run (expression tokens ctx pos) = some p) (hvalue : p.value = .add left right) :
    Id.run (add tokens (ctx.forbid .period) pos) = some p := by
  rw [run_expression] at h
  obtain ⟨c, hc, hp⟩ := Candidate.mem_of_chooseNearest h
  simp only [List.mem_cons, List.not_mem_nil, or_false] at hc
  rcases hc with rfl | rfl | rfl | rfl | rfl
  · obtain ⟨_, hother⟩ := square_value hp
    cases hvalue.symm.trans hother
  · exact hp
  · obtain ⟨_, _, rfl⟩ := Rule.run_as.mp hp
    cases hvalue
  · obtain ⟨_, _, hother⟩ := functionCall_value hp
    cases hvalue.symm.trans hother
  · obtain ⟨_, _, rfl⟩ := Rule.run_as.mp hp
    cases hvalue

/-- What is read as a call was found as one. -/
theorem functionCall_of_expression {p : Parsed Expression} {args : List Expression}
    (h : Id.run (expression tokens ctx pos) = some p) (hvalue : p.value = .call name args) :
    Id.run (functionCall tokens (ctx.forbid .period) pos) = some p := by
  rw [run_expression] at h
  obtain ⟨c, hc, hp⟩ := Candidate.mem_of_chooseNearest h
  simp only [List.mem_cons, List.not_mem_nil, or_false] at hc
  rcases hc with rfl | rfl | rfl | rfl | rfl
  · obtain ⟨_, hother⟩ := square_value hp
    cases hvalue.symm.trans hother
  · obtain ⟨_, _, hother⟩ := add_value hp
    cases hvalue.symm.trans hother
  · obtain ⟨_, _, rfl⟩ := Rule.run_as.mp hp
    cases hvalue
  · exact hp
  · obtain ⟨_, _, rfl⟩ := Rule.run_as.mp hp
    cases hvalue

/-- At an identifier a sum wins if there is one. -/
theorem expression_of_sum (hclear : Clear tokens pos index)
    (ht : tokens[index]? = some (.identifier name))
    (hadd : Id.run (add tokens (ctx.forbid .period) pos) = some ⟨e, index, next⟩) :
    Id.run (expression tokens ctx pos) = some ⟨e, index, next⟩ := by
  have hk : (Token.identifier name).kind = .identifier := rfl
  rw [run_expression, hadd]
  refine Candidate.chooseNearest_of_wins [_] false [_, _, _] ?_ ?_
  · simp only [List.mem_singleton, forall_eq]
    intro q hq
    exact .inl (square_spans.opens.later hclear ht (by decide) (by rw [hk]; decide) hq)
  · simp only [List.mem_cons, List.not_mem_nil, or_false, forall_eq_or_imp, forall_eq]
    refine ⟨?_, ?_, ?_⟩
    · intro q hq
      exact .inl (constant_spans.opens.later hclear ht (by decide) (by rw [hk]; decide) hq)
    · intro q hq
      exact .inl (functionCall_spans.opens.later hclear ht (by decide) (by rw [hk]; decide) hq)
    · intro q hq
      have hle := bareVariable_spans.opens.le_start hclear (by decide) hq
      rcases Nat.lt_or_eq_of_le hle with hlt | he
      · exact .inl hlt
      · exact .inr ⟨he, .inr rfl⟩

/-- At an identifier where no sum is found the bare variable wins. -/
theorem expression_of_variable (hclear : Clear tokens pos index)
    (ht : tokens[index]? = some (.identifier name))
    (hadd : Id.run (add tokens (ctx.forbid .period) pos) = none) :
    Id.run (expression tokens ctx pos) = some ⟨.variable name, index, index + 1⟩ := by
  have hk : (Token.identifier name).kind = .identifier := rfl
  have hbare : Id.run (bareVariable tokens (ctx.forbid .period) pos) =
      some ⟨.variable name, index, index + 1⟩ :=
    Rule.run_as.mpr ⟨_, identifier_at hclear ht (by simp [Context.forbid]), rfl⟩
  rw [run_expression, hadd, hbare]
  refine Candidate.chooseNearest_of_alone [_, _, _, _] true [] ?_
  simp only [List.append_nil, List.mem_cons, List.not_mem_nil, or_false, forall_eq_or_imp,
    forall_eq]
  refine ⟨?_, ?_, ?_, ?_⟩
  · intro q hq
    exact square_spans.opens.later hclear ht (by decide) (by rw [hk]; decide) hq
  · intro q hq
    cases hq
  · intro q hq
    exact constant_spans.opens.later hclear ht (by decide) (by rw [hk]; decide) hq
  · intro q hq
    exact functionCall_spans.opens.later hclear ht (by decide) (by rw [hk]; decide) hq

/-- The forms of expression in the order in which they are listed. -/
def expressionForms (tokens : List Token) (ctx : Context) : List (Alternative tokens Expression) :=
  [⟨square tokens ctx, [.the, .square], false, square_spans.opens⟩,
    ⟨add tokens ctx, [.identifier], false, add_spans.opens⟩,
    ⟨constant tokens ctx, [.constant], false, constant_spans.opens⟩,
    ⟨functionCall tokens ctx, [.openParen], false, functionCall_spans.opens⟩,
    ⟨bareVariable tokens ctx, [.identifier], true, bareVariable_spans.opens⟩]

theorem run_expression_forms :
    Id.run (expression tokens ctx pos) = Candidate.chooseNearest
      ((expressionForms tokens (ctx.forbid .period)).map (Alternative.candidate pos)) :=
  run_expression

theorem expression_of_square (hclear : Clear tokens pos index) (ht : tokens[index]? = some .the)
    (hsquare : Id.run (square tokens (ctx.forbid .period) pos) = some ⟨e, index, next⟩) :
    Id.run (expression tokens ctx pos) = some ⟨e, index, next⟩ :=
  run_expression_forms.trans <| Alternative.chosen_of_only [] [_, _, _, _] hclear ht
    (by simp [Token.kind]) hsquare

theorem expression_of_constant {n : Nat} (hclear : Clear tokens pos index)
    (ht : tokens[index]? = some (.constant n)) :
    Id.run (expression tokens ctx pos) = some ⟨.constant n, index, index + 1⟩ := by
  have hconstant : Id.run (constant tokens (ctx.forbid .period) pos) =
      some ⟨.constant n, index, index + 1⟩ :=
    Rule.run_as.mpr ⟨_, constantValue_at hclear ht (by simp [Context.forbid]), rfl⟩
  exact run_expression_forms.trans <| Alternative.chosen_of_only [_, _] [_, _] hclear ht
    (by simp [Token.kind]) hconstant

theorem expression_of_call (hclear : Clear tokens pos index)
    (ht : tokens[index]? = some .openParen)
    (hcall : Id.run (functionCall tokens (ctx.forbid .period) pos) = some ⟨e, index, next⟩) :
    Id.run (expression tokens ctx pos) = some ⟨e, index, next⟩ :=
  run_expression_forms.trans <| Alternative.chosen_of_only [_, _, _] [_] hclear ht
    (by simp [Token.kind]) hcall

end Dossier.Grammar
