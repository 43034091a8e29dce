import Dossier.Proofs.Periods
import Dossier.Proofs.Spans
import Dossier.Proofs.StatementForms

namespace Dossier

variable {tokens : List Token} {ctx ctx' inner : Context} {kind : Kind} {pos next room : Nat}

/-- Whether the room for nesting may matter to a production. -/
def Production.nests : Production → Bool
  | add | functionCall | expression | equality | reverseAssignment | expressionStatement
  | conditional | statement | block | bodyPart | document => true
  | _ => false

theorem firstOf_of_forbidden (h : ctx'.forbidden = ctx.forbidden) : firstOf ctx' = firstOf ctx := by
  funext kind pos ts
  induction ts generalizing pos with
  | nil => rfl
  | cons t ts ih => rw [firstOf, firstOf, Context.forbids, Context.forbids, h, ih]

namespace Grammar

theorem token_of_forbidden (h : ctx'.forbidden = ctx.forbidden) :
    (token tokens ctx' : Kind → Rule Id Token) = token tokens ctx := by
  funext kind pos
  rw [token, token, firstOf_of_forbidden h]

theorem label_of_forbidden (h : ctx'.forbidden = ctx.forbidden) :
    (label tokens ctx' : Rule Id Label) = label tokens ctx := by
  funext pos
  simp only [label, token_of_forbidden h]

theorem separator_of_forbidden (h : ctx'.forbidden = ctx.forbidden) :
    (separator tokens ctx' : Rule Id Separator) = separator tokens ctx := by
  funext pos
  simp only [separator, token_of_forbidden h]

theorem blockEnd_of_forbidden (h : ctx'.forbidden = ctx.forbidden) :
    (blockEnd tokens ctx' : Rule Id Unit) = blockEnd tokens ctx := by
  funext pos
  simp only [blockEnd, token_of_forbidden h]

end Grammar

open Grammar in
/-- A production that nests nothing depends on what is forbidden alone. -/
theorem Production.rule_of_forbidden (h : ctx'.forbidden = ctx.forbidden) (p : Production)
    (hflat : p.nests = false) :
    (p.rule .exhaustive tokens ctx' : Rule Id p.Value) = p.rule .exhaustive tokens ctx := by
  cases p <;> cases hflat <;>
    simp only [Production.rule, Grammar.identifier, Grammar.constantValue, Grammar.verb,
      Grammar.copula, Grammar.itemNumber, Grammar.objectClass, label_of_forbidden h,
      Grammar.square, Grammar.constant, Grammar.bareVariable, Grammar.assignment,
      Grammar.increment, Grammar.goto, Grammar.comment, Grammar.invalid, allow, expect,
      token_of_forbidden h]

namespace Grammar

theorem identifier_of_forbidden (h : ctx'.forbidden = ctx.forbidden) :
    (identifier tokens ctx' : Rule Id String) = identifier tokens ctx :=
  Production.rule_of_forbidden h .identifier rfl

theorem square_of_forbidden (h : ctx'.forbidden = ctx.forbidden) :
    (square tokens ctx' : Rule Id Expression) = square tokens ctx :=
  Production.rule_of_forbidden h .square rfl

theorem constant_of_forbidden (h : ctx'.forbidden = ctx.forbidden) :
    (constant tokens ctx' : Rule Id Expression) = constant tokens ctx :=
  Production.rule_of_forbidden h .constant rfl

end Grammar

/-- The kinds of token that stand for a level of nesting. -/
def Kind.nests : Kind → Bool
  | ifWord | add | openParen => true
  | _ => false

/-- The kinds of token that stand for a level of nesting within a sentence. -/
def Kind.nestsExpression : Kind → Bool
  | add | openParen => true
  | _ => false

/-- How many sums and calls can be parts of one another in what is left of a sentence. -/
def levelsInSentence (tokens : List Token) (pos : Nat) : Nat :=
  ((tokens.drop pos).takeWhile fun t => t.kind != .period).countP fun t => t.kind.nestsExpression

/-- How many conditionals begin in front of a position. -/
def conditionalsBefore (tokens : List Token) (pos : Nat) : Nat :=
  (tokens.take pos).countP fun t => t.kind == .ifWord

/-- How deep a search can be nested at a position. Each conditional that begins in front of it may
still go on there, and in the rest of the sentence each sum and each call may be a part of the one
before. -/
def levelsAt (tokens : List Token) (pos : Nat) : Nat :=
  conditionalsBefore tokens pos + levelsInSentence tokens pos

theorem levelsInSentence_le (hle : pos ≤ next) (hfree : Free tokens .period pos next) :
    levelsInSentence tokens next ≤ levelsInSentence tokens pos := by
  have hpasses : ∀ t ∈ (tokens.drop pos).take (next - pos), (t.kind != .period) = true := by
    intro t ht
    obtain ⟨i, hi⟩ := List.mem_iff_getElem?.mp ht
    rw [List.getElem?_take] at hi
    split at hi
    · rw [List.getElem?_drop] at hi
      exact bne_iff_ne.mpr (hfree (pos + i) t (by omega) (by omega) hi)
    · cases hi
  have hsplit : tokens.drop pos = (tokens.drop pos).take (next - pos) ++ tokens.drop next := by
    have hdrop : (tokens.drop pos).drop (next - pos) = tokens.drop next := by
      rw [List.drop_drop, Nat.add_sub_of_le hle]
    rw [← hdrop, List.take_append_drop]
  rw [levelsInSentence, levelsInSentence, hsplit, List.takeWhile_append_of_pos hpasses,
    List.countP_append]
  exact Nat.le_add_left _ _

theorem levelsInSentence_start_le {first last : List Kind} {start : Nat}
    (hspan : Spans tokens first last pos start next) (hfree : Free tokens .period pos next) :
    levelsInSentence tokens start ≤ levelsInSentence tokens pos := by
  apply levelsInSentence_le hspan.le
  intro i t hle hlt ht
  exact hfree i t hle (Nat.lt_trans hlt hspan.lt) ht

/-- Behind a sum or a call that begins there is one level less. -/
theorem levelsInSentence_lt {p : Parsed Token} (hkind : kind.nestsExpression = true)
    (hctx : ctx.forbidden = some .period)
    (h : Id.run (Grammar.token tokens ctx kind pos) = some p) :
    levelsInSentence tokens p.next < levelsInSentence tokens pos := by
  obtain ⟨hfinds, hnext⟩ := run_token_eq_some_iff.mp h
  obtain ⟨hlt, hget⟩ := List.getElem?_eq_some_iff.mp hfinds.at_index
  have hnests : tokens[p.start].kind.nestsExpression = true := by rw [hget, hfinds.kind_eq, hkind]
  have hgoes : (tokens[p.start].kind != .period) = true := by
    apply bne_iff_ne.mpr
    intro he
    rw [he] at hnests
    cases hnests
  have hhere : levelsInSentence tokens p.start = levelsInSentence tokens p.next + 1 := by
    rw [levelsInSentence, levelsInSentence, hnext, List.drop_eq_getElem_cons hlt,
      List.takeWhile_cons, if_pos hgoes]
    exact List.countP_cons_of_pos hnests
  have hbefore : levelsInSentence tokens p.start ≤ levelsInSentence tokens pos := by
    apply levelsInSentence_le hfinds.le
    intro i t hle hbehind ht he
    exact (hfinds.passes i t hle hbehind ht).2 (he ▸ hctx)
  omega

theorem conditionalsBefore_mono (h : pos ≤ next) :
    conditionalsBefore tokens pos ≤ conditionalsBefore tokens next :=
  (List.take_sublist_take_left h).countP_le

/-- Behind its `If` a conditional has begun. -/
theorem conditionalsBefore_lt (ht : tokens[pos]? = some t) (hkind : t.kind = .ifWord)
    (hlt : pos < next) : conditionalsBefore tokens pos < conditionalsBefore tokens next := by
  have hhere : conditionalsBefore tokens (pos + 1) = conditionalsBefore tokens pos + 1 := by
    rw [conditionalsBefore, conditionalsBefore, List.take_add_one, ht, Option.toList_some,
      List.countP_append, List.countP_singleton, hkind]
    rfl
  have hmono : conditionalsBefore tokens (pos + 1) ≤ conditionalsBefore tokens next :=
    conditionalsBefore_mono hlt
  omega

/-- There are no more levels than words that nest. -/
theorem levelsAt_le (tokens : List Token) (pos : Nat) :
    levelsAt tokens pos ≤ tokens.countP fun t => t.kind.nests := by
  have hbefore : conditionalsBefore tokens pos ≤
      (tokens.take pos).countP fun t => t.kind.nests := by
    apply List.countP_mono_left
    intro t _ ht
    rw [beq_iff_eq.mp ht]
    rfl
  have hahead : levelsInSentence tokens pos ≤ (tokens.drop pos).countP fun t => t.kind.nests := by
    apply Nat.le_trans (List.takeWhile_sublist _).countP_le
    apply List.countP_mono_left
    intro t _ ht
    revert ht
    cases t.kind <;> decide
  have htotal : tokens.countP (fun t => t.kind.nests) = (tokens.take pos).countP (·.kind.nests) +
      (tokens.drop pos).countP (·.kind.nests) := by
    rw [← List.countP_append, List.take_append_drop]
  rw [levelsAt]
  omega

/-- There is as much room as the search can need from a position on. -/
def Suffices (tokens : List Token) (room pos : Nat) : Prop :=
  ∀ next, pos ≤ next → levelsAt tokens next ≤ room + conditionalsBefore tokens pos

theorem Suffices.mono (h : Suffices tokens room pos) {more : Nat} (hle : room ≤ more) :
    Suffices tokens more pos := by
  intro next hnext
  have hroom := h next hnext
  omega

theorem Suffices.later (h : Suffices tokens room pos) (hle : pos ≤ next) :
    Suffices tokens room next := by
  intro later hlater
  have hroom := h later (Nat.le_trans hle hlater)
  have hmono : conditionalsBefore tokens pos ≤ conditionalsBefore tokens next :=
    conditionalsBefore_mono hle
  omega

theorem Suffices.sentence (h : Suffices tokens room pos) : levelsInSentence tokens pos ≤ room := by
  have hroom := h pos (Nat.le_refl pos)
  rw [levelsAt] at hroom
  omega

/-- A conditional takes one level of the room and is one of those that have begun. -/
theorem Suffices.body (h : Suffices tokens (room + 1) pos) (ht : tokens[pos]? = some t)
    (hkind : t.kind = .ifWord) (hlt : pos < next) : Suffices tokens room next := by
  intro later hlater
  have hroom := h later (Nat.le_of_lt (Nat.lt_of_lt_of_le hlt hlater))
  have hbegun := conditionalsBefore_lt ht hkind hlt
  omega

/-- Where a conditional begins there has to be room for it. -/
theorem Suffices.room_pos (h : Suffices tokens room pos) (ht : tokens[pos]? = some t)
    (hkind : t.kind = .ifWord) : 0 < room := by
  have hroom := h (pos + 1) (Nat.le_add_right pos 1)
  have hbegun := conditionalsBefore_lt ht hkind (Nat.lt_add_one pos)
  rw [levelsAt] at hroom
  omega

/-- Where there is room, the context one level deeper forbids the same again. -/
theorem Context.nested_alike (hforbidden : ctx'.forbidden = ctx.forbidden) (hroom : 0 < ctx'.room)
    (h : ctx.nested? = some inner) :
    ∃ inner', ctx'.nested? = some inner' ∧ inner'.forbidden = inner.forbidden := by
  obtain ⟨forbidden, _ | room⟩ := ctx'
  · cases hroom
  · exact ⟨⟨forbidden, room⟩, rfl, hforbidden.trans (nested_forbidden h).symm⟩

/-- One level deeper than the two contexts the same is found at all of these positions. -/
def AgreeWithin {α : Type} (ctx ctx' : Context) (rule : Context → Rule Id α)
    (positions : Nat → Prop) : Prop :=
  ∀ inner inner' next, ctx.nested? = some inner → ctx'.nested? = some inner' → positions next →
    Id.run (rule inner' next) = Id.run (rule inner next)

theorem AgreeWithin.symm {α : Type} {rule : Context → Rule Id α} {positions : Nat → Prop}
    (h : AgreeWithin ctx ctx' rule positions) : AgreeWithin ctx' ctx rule positions :=
  fun inner inner' next hinner hinner' hnext => (h inner' inner next hinner' hinner hnext).symm

namespace Grammar

theorem add_of_room {p : Parsed Expression} (hctx : ctx.forbidden = some .period)
    (hforbidden : ctx'.forbidden = ctx.forbidden)
    (hroom : levelsInSentence tokens p.start ≤ ctx'.room)
    (hagree : AgreeWithin ctx ctx' (expression tokens) fun next =>
      levelsInSentence tokens next < levelsInSentence tokens p.start)
    (h : Id.run (add tokens ctx pos) = some p) : Id.run (add tokens ctx' pos) = some p := by
  obtain ⟨inner, hinner, h⟩ := run_add.mp h
  rw [run_addOf] at h
  obtain ⟨left, hleft, h⟩ := Option.bind_eq_some_iff.mp h
  obtain ⟨plus, hplus, h⟩ := Option.bind_eq_some_iff.mp h
  obtain ⟨right, hright, h⟩ := Option.bind_eq_some_iff.mp h
  obtain rfl := Option.some.inj h
  have hperiod : inner.forbidden = some .period := (nested_forbidden hinner).trans hctx
  have hspan := identifier_spans hleft
  have hname : Free tokens .period left.start left.next := by
    intro i t hle hlt ht
    exact identifier_free hperiod hleft i t (Nat.le_trans hspan.le hle) hlt ht
  change levelsInSentence tokens left.start ≤ ctx'.room at hroom
  have hless : levelsInSentence tokens plus.next < levelsInSentence tokens left.start :=
    Nat.lt_of_lt_of_le (levelsInSentence_lt rfl hperiod hplus)
      (levelsInSentence_le (Nat.le_of_lt hspan.lt) hname)
  obtain ⟨inner', hinner', hsame⟩ := Context.nested_alike hforbidden (by omega) hinner
  refine run_add.mpr ⟨inner', hinner', ?_⟩
  rw [run_addOf, identifier_of_forbidden hsame, hleft, Option.bind_eq_bind, Option.bind_some,
    token_of_forbidden hsame, hplus, Option.bind_eq_bind, Option.bind_some,
    hagree inner inner' plus.next hinner hinner' hless, hright]
  rfl

/-- Further arguments are looked for in the sentence of the first. -/
theorem furtherArguments_of_agree {argument argument' : Rule Id Expression}
    (hctx : ctx.forbidden = some .period) (hforbidden : ctx'.forbidden = ctx.forbidden)
    (hagree : ∀ next, pos ≤ next → Free tokens .period pos next →
      Id.run (argument' next) = Id.run (argument next))
    (hmoves : ∀ next p, Id.run (argument next) = some p →
      next < p.next ∧ Free tokens .period next p.next)
    (bound start : Nat) (hle : pos ≤ next) (hfree : Free tokens .period pos next) :
    Id.run (furtherArguments tokens ctx' argument' bound ⟨some start, next⟩) =
      Id.run (furtherArguments tokens ctx argument bound ⟨some start, next⟩) := by
  induction bound generalizing next with
  | zero => rfl
  | succ bound ih =>
    rw [run_furtherArguments, run_furtherArguments, separator_of_forbidden hforbidden]
    cases hsep : Id.run (separator tokens ctx next) with
    | none => rfl
    | some sep =>
      have hsepLt := (separator_spans hsep).pos_lt
      obtain ⟨value, _, next'⟩ := sep
      cases value with
      | close => rfl
      | and =>
        simp only at hsepLt
        simp only [Option.bind_eq_bind, Option.bind_some]
        have hbehind : Free tokens .period pos next' := by
          rcases run_separator hsep with ⟨link, hlink, hparsed⟩ | ⟨closing, _, hparsed⟩
          · cases hparsed
            exact hfree.append (free_of_run_token hctx (by decide) hlink)
          · cases hparsed
        rw [hagree next' (by omega) hbehind]
        cases hfirst : Id.run (argument next') with
        | none => rfl
        | some first =>
          obtain ⟨hfirstLt, hfirstFree⟩ := hmoves next' first hfirst
          rw [Option.bind_some, Option.bind_some, ih (by omega) (hbehind.append hfirstFree)]

theorem functionCall_of_room {p : Parsed Expression} (hctx : ctx.forbidden = some .period)
    (hforbidden : ctx'.forbidden = ctx.forbidden)
    (hroom : levelsInSentence tokens p.start ≤ ctx'.room)
    (hagree : AgreeWithin ctx ctx' (expression tokens) fun next =>
      levelsInSentence tokens next < levelsInSentence tokens p.start)
    (h : Id.run (functionCall tokens ctx pos) = some p) :
    Id.run (functionCall tokens ctx' pos) = some p := by
  obtain ⟨inner, hinner, h⟩ := run_functionCall.mp h
  rw [run_functionCallOf] at h
  obtain ⟨opening, hopening, h⟩ := Option.bind_eq_some_iff.mp h
  obtain ⟨name, hname, h⟩ := Option.bind_eq_some_iff.mp h
  obtain ⟨first, hfirst, h⟩ := Option.bind_eq_some_iff.mp h
  obtain ⟨others, hothers, h⟩ := Option.bind_eq_some_iff.mp h
  have hstart : p.start = opening.start := by
    obtain ⟨hseq, _⟩ := arguments_derive expression_derives _ hothers
    cases h
    simp only [Sequence.finish, hseq, Option.getD_some]
  rw [hstart] at hroom hagree
  have hperiod : inner.forbidden = some .period := (nested_forbidden hinner).trans hctx
  have hfound := (run_token_eq_some_iff.mp hopening).1
  have hhere : Id.run (token tokens inner .openParen opening.start) = some opening :=
    run_token_eq_some_iff.mpr ⟨.here hfound.at_index hfound.kind_eq,
      (run_token_eq_some_iff.mp hopening).2⟩
  have hless := levelsInSentence_lt rfl hperiod hhere
  obtain ⟨inner', hinner', hsame⟩ := Context.nested_alike hforbidden (by omega) hinner
  have hfrom : ∀ next, opening.next ≤ next → Free tokens .period opening.next next →
      Id.run (expression tokens inner' next) = Id.run (expression tokens inner next) := by
    intro next hle hfree
    exact hagree inner inner' next hinner hinner'
      (Nat.lt_of_le_of_lt (levelsInSentence_le hle hfree) hless)
  have hnameLt := (identifier_spans hname).pos_lt
  have hfirstLt := (expression_spans hfirst).pos_lt
  have hnameFree := identifier_free hperiod hname
  have hmoves : ∀ next q, Id.run (expression tokens inner next) = some q →
      next < q.next ∧ Free tokens .period next q.next :=
    fun next q hq => ⟨(expression_spans hq).pos_lt, expression_free hq⟩
  refine run_functionCall.mpr ⟨inner', hinner', ?_⟩
  rw [run_functionCallOf, token_of_forbidden hsame, hopening, Option.bind_eq_bind,
    Option.bind_some, identifier_of_forbidden hsame, hname, Option.bind_eq_bind, Option.bind_some,
    hfrom name.next (Nat.le_of_lt hnameLt) hnameFree, hfirst, Option.bind_eq_bind,
    Option.bind_some, furtherArguments_of_agree hperiod hsame hfrom hmoves _ _ (by omega)
      (hnameFree.append (expression_free hfirst)), hothers]
  exact h

/-- A level deeper there is room for one level less. -/
theorem expression_within {start : Nat}
    (hsame : ∀ inner inner' next, levelsInSentence tokens next < levelsInSentence tokens start →
      levelsInSentence tokens next ≤ inner.room → levelsInSentence tokens next ≤ inner'.room →
        Id.run (expression tokens inner' next) = Id.run (expression tokens inner next))
    (hroom : levelsInSentence tokens start ≤ ctx.room)
    (hroom' : levelsInSentence tokens start ≤ ctx'.room) :
    AgreeWithin ctx ctx' (expression tokens) fun next =>
      levelsInSentence tokens next < levelsInSentence tokens start := by
  intro inner inner' next hinner hinner' hless
  have hdeeper := nested_room hinner
  have hdeeper' := nested_room hinner'
  exact hsame inner inner' next hless (by omega) (by omega)

/-- A form of expression is the same in both contexts if what it finds in the one carries over to
the other. -/
theorem form_of_room {form : Context → Rule Id Expression}
    (hmoved : ∀ {outer outer' : Context} {p : Parsed Expression},
      outer.forbidden = some .period → outer'.forbidden = outer.forbidden →
      levelsInSentence tokens p.start ≤ outer'.room →
      (AgreeWithin outer outer' (expression tokens) fun next =>
        levelsInSentence tokens next < levelsInSentence tokens p.start) →
      Id.run (form outer pos) = some p → Id.run (form outer' pos) = some p)
    (hstarts : ∀ {outer : Context} {p : Parsed Expression},
      Id.run (form (outer.forbid .period) pos) = some p →
        levelsInSentence tokens p.start ≤ levelsInSentence tokens pos)
    (hagree : ∀ {start}, levelsInSentence tokens start ≤ levelsInSentence tokens pos →
      AgreeWithin (ctx.forbid .period) (ctx'.forbid .period) (expression tokens) fun next =>
        levelsInSentence tokens next < levelsInSentence tokens start)
    (hroom : levelsInSentence tokens pos ≤ ctx.room)
    (hroom' : levelsInSentence tokens pos ≤ ctx'.room) :
    Id.run (form (ctx'.forbid .period) pos) = Id.run (form (ctx.forbid .period) pos) := by
  have hflat : (ctx'.forbid .period).forbidden = (ctx.forbid .period).forbidden := rfl
  apply Option.ext
  intro p
  constructor
  · intro hp
    have hstart := hstarts hp
    exact hmoved rfl hflat.symm (Nat.le_trans hstart hroom) (hagree hstart).symm hp
  · intro hp
    have hstart := hstarts hp
    exact hmoved rfl hflat (Nat.le_trans hstart hroom') (hagree hstart) hp

/-- An expression is the same in all contexts that have room for the levels of its sentence. -/
theorem expression_of_room (hroom : levelsInSentence tokens pos ≤ ctx.room)
    (hroom' : levelsInSentence tokens pos ≤ ctx'.room) :
    Id.run (expression tokens ctx' pos) = Id.run (expression tokens ctx pos) := by
  induction hlevels : levelsInSentence tokens pos using Nat.strongRecOn
    generalizing ctx ctx' pos with
  | _ levels ih =>
    subst hlevels
    have hagree : ∀ {start}, levelsInSentence tokens start ≤ levelsInSentence tokens pos →
        AgreeWithin (ctx.forbid .period) (ctx'.forbid .period) (expression tokens) fun next =>
          levelsInSentence tokens next < levelsInSentence tokens start := by
      intro start hstart
      refine expression_within (fun _ _ next hless hinner hinner' => ?_)
        (Nat.le_trans hstart hroom) (Nat.le_trans hstart hroom')
      exact ih _ (Nat.lt_of_lt_of_le hless hstart) hinner hinner' rfl
    have hadd : Id.run (add tokens (ctx'.forbid .period) pos) =
        Id.run (add tokens (ctx.forbid .period) pos) :=
      form_of_room add_of_room (fun hp => levelsInSentence_start_le (add_spans hp) (add_free hp))
        hagree hroom hroom'
    have hcall : Id.run (functionCall tokens (ctx'.forbid .period) pos) =
        Id.run (functionCall tokens (ctx.forbid .period) pos) :=
      form_of_room functionCall_of_room
        (fun hp => levelsInSentence_start_le (functionCall_spans hp) (functionCall_free hp))
        hagree hroom hroom'
    have hflat : (ctx'.forbid .period).forbidden = (ctx.forbid .period).forbidden := rfl
    have hbare : (bareVariable tokens (ctx'.forbid .period) : Rule Id Expression) =
        bareVariable tokens (ctx.forbid .period) :=
      Production.rule_of_forbidden hflat .variable rfl
    rw [run_expression, run_expression, square_of_forbidden hflat, hadd,
      constant_of_forbidden hflat, hcall, hbare]

theorem expressionStatement_of_room (hforbidden : ctx'.forbidden = ctx.forbidden)
    (hroom : Suffices tokens ctx.room pos) (hroom' : Suffices tokens ctx'.room pos) :
    Id.run (expressionStatement tokens ctx' pos) = Id.run (expressionStatement tokens ctx pos) := by
  rw [run_expressionStatement, run_expressionStatement,
    expression_of_room hroom.sentence hroom'.sentence, token_of_forbidden hforbidden]

/-- Of the simple forms only the expression knows of room. -/
theorem simpleOutcomes_of_forbidden (hforbidden : ctx'.forbidden = ctx.forbidden) :
    simpleOutcomes tokens ctx' pos =
      (simpleOutcomes tokens ctx pos).set 3 (Id.run (expressionStatement tokens ctx' pos)) := by
  have hassignment : (assignment tokens ctx' : Rule Id Statement) = assignment tokens ctx :=
    Production.rule_of_forbidden hforbidden .assignment rfl
  have hincrement : (increment tokens ctx' : Rule Id Statement) = increment tokens ctx :=
    Production.rule_of_forbidden hforbidden .increment rfl
  have hgoto : (goto tokens ctx' : Rule Id Statement) = goto tokens ctx :=
    Production.rule_of_forbidden hforbidden .goto rfl
  have hcomment : (comment tokens ctx' : Rule Id Statement) = comment tokens ctx :=
    Production.rule_of_forbidden hforbidden .comment rfl
  have hinvalid : (invalid tokens ctx' : Rule Id Statement) = invalid tokens ctx :=
    Production.rule_of_forbidden hforbidden .invalid rfl
  rw [simpleOutcomes, simpleForms, hassignment, hincrement, hgoto, hcomment, hinvalid]
  rfl

theorem simpleOutcomes_of_room (hforbidden : ctx'.forbidden = ctx.forbidden)
    (hroom : Suffices tokens ctx.room pos) (hroom' : Suffices tokens ctx'.room pos) :
    simpleOutcomes tokens ctx' pos = simpleOutcomes tokens ctx pos := by
  rw [simpleOutcomes_of_forbidden hforbidden, expressionStatement_of_room hforbidden hroom hroom']
  rfl

theorem equality_of_room (hforbidden : ctx'.forbidden = ctx.forbidden)
    (hroom : Suffices tokens ctx.room pos) (hroom' : Suffices tokens ctx'.room pos) :
    Id.run (equality tokens ctx' pos) = Id.run (equality tokens ctx pos) := by
  have hcopula : (copula tokens ctx' : Rule Id Verb) = copula tokens ctx :=
    Production.rule_of_forbidden hforbidden .copula rfl
  rw [run_equality, run_equality, expression_of_room hroom.sentence hroom'.sentence, hcopula]
  refine Option.bind_congr fun left hleft => Option.bind_congr fun link hlink => ?_
  have hleftLt := (expression_spans hleft).pos_lt
  have hlinkLt := (copula_spans hlink).pos_lt
  have hle : pos ≤ link.next := by omega
  have hright : Id.run (expression tokens ctx' link.next) =
      Id.run (expression tokens ctx link.next) :=
    expression_of_room (hroom.later hle).sentence (hroom'.later hle).sentence
  rw [hright]

/-- From a position on both rules find the same. -/
def AgreeFrom {α : Type} (pos : Nat) (rule rule' : Rule Id α) : Prop :=
  ∀ next, pos ≤ next → Id.run (rule' next) = Id.run (rule next)

/-- What more there is in a block is the same if its statements are. -/
theorem furtherStatements_of_agree {rule rule' : Rule Id Statement}
    (hforbidden : ctx'.forbidden = ctx.forbidden) (hagree : AgreeFrom pos rule rule')
    (hmoves : ∀ next p, Id.run (rule next) = some p → next < p.next) (bound start : Nat)
    (hle : pos ≤ next) :
    Id.run (furtherStatements .exhaustive tokens ctx' rule' bound ⟨some start, next⟩) =
      Id.run (furtherStatements .exhaustive tokens ctx rule bound ⟨some start, next⟩) := by
  induction bound generalizing next with
  | zero => rfl
  | succ bound ih =>
    have hstep : Id.run (blockStep .exhaustive tokens ctx' rule' next) =
        Id.run (blockStep .exhaustive tokens ctx rule next) := by
      rw [run_blockStep, run_blockStep, blockEnd_of_forbidden hforbidden, hagree next hle]
    rw [run_furtherStatements, run_furtherStatements, hstep]
    refine Option.bind_congr fun step hfound => ?_
    obtain ⟨_ | first, start', next'⟩ := step
    · rfl
    · have hlt := hmoves next _ (run_blockStep_some hfound rfl)
      simp only at hlt ⊢
      rw [ih (by omega)]

theorem blockOf_of_agree {rule rule' : Rule Id Statement}
    (hforbidden : ctx'.forbidden = ctx.forbidden) (hagree : AgreeFrom pos rule rule')
    (hmoves : ∀ next p, Id.run (rule next) = some p → next < p.next) (hle : pos ≤ next) :
    Id.run (blockOf .exhaustive tokens ctx' rule' next) =
      Id.run (blockOf .exhaustive tokens ctx rule next) := by
  rw [run_blockOf, run_blockOf, hagree next hle]
  refine Option.bind_congr fun first hfirst => ?_
  have hlt := hmoves next first hfirst
  rw [furtherStatements_of_agree hforbidden hagree hmoves _ _ (by omega)]

theorem conditional_of_room {p : Parsed Statement} (hforbidden : ctx'.forbidden = ctx.forbidden)
    (hroom : Suffices tokens ctx.room p.start) (hroom' : Suffices tokens ctx'.room p.start)
    (hagree : AgreeWithin ctx ctx' (statement .exhaustive tokens) (p.start < ·))
    (h : Id.run (conditional .exhaustive tokens ctx pos) = some p) :
    Id.run (conditional .exhaustive tokens ctx' pos) = some p := by
  obtain ⟨inner, hinner, h⟩ := run_conditional.mp h
  rw [run_conditionalOf] at h
  obtain ⟨opening, hopening, h⟩ := Option.bind_eq_some_iff.mp h
  obtain ⟨condition, hcondition, h⟩ := Option.bind_eq_some_iff.mp h
  obtain ⟨comma, hcomma, h⟩ := Option.bind_eq_some_iff.mp h
  obtain ⟨body, hbody, h⟩ := Option.bind_eq_some_iff.mp h
  cases h
  obtain ⟨hfinds, hnext⟩ := run_token_eq_some_iff.mp hopening
  change Suffices tokens ctx.room opening.start at hroom
  change Suffices tokens ctx'.room opening.start at hroom'
  obtain ⟨inner', hinner', hsame⟩ := Context.nested_alike hforbidden
    (hroom'.room_pos hfinds.at_index hfinds.kind_eq) hinner
  have hbehind : opening.start < opening.next := by omega
  have hwithin : Suffices tokens inner.room opening.next :=
    (nested_room hinner ▸ hroom).body hfinds.at_index hfinds.kind_eq hbehind
  have hwithin' : Suffices tokens inner'.room opening.next :=
    (nested_room hinner' ▸ hroom').body hfinds.at_index hfinds.kind_eq hbehind
  have hfrom : AgreeFrom opening.next (statement .exhaustive tokens inner)
      (statement .exhaustive tokens inner') :=
    fun next hle => hagree inner inner' next hinner hinner' (Nat.lt_of_lt_of_le hbehind hle)
  have hconditionLt := (equality_spans hcondition).pos_lt
  have hcommaLt := (token_spans .comma hcomma).pos_lt
  have hblock : Id.run (block .exhaustive tokens inner' comma.next) = some body := by
    rw [block, blockOf_of_agree hsame hfrom (fun next q hq => (statement_spans hq).pos_lt)
      (by omega)]
    exact hbody
  refine run_conditional.mpr ⟨inner', hinner', ?_⟩
  rw [run_conditionalOf, token_of_forbidden hsame, hopening, Option.bind_eq_bind,
    Option.bind_some, equality_of_room hsame hwithin hwithin', hcondition, Option.bind_eq_bind,
    Option.bind_some, hcomma, Option.bind_eq_bind, Option.bind_some, hblock]
  rfl

/-- In the body of a conditional there is room for one level less, and that is enough. -/
theorem statement_within {start : Nat}
    (hsame : ∀ inner inner' next, inner.room < ctx.room → inner'.forbidden = inner.forbidden →
      Suffices tokens inner.room next → Suffices tokens inner'.room next →
        Id.run (statement .exhaustive tokens inner' next) =
          Id.run (statement .exhaustive tokens inner next))
    (hforbidden : ctx'.forbidden = ctx.forbidden) (ht : tokens[start]? = some t)
    (hkind : t.kind = .ifWord) (hroom : Suffices tokens ctx.room start)
    (hroom' : Suffices tokens ctx'.room start) :
    AgreeWithin ctx ctx' (statement .exhaustive tokens) (start < ·) := by
  intro inner inner' next hinner hinner' hlt
  have hdeeper := nested_room hinner
  have hdeeper' := nested_room hinner'
  rw [hdeeper] at hroom
  rw [hdeeper'] at hroom'
  have hflat : inner'.forbidden = inner.forbidden := by
    rw [nested_forbidden hinner, nested_forbidden hinner', hforbidden]
  exact hsame inner inner' next (by omega) hflat (hroom.body ht hkind hlt)
    (hroom'.body ht hkind hlt)

/-- A statement is the same in all contexts that forbid the same and have room for all levels
ahead. -/
theorem statement_of_room (hforbidden : ctx'.forbidden = ctx.forbidden)
    (hroom : Suffices tokens ctx.room pos) (hroom' : Suffices tokens ctx'.room pos) :
    Id.run (statement .exhaustive tokens ctx' pos) =
      Id.run (statement .exhaustive tokens ctx pos) := by
  induction hlevels : ctx.room using Nat.strongRecOn generalizing ctx ctx' pos with
  | _ levels ih =>
    subst hlevels
    have hagree : ∀ {start t}, pos ≤ start → tokens[start]? = some t → t.kind = .ifWord →
        AgreeWithin ctx ctx' (statement .exhaustive tokens) (start < ·) :=
      fun hle ht hkind => statement_within
        (fun _ _ _ hless hflat hinner hinner' => ih _ hless hflat hinner hinner' rfl)
        hforbidden ht hkind (hroom.later hle) (hroom'.later hle)
    have hconditional : Id.run (conditional .exhaustive tokens ctx' pos) =
        Id.run (conditional .exhaustive tokens ctx pos) := by
      apply Option.ext
      intro p
      constructor
      · intro hp
        have hle := (conditional_spans hp).le
        obtain ⟨t, ht, hkind⟩ := (conditional_spans hp).opening
        exact conditional_of_room hforbidden.symm (hroom'.later hle) (hroom.later hle)
          (hagree hle ht (List.mem_singleton.mp hkind)).symm hp
      · intro hp
        have hle := (conditional_spans hp).le
        obtain ⟨t, ht, hkind⟩ := (conditional_spans hp).opening
        exact conditional_of_room hforbidden (hroom.later hle) (hroom'.later hle)
          (hagree hle ht (List.mem_singleton.mp hkind)) hp
    rw [statement_eq, statement_eq, run_statementOf, run_statementOf, hconditional,
      simpleOutcomes_of_room hforbidden hroom hroom']

end Grammar

end Dossier
