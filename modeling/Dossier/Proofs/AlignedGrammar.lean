import Dossier.Proofs.Alignment

namespace Dossier

variable {α β : Type} {heeds : Kind → Bool} {place : Nat → Nat} {tokens others : List Token}
  {ctx inner : Context}

theorem Context.Heeded.nested (h : ctx.Heeded heeds) (hinner : ctx.nested? = some inner) :
    inner.Heeded heeds := by
  obtain ⟨forbidden, _ | room⟩ := ctx
  · cases hinner
  · cases hinner
    exact h

/-- What a form of the grammar finds begins and ends with no noise. -/
theorem Production.edges_heeded (p : Production) (hp : p.isForm = true) :
    (∀ kind ∈ p.openings, kind.isNoise = false) ∧
      ∀ kind ∈ p.closings, kind.isNoise = false := by
  cases p with
  | token kind => cases hp
  | _ => decide

namespace Alignment

open Grammar

variable (A : Alignment heeds place tokens others)
include A

theorem forbid_period : (ctx.forbid .period).Heeded heeds := by
  intro kind hkind
  cases hkind
  exact A.wanted .period rfl

theorem token_of_heeded {kind : Kind} (hkind : heeds kind = true) (hctx : ctx.Heeded heeds) :
    Rule.Aligned place (token tokens ctx kind) (token others ctx kind) := by
  intro pos
  rw [run_token, run_token, A.search pos hkind hctx]

theorem token (kind : Kind) (hkind : kind.isNoise = false) (hctx : ctx.Heeded heeds) :
    Rule.Aligned place (Grammar.token tokens ctx kind) (Grammar.token others ctx kind) :=
  A.token_of_heeded (A.wanted kind hkind) hctx

theorem expect (kind : Kind) (hkind : kind.isNoise = false) (hctx : ctx.Heeded heeds) :
    Steps.Aligned place (Grammar.expect tokens ctx kind) (Grammar.expect others ctx kind) :=
  .bind (.take (A.token kind hkind hctx)) fun _ => .pure ()

theorem allow (kind : Kind) (hkind : kind.isNoise = false) (hctx : ctx.Heeded heeds) :
    Steps.Aligned place (Grammar.allow tokens ctx kind) (Grammar.allow others ctx kind) :=
  .bind (.perhaps (A.token kind hkind hctx)) fun _ => .pure ()

theorem identifier (hctx : ctx.Heeded heeds) :
    Rule.Aligned place (Grammar.identifier tokens ctx) (Grammar.identifier others ctx) :=
  (A.token _ rfl hctx).read _

theorem constant_value (hctx : ctx.Heeded heeds) :
    Rule.Aligned place (Grammar.constantValue tokens ctx) (Grammar.constantValue others ctx) :=
  (A.token _ rfl hctx).read _

theorem verb (hctx : ctx.Heeded heeds) :
    Rule.Aligned place (Grammar.verb tokens ctx) (Grammar.verb others ctx) :=
  (A.token _ rfl hctx).read _

theorem copula (hctx : ctx.Heeded heeds) :
    Rule.Aligned place (Grammar.copula tokens ctx) (Grammar.copula others ctx) :=
  (A.verb hctx).read _

theorem item_number (hctx : ctx.Heeded heeds) :
    Rule.Aligned place (Grammar.itemNumber tokens ctx) (Grammar.itemNumber others ctx) :=
  (A.token _ rfl hctx).read _

theorem object_class (hctx : ctx.Heeded heeds) :
    Rule.Aligned place (Grammar.objectClass tokens ctx) (Grammar.objectClass others ctx) :=
  (A.token _ rfl hctx).read _

theorem marked {first last : List Kind} {pos start next : Nat}
    (h : Spans tokens first last pos start next) (hfirst : ∀ kind ∈ first, kind.isNoise = false)
    (hlast : ∀ kind ∈ last, kind.isNoise = false) : Marked heeds tokens start next := by
  obtain ⟨t, ht, hopening⟩ := h.opening
  obtain ⟨u, hu, hclosing⟩ := h.closing
  have hnext : next = next - 1 + 1 := by
    have hlt := h.lt
    omega
  exact ⟨⟨t, ht, A.wanted _ (hfirst _ hopening)⟩, next - 1, u, hnext, hu,
    A.wanted _ (hlast _ hclosing)⟩

theorem token_marks (kind : Kind) (hkind : kind.isNoise = false) :
    (Grammar.token tokens ctx kind).Marks heeds tokens :=
  fun _ _ hp => A.marked (token_spans kind hp) (by simpa using hkind) (by simpa using hkind)

theorem form_marks (p : Production) (hp : p.isForm = true) :
    (p.rule .exhaustive tokens ctx).Marks heeds tokens := by
  obtain ⟨hopenings, hclosings⟩ := p.edges_heeded hp
  have hend : p ≠ .endOfStream := by
    rintro rfl
    cases hp
  exact fun _ _ hfound => A.marked (p.rule_spans hend hfound) hopenings hclosings

theorem nearest_of_two {a b a' b' : Outcome α} (ha : a' = a.moved place) (hb : b' = b.moved place)
    (hmarked : ∀ p, a = some p → Marked heeds tokens p.start p.next)
    (hmarked' : ∀ p, b = some p → Marked heeds tokens p.start p.next) :
    Candidate.chooseNearest [⟨a', false⟩, ⟨b', false⟩] =
      (Candidate.chooseNearest [⟨a, false⟩, ⟨b, false⟩]).moved place := by
  have hmarks : ∀ c ∈ ([⟨a, false⟩, ⟨b, false⟩] : List (Candidate α)), ∀ p,
      c.outcome = some p → Marked heeds tokens p.start p.next := by
    simp only [List.mem_cons, List.not_mem_nil, or_false, forall_eq_or_imp, forall_eq]
    exact ⟨hmarked, hmarked'⟩
  rw [← A.chooseNearest_moved hmarks, ha, hb]
  rfl

theorem label (hctx : ctx.Heeded heeds) :
    Rule.Aligned place (Grammar.label tokens ctx) (Grammar.label others ctx) := by
  intro pos
  refine A.nearest_of_two ((A.token _ rfl hctx).read _ pos) ((A.token _ rfl hctx).as _ pos) ?_ ?_
  · intro p hp
    obtain ⟨q, hq, hread⟩ := Option.bind_eq_some_iff.mp hp
    obtain ⟨value, _, rfl⟩ := Option.map_eq_some_iff.mp hread
    exact A.token_marks .addendum rfl hq
  · exact fun p hp => (A.token_marks .description rfl).as _ hp

theorem separator (hctx : ctx.Heeded heeds) :
    Rule.Aligned place (Grammar.separator tokens ctx) (Grammar.separator others ctx) :=
  fun pos => A.nearest_of_two ((A.token _ rfl hctx).as _ pos) ((A.token _ rfl hctx).as _ pos)
    (fun _ hp => (A.token_marks .and rfl).as _ hp)
    (fun _ hp => (A.token_marks .closeParen rfl).as _ hp)

/-- Behind a heeded token the bound on the turns of a loop does not show, whichever of the two
streams it was taken from. -/
theorem loop {turn turn' : Steps Id (Option α)} {loop loop' : Nat → Steps Id (List α)}
    (h : Loop tokens turn loop) (h' : Loop others turn' loop')
    (hsame : ∀ bound, Steps.Aligned place (loop bound) (loop' bound)) :
    Steps.AlignedBehind heeds tokens place (loop tokens.length) (loop' others.length) := by
  intro seq hseq
  obtain ⟨last, t, hlast, ht, hheeds⟩ := hseq
  have hlt := (List.getElem?_eq_some_iff.mp ht).1
  have hplace := A.succ ht hheeds
  have hle : place seq.position ≤ others.length := by
    rw [← A.length]
    exact A.mono (by omega)
  have hposition : (seq.moved place).position = place seq.position := rfl
  rw [hlast] at hle hposition
  -- Each bound exceeds what is left of its stream, so both may give way to one that exceeds both.
  have hbound : Id.run (loop tokens.length seq) =
      Id.run (loop (tokens.length + others.length + 1) seq) :=
    h.run_eq_of_lt (by omega) (by omega)
  have hbound' : Id.run (loop' others.length (seq.moved place)) =
      Id.run (loop' (tokens.length + others.length + 1) (seq.moved place)) :=
    h'.run_eq_of_lt (by omega) (by omega)
  rw [hbound, hbound', hsame]

theorem square (hctx : ctx.Heeded heeds) :
    Rule.Aligned place (Grammar.square tokens ctx) (Grammar.square others ctx) :=
  .of_steps <| .bind (A.allow _ rfl hctx) fun _ => .bind (A.expect _ rfl hctx) fun _ =>
    .bind (A.allow _ rfl hctx) fun _ => .bind (.take (A.identifier hctx)) fun _ => .pure _

theorem constant (hctx : ctx.Heeded heeds) :
    Rule.Aligned place (Grammar.constant tokens ctx) (Grammar.constant others ctx) :=
  (A.constant_value hctx).as _

theorem bare_variable (hctx : ctx.Heeded heeds) :
    Rule.Aligned place (Grammar.bareVariable tokens ctx) (Grammar.bareVariable others ctx) :=
  (A.identifier hctx).as _

theorem further_arguments (hctx : ctx.Heeded heeds)
    (h : Rule.Aligned place (Grammar.expression tokens ctx) (Grammar.expression others ctx))
    (bound : Nat) :
    Steps.Aligned place (furtherArguments tokens ctx (Grammar.expression tokens ctx) bound)
      (furtherArguments others ctx (Grammar.expression others ctx) bound) := by
  induction bound with
  | zero => exact .fail
  | succ bound ih =>
    refine .bind (.take (A.separator hctx)) ?_
    rintro (_ | _)
    · exact .bind (.take h) fun _ => .bind ih fun _ => .pure _
    · exact .pure []

section Nested

variable (hctx : ctx.Heeded heeds) (h : ∀ inner, ctx.nested? = some inner →
  Rule.Aligned place (Grammar.expression tokens inner) (Grammar.expression others inner))
include hctx h

theorem add_of_inner : Rule.Aligned place (Grammar.add tokens ctx) (Grammar.add others ctx) := by
  simp only [Grammar.add]
  cases hinner : ctx.nested? with
  | none => exact .never
  | some inner =>
    have hheeded := hctx.nested hinner
    exact .of_steps <| .bind (.take (A.identifier hheeded)) fun _ =>
      .bind (A.expect _ rfl hheeded) fun _ => .bind (.take (h inner hinner)) fun _ => .pure _

theorem function_call_of_inner :
    Rule.Aligned place (Grammar.functionCall tokens ctx) (Grammar.functionCall others ctx) := by
  simp only [Grammar.functionCall]
  cases hinner : ctx.nested? with
  | none => exact .never
  | some inner =>
    have hheeded := hctx.nested hinner
    have hfirst := h inner hinner
    have hothers := A.loop arguments_loop arguments_loop (A.further_arguments hheeded hfirst)
    exact .of_steps <| .bind (A.expect _ rfl hheeded) fun _ =>
      .bind (.take (A.identifier hheeded)) fun _ =>
        .bind_behind (.take hfirst) (A.form_marks .expression rfl).take fun _ =>
          hothers.bind fun _ => .pure _

end Nested

theorem expression_of_inner (h : ∀ inner, (ctx.forbid .period).nested? = some inner →
    Rule.Aligned place (Grammar.expression tokens inner) (Grammar.expression others inner)) :
    Rule.Aligned place (Grammar.expression tokens ctx) (Grammar.expression others ctx) := by
  intro pos
  have hperiod : (ctx.forbid .period).Heeded heeds := A.forbid_period
  rw [run_expression, run_expression, A.square hperiod pos, A.add_of_inner hperiod h pos,
    A.constant hperiod pos, A.function_call_of_inner hperiod h pos, A.bare_variable hperiod pos]
  change Candidate.chooseNearest
    ([⟨_, false⟩, ⟨_, false⟩, ⟨_, false⟩, ⟨_, false⟩, ⟨_, true⟩].map (Candidate.moved place)) = _
  refine A.chooseNearest_moved ?_
  simp only [List.mem_cons, List.not_mem_nil, or_false, forall_eq_or_imp, forall_eq]
  refine ⟨fun p hp => ?_, fun p hp => ?_, fun p hp => ?_, fun p hp => ?_, fun p hp => ?_⟩
  · exact A.form_marks .square rfl hp
  · exact A.form_marks .add rfl hp
  · exact A.form_marks .constant rfl hp
  · exact A.form_marks .functionCall rfl hp
  · exact A.form_marks .variable rfl hp

theorem expression (ctx : Context) :
    Rule.Aligned place (Grammar.expression tokens ctx) (Grammar.expression others ctx) := by
  induction hroom : ctx.room using Nat.strongRecOn generalizing ctx with
  | _ room ih =>
    refine A.expression_of_inner fun inner hinner => ?_
    have hlt := nested_room hinner
    change ctx.room = inner.room + 1 at hlt
    exact ih inner.room (by omega) inner rfl

theorem add (hctx : ctx.Heeded heeds) :
    Rule.Aligned place (Grammar.add tokens ctx) (Grammar.add others ctx) :=
  A.add_of_inner hctx fun inner _ => A.expression inner

theorem function_call (hctx : ctx.Heeded heeds) :
    Rule.Aligned place (Grammar.functionCall tokens ctx) (Grammar.functionCall others ctx) :=
  A.function_call_of_inner hctx fun inner _ => A.expression inner

theorem equality (hctx : ctx.Heeded heeds) :
    Rule.Aligned place (Grammar.equality tokens ctx) (Grammar.equality others ctx) :=
  .of_steps <| .bind (.take (A.expression ctx)) fun _ => .bind (.take (A.copula hctx)) fun _ =>
    .bind (.take (A.expression ctx)) fun _ => .pure _

theorem assignment (hctx : ctx.Heeded heeds) :
    Rule.Aligned place (Grammar.assignment tokens ctx) (Grammar.assignment others ctx) :=
  .of_steps <| .bind (.take (A.identifier hctx)) fun _ => .bind (.take (A.verb hctx)) fun _ =>
    .bind (.take (A.constant_value hctx)) fun _ => .bind (A.expect _ rfl hctx) fun _ => .pure _

theorem reverse_assignment (hctx : ctx.Heeded heeds) :
    Rule.Aligned place (Grammar.reverseAssignment tokens ctx)
      (Grammar.reverseAssignment others ctx) :=
  .of_steps <| .bind (.take (A.expression ctx)) fun _ => .bind (.take (A.verb hctx)) fun _ =>
    .bind (.take (A.identifier hctx)) fun _ => .bind (A.expect _ rfl hctx) fun _ => .pure _

theorem increment (hctx : ctx.Heeded heeds) :
    Rule.Aligned place (Grammar.increment tokens ctx) (Grammar.increment others ctx) :=
  .of_steps <| .bind (.take (A.identifier hctx)) fun _ => .bind (A.expect _ rfl hctx) fun _ =>
    .bind (A.expect _ rfl hctx) fun _ => .pure _

theorem goto (hctx : ctx.Heeded heeds) :
    Rule.Aligned place (Grammar.goto tokens ctx) (Grammar.goto others ctx) :=
  .of_steps <| .bind (A.expect _ rfl hctx) fun _ => .bind (.take (A.label hctx)) fun _ =>
    .bind (A.expect _ rfl hctx) fun _ => .pure _

theorem expression_statement (hctx : ctx.Heeded heeds) :
    Rule.Aligned place (Grammar.expressionStatement tokens ctx)
      (Grammar.expressionStatement others ctx) :=
  .of_steps <| .bind (.take (A.expression ctx)) fun _ => .bind (A.expect _ rfl hctx) fun _ =>
    .pure _

theorem comment (hctx : ctx.Heeded heeds) :
    Rule.Aligned place (Grammar.comment tokens ctx) (Grammar.comment others ctx) :=
  .of_steps <| .bind (A.expect _ rfl hctx) fun _ => .bind (A.expect _ rfl hctx) fun _ => .pure _

theorem invalid (hctx : ctx.Heeded heeds) :
    Rule.Aligned place (Grammar.invalid tokens ctx) (Grammar.invalid others ctx) :=
  .of_steps <| .bind (A.expect _ rfl hctx) fun _ => .pure _

theorem simple_outcomes (hctx : ctx.Heeded heeds) (pos : Nat) :
    simpleOutcomes others ctx (place pos) =
      (simpleOutcomes tokens ctx pos).map (Outcome.moved place) := by
  simp only [simpleOutcomes, simpleForms, List.map_cons, List.map_nil, A.assignment hctx pos,
    A.increment hctx pos, A.goto hctx pos, A.expression_statement hctx pos, A.comment hctx pos,
    A.invalid hctx pos]

theorem simple_outcomes_marked {pos : Nat} {p : Parsed Statement}
    (h : some p ∈ simpleOutcomes tokens ctx pos) : Marked heeds tokens p.start p.next := by
  simp only [simpleOutcomes, simpleForms, List.map_cons, List.map_nil, List.mem_cons,
    List.not_mem_nil, or_false] at h
  rcases h with h | h | h | h | h | h
  · exact A.form_marks .assignment rfl h.symm
  · exact A.form_marks .increment rfl h.symm
  · exact A.form_marks .goto rfl h.symm
  · exact A.form_marks .expressionStatement rfl h.symm
  · exact A.form_marks .comment rfl h.symm
  · exact A.form_marks .invalid rfl h.symm

theorem statement_of_conditional (hctx : ctx.Heeded heeds)
    (h : Rule.Aligned place (Grammar.conditional .exhaustive tokens ctx)
      (Grammar.conditional .exhaustive others ctx)) :
    Rule.Aligned place (Grammar.statement .exhaustive tokens ctx)
      (Grammar.statement .exhaustive others ctx) := by
  intro pos
  rw [statement_eq, statement_eq, run_statementOf, run_statementOf]
  simp only [Strategy.tries, if_true, A.simple_outcomes hctx pos, h pos]
  rw [← List.map_cons, List.map_map]
  have hmarks : ∀ c ∈ (Id.run (Grammar.conditional .exhaustive tokens ctx pos) ::
      simpleOutcomes tokens ctx pos).map (fun outcome => Candidate.mk outcome false),
      ∀ p, c.outcome = some p → Marked heeds tokens p.start p.next := by
    intro c hc p hp
    obtain ⟨outcome, hmem, rfl⟩ := List.mem_map.mp hc
    obtain rfl : outcome = some p := hp
    rcases List.mem_cons.mp hmem with hbranch | hsimple
    · exact A.form_marks .conditional rfl hbranch.symm
    · exact A.simple_outcomes_marked hsimple
  rw [← A.chooseNearest_moved hmarks, List.map_map]
  rfl

theorem end_of_stream (pos : Nat) :
    endOfStream others (place pos) = (endOfStream tokens pos).moved place := by
  unfold endOfStream
  by_cases hle : tokens.length ≤ pos
  · have hle' : others.length ≤ place pos := A.length ▸ A.mono hle
    simp [hle, hle', Parsed.moved, A.length]
  · have hlt : ¬ others.length ≤ place pos := fun hle' => hle (A.finished hle')
    simp [hle, hlt]

theorem block_end (hctx : ctx.Heeded heeds) :
    Rule.Aligned place (blockEnd tokens ctx) (blockEnd others ctx) := by
  intro pos
  have hrule := (A.token .rule rfl hctx).as (fun _ => ()) pos
  rw [run_blockEnd, run_blockEnd]
  -- The end of the stream lies between no tokens, but where it is reached no rule competes with it.
  by_cases hle : tokens.length ≤ pos
  · have hnone : Id.run (Grammar.token tokens ctx .rule pos) = none :=
      (token_spans .rule).run_at_length hle
    rw [A.token .rule rfl hctx pos, hnone, A.end_of_stream pos]
    simp [Candidate.chooseNearest, Outcome.as]
  · refine A.nearest_of_two hrule (A.end_of_stream pos) ?_ ?_
    · exact fun p hp => (A.token_marks .rule rfl).as (fun _ => ()) hp
    · simp [endOfStream, hle]

theorem block_end_marked {pos : Nat} {stop : Parsed Unit} (hlt : pos < tokens.length)
    (h : Id.run (blockEnd tokens ctx pos) = some stop) :
    Marked heeds tokens stop.start stop.next := by
  rw [run_blockEnd, endOfStream, if_neg (Nat.not_le_of_lt hlt)] at h
  obtain ⟨c, hc, hp⟩ := Candidate.mem_of_chooseNearest h
  simp only [List.mem_cons, List.not_mem_nil, or_false] at hc
  rcases hc with rfl | rfl
  · exact (A.token_marks .rule rfl).as _ hp
  · cases hp

theorem block_step (hctx : ctx.Heeded heeds)
    (h : Rule.Aligned place (Grammar.statement .exhaustive tokens ctx)
      (Grammar.statement .exhaustive others ctx)) :
    Rule.Aligned place (blockStep .exhaustive tokens ctx (Grammar.statement .exhaustive tokens ctx))
      (blockStep .exhaustive others ctx (Grammar.statement .exhaustive others ctx)) := by
  intro pos
  have hstatement := h.as some pos
  have hstop := (A.block_end hctx).as (fun _ => (none : Option Statement)) pos
  rw [run_blockStep, run_blockStep]
  simp only [Strategy.tries, if_true]
  -- At the end of the stream no statement competes; anywhere else the block ends at a rule.
  by_cases hle : tokens.length ≤ pos
  · have hnone : Id.run (Grammar.statement .exhaustive tokens ctx pos) = none :=
      statement_spans.run_at_length hle
    rw [h pos, hnone, A.block_end hctx pos]
    simp only [Outcome.moved_none, Outcome.as_moved]
    simp [Candidate.chooseNearest, Outcome.as]
  · refine A.nearest_of_two hstatement hstop ?_ ?_
    · exact fun p hp => (A.form_marks .statement rfl).as some hp
    · intro p hp
      obtain ⟨stop, hstop, rfl⟩ := Outcome.as_eq_some_iff.mp hp
      exact A.block_end_marked (Nat.lt_of_not_le hle) hstop

theorem further_statements (hctx : ctx.Heeded heeds)
    (h : Rule.Aligned place (Grammar.statement .exhaustive tokens ctx)
      (Grammar.statement .exhaustive others ctx)) (bound : Nat) :
    Steps.Aligned place
      (furtherStatements .exhaustive tokens ctx (Grammar.statement .exhaustive tokens ctx) bound)
      (furtherStatements .exhaustive others ctx (Grammar.statement .exhaustive others ctx)
        bound) := by
  induction bound with
  | zero => exact .fail
  | succ bound ih =>
    refine .ahead_bind (A.block_step hctx h) ?_
    rintro ⟨_ | first, start, next⟩
    · exact .pure []
    · exact .bind (.move_to _) fun _ => .bind ih fun _ => .pure _

theorem block_of_statement (hctx : ctx.Heeded heeds)
    (h : Rule.Aligned place (Grammar.statement .exhaustive tokens ctx)
      (Grammar.statement .exhaustive others ctx)) :
    Rule.Aligned place (Grammar.block .exhaustive tokens ctx)
      (Grammar.block .exhaustive others ctx) := by
  have hothers := A.loop statements_loop statements_loop (A.further_statements hctx h)
  exact .of_steps <| .bind_behind (.take h) (A.form_marks .statement rfl).take
    fun _ => hothers.bind fun _ => .pure _

theorem conditional_of_inner (hctx : ctx.Heeded heeds) (h : ∀ inner, ctx.nested? = some inner →
    Rule.Aligned place (Grammar.statement .exhaustive tokens inner)
      (Grammar.statement .exhaustive others inner)) :
    Rule.Aligned place (Grammar.conditional .exhaustive tokens ctx)
      (Grammar.conditional .exhaustive others ctx) := by
  simp only [Grammar.conditional]
  cases hinner : ctx.nested? with
  | none => exact .never
  | some inner =>
    have hheeded := hctx.nested hinner
    have hbody := A.block_of_statement hheeded (h inner hinner)
    exact .of_steps <| .bind (A.expect _ rfl hheeded) fun _ =>
      .bind (.take (A.equality hheeded)) fun _ => .bind (A.expect _ rfl hheeded) fun _ =>
        .bind (.take hbody) fun _ => .pure _

theorem statement (hctx : ctx.Heeded heeds) :
    Rule.Aligned place (Grammar.statement .exhaustive tokens ctx)
      (Grammar.statement .exhaustive others ctx) := by
  induction hroom : ctx.room using Nat.strongRecOn generalizing ctx with
  | _ room ih =>
    refine A.statement_of_conditional hctx (A.conditional_of_inner hctx fun inner hinner => ?_)
    have hlt := nested_room hinner
    exact ih inner.room (by omega) (hctx.nested hinner) rfl

theorem conditional (hctx : ctx.Heeded heeds) :
    Rule.Aligned place (Grammar.conditional .exhaustive tokens ctx)
      (Grammar.conditional .exhaustive others ctx) :=
  A.conditional_of_inner hctx fun _ hinner => A.statement (hctx.nested hinner)

theorem block (hctx : ctx.Heeded heeds) :
    Rule.Aligned place (Grammar.block .exhaustive tokens ctx)
      (Grammar.block .exhaustive others ctx) :=
  A.block_of_statement hctx (A.statement hctx)

theorem body_part (hctx : ctx.Heeded heeds) :
    Rule.Aligned place (Grammar.bodyPart .exhaustive tokens ctx)
      (Grammar.bodyPart .exhaustive others ctx) :=
  fun pos => A.nearest_of_two ((A.block hctx).as _ pos) ((A.label hctx).as _ pos)
    (fun _ hp => (A.form_marks .block rfl).as _ hp)
    (fun _ hp => (A.form_marks .label rfl).as _ hp)

theorem body_parts (hctx : ctx.Heeded heeds) (bound : Nat) :
    Steps.Aligned place (bodyParts .exhaustive tokens ctx bound)
      (bodyParts .exhaustive others ctx bound) := by
  induction bound with
  | zero => exact .pure []
  | succ bound ih =>
    refine .bind (.perhaps (A.body_part hctx)) ?_
    rintro (_ | part)
    · exact .pure []
    · exact .bind ih fun _ => .pure _

theorem expect_ends_behind (kind : Kind) (hkind : kind.isNoise = false) :
    (Grammar.expect tokens ctx kind).EndsBehind heeds tokens := by
  intro seq r hr
  rw [run_expect] at hr
  obtain ⟨p, hp, rfl⟩ := Option.map_eq_some_iff.mp hr
  exact (A.token_marks kind hkind hp).closing

theorem document (hctx : ctx.Heeded heeds) :
    Rule.Aligned place (Grammar.document .exhaustive tokens ctx)
      (Grammar.document .exhaustive others ctx) := by
  have hparts := A.loop parts_loop parts_loop (A.body_parts hctx)
  exact .of_steps <| .bind (.take (A.item_number hctx)) fun _ =>
    .bind (.take (A.object_class hctx)) fun _ =>
      .bind_behind (A.expect _ rfl hctx) (A.expect_ends_behind _ rfl) fun _ =>
        hparts.bind fun _ => .pure _

/-- What single searches keep, every production keeps. -/
theorem production (p : Production) (hp : ∀ kind, p = .token kind → heeds kind = true)
    (hctx : ctx.Heeded heeds) :
    Rule.Aligned place (p.rule .exhaustive tokens ctx) (p.rule .exhaustive others ctx) := by
  cases p with
  | token kind => exact A.token_of_heeded (hp kind rfl) hctx
  | endOfStream => exact A.end_of_stream
  | identifier => exact A.identifier hctx
  | constantValue => exact A.constant_value hctx
  | verb => exact A.verb hctx
  | itemNumber => exact A.item_number hctx
  | objectClass => exact A.object_class hctx
  | label => exact A.label hctx
  | square => exact A.square hctx
  | add => exact A.add hctx
  | constant => exact A.constant hctx
  | functionCall => exact A.function_call hctx
  | «variable» => exact A.bare_variable hctx
  | expression => exact A.expression ctx
  | copula => exact A.copula hctx
  | equality => exact A.equality hctx
  | assignment => exact A.assignment hctx
  | reverseAssignment => exact A.reverse_assignment hctx
  | increment => exact A.increment hctx
  | goto => exact A.goto hctx
  | expressionStatement => exact A.expression_statement hctx
  | comment => exact A.comment hctx
  | invalid => exact A.invalid hctx
  | conditional => exact A.conditional hctx
  | statement => exact A.statement hctx
  | block => exact A.block hctx
  | bodyPart => exact A.body_part hctx
  | document => exact A.document hctx

/-- On fresh streams every production comes to the same in both. -/
theorem outcome (p : Production) (hp : ∀ kind, p = .token kind → heeds kind = true)
    (hctx : ctx.Heeded heeds) (pos : Nat) :
    p.outcome others ctx (place pos) = (p.outcome tokens ctx pos).moved place := by
  rw [Production.outcome_eq_run, Production.outcome_eq_run, Production.rule_pruned,
    Production.rule_pruned]
  exact A.production p hp hctx pos

end Alignment

end Dossier
