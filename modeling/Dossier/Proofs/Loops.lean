import Dossier.Proofs.Memory
import Dossier.Proofs.Spans

namespace Dossier

variable {strategy : Strategy} {tokens : List Token} {ctx : Context} {α : Type}

/-- A loop takes turns for as long as they find something, up to a bound on their number. Each turn
that finds something moves on within the stream. -/
structure Loop (tokens : List Token) (turn : Steps Id (Option α))
    (loop : Nat → Steps Id (List α)) : Prop where
  unroll : ∀ bound seq, Id.run (loop (bound + 1) seq) = (Id.run (turn seq)).bind fun
    | (none, after) => some ([], after)
    | (some item, after) =>
      (Id.run (loop bound after)).map fun others => (item :: others.1, others.2)
  advances : ∀ seq item after, Id.run (turn seq) = some (some item, after) →
    seq.position < after.position ∧ after.position ≤ tokens.length

/-- The bound on its turns never ends the loop: behind the first token of the stream, any bound from
the number of tokens on comes to the same. -/
def EndsByItself (tokens : List Token) (loop : Nat → Steps Id (List α)) : Prop :=
  ∀ bound seq, tokens.length ≤ bound → 0 < seq.position → seq.position ≤ tokens.length →
    Id.run (loop bound seq) = Id.run (loop tokens.length seq)

namespace Loop

variable {turn : Steps Id (Option α)} {loop : Nat → Steps Id (List α)} {bound : Nat}
  {seq : Sequence}

/-- A bound that exceeds the number of tokens ahead is as good as any other. -/
theorem run_eq_of_lt (h : Loop tokens turn loop) {bound' : Nat}
    (hb : tokens.length - seq.position < bound) (hb' : tokens.length - seq.position < bound') :
    Id.run (loop bound seq) = Id.run (loop bound' seq) := by
  induction bound generalizing seq bound' with
  | zero => omega
  | succ bound ih =>
    cases bound' with
    | zero => omega
    | succ bound' =>
      rw [h.unroll, h.unroll]
      rcases hturn : Id.run (turn seq) with _ | ⟨_ | item, after⟩
      · rfl
      · rfl
      · have hadv := h.advances seq item after hturn
        have hsame : Id.run (loop bound after) = Id.run (loop bound' after) :=
          ih (by omega) (by omega)
        simp only [Option.bind_some, hsame]

theorem ends_by_itself (h : Loop tokens turn loop) : EndsByItself tokens loop :=
  fun _ _ hb hpos hle => h.run_eq_of_lt (by omega) (by omega)

/-- A loop that ends well ends with a turn that finds nothing more. -/
theorem last_turn (h : Loop tokens turn loop) (hb : tokens.length - seq.position < bound)
    {items : List α} {after : Sequence} (hrun : Id.run (loop bound seq) = some (items, after)) :
    ∃ before, Id.run (turn before) = some (none, after) := by
  induction bound generalizing seq items with
  | zero => omega
  | succ bound ih =>
    rw [h.unroll] at hrun
    rcases hturn : Id.run (turn seq) with _ | ⟨_ | item, after'⟩
    · simp [hturn] at hrun
    · simp only [hturn, Option.bind_some, Option.some.injEq, Prod.mk.injEq] at hrun
      obtain ⟨_, rfl⟩ := hrun
      exact ⟨seq, hturn⟩
    · simp only [hturn, Option.bind_some, Option.map_eq_some_iff] at hrun
      obtain ⟨others, hothers, he⟩ := hrun
      cases he
      have hadv := h.advances seq item after' hturn
      exact ih (by omega) hothers

/-- A loop that fails got to a turn that fails, and to there it kept whatever its turns keep. -/
theorem failed_turn_keeping (h : Loop tokens turn loop) (holds : Nat → Prop)
    (hkeeps : ∀ before item after, holds before.position →
      Id.run (turn before) = some (some item, after) → holds after.position)
    (hstart : holds seq.position) (hb : tokens.length - seq.position < bound)
    (hrun : Id.run (loop bound seq) = none) :
    ∃ stuck, holds stuck.position ∧ Id.run (turn stuck) = none := by
  induction bound generalizing seq with
  | zero => omega
  | succ bound ih =>
    rw [h.unroll] at hrun
    rcases hturn : Id.run (turn seq) with _ | ⟨_ | item, after⟩
    · exact ⟨seq, hstart, hturn⟩
    · simp [hturn] at hrun
    · simp only [hturn, Option.bind_some, Option.map_eq_none_iff] at hrun
      have hadv := h.advances seq item after hturn
      exact ih (hkeeps seq item after hstart hturn) (by omega) hrun

/-- That turn is at or behind where the loop began. -/
theorem failed_turn (h : Loop tokens turn loop) (hb : tokens.length - seq.position < bound)
    (hrun : Id.run (loop bound seq) = none) :
    ∃ stuck, seq.position ≤ stuck.position ∧ Id.run (turn stuck) = none := by
  refine h.failed_turn_keeping (seq.position ≤ ·) (fun before item after hle hturn => ?_)
    (Nat.le_refl _) hb hrun
  exact Nat.le_trans hle (Nat.le_of_lt (h.advances before item after hturn).1)

end Loop

namespace Grammar

variable (strategy) (tokens) (ctx)

/-- One turn over the arguments: the next argument behind its `and`, or the closing parenthesis. -/
def argumentTurn : Steps Id (Option Expression) := do
  match ← .take (separator tokens ctx) with
  | .close => return none
  | .and =>
    let argument ← .take (expression tokens ctx)
    return some argument

/-- One turn over a block: the next statement, or its end. -/
def statementTurn : Steps Id (Option Statement) := do
  let step ← .ahead (blockStep strategy tokens ctx (statement strategy tokens ctx))
  match step.value with
  | none => return none
  | some next =>
    .moveTo step
    return some next

/-- One turn over a body: the next block or label, or nothing. -/
def partTurn : Steps Id (Option BodyPart) := .perhaps (bodyPart strategy tokens ctx)

variable {strategy} {tokens} {ctx}

theorem run_statementTurn (seq : Sequence) :
    Id.run (statementTurn strategy tokens ctx seq) = (Id.run
      (blockStep strategy tokens ctx (statement strategy tokens ctx) seq.position)).map fun step =>
        match step.value with
        | none => (none, seq)
        | some found => (some found, seq.advance step) := by
  rw [statementTurn, Steps.run_bind, Steps.run_ahead]
  rcases Id.run (blockStep strategy tokens ctx (statement strategy tokens ctx) seq.position)
    with _ | ⟨_ | found, start, next⟩
  · rfl
  · rfl
  · simp only [Option.map_some, Option.bind_some, Steps.run_bind, Steps.run_moveTo,
      Steps.run_pure]

theorem arguments_loop :
    Loop tokens (argumentTurn tokens ctx)
      (furtherArguments tokens ctx (expression tokens ctx)) where
  unroll bound seq := by
    rw [furtherArguments, argumentTurn, Steps.run_bind, Steps.run_bind, Steps.run_take]
    rcases Id.run (separator tokens ctx seq.position) with _ | ⟨_ | _, start, next⟩
    · rfl
    · simp only [Option.map_some, Option.bind_some, Steps.run_bind, Steps.run_take]
      cases Id.run (expression tokens ctx (seq.advance ⟨Separator.and, start, next⟩).position) with
      | none => rfl
      | some argument =>
        simp only [Option.bind_some, Steps.run_pure, Option.map_eq_bind]
        rfl
    · rfl
  advances seq argument after h := by
    rw [argumentTurn, Steps.run_bind, Steps.run_take] at h
    rcases hsep : Id.run (separator tokens ctx seq.position) with _ | ⟨_ | _, start, next⟩
    · simp [hsep] at h
    · simp only [hsep, Option.map_some, Option.bind_some, Steps.run_bind, Steps.run_take] at h
      cases hexpr : Id.run (expression tokens ctx next) with
      | none => simp [hexpr] at h
      | some found =>
        simp only [Sequence.position_advance, hexpr, Option.map_some, Option.bind_some,
          Steps.run_pure, Option.some.injEq, Prod.mk.injEq] at h
        obtain ⟨_, rfl⟩ := h
        have hspan := (separator_spans hsep).append (expression_spans hexpr)
        exact ⟨hspan.pos_lt, hspan.next_le⟩
    · simp [hsep, Steps.run_pure] at h

theorem statements_loop :
    Loop tokens (statementTurn strategy tokens ctx)
      (furtherStatements strategy tokens ctx (statement strategy tokens ctx)) where
  unroll bound seq := by
    rw [furtherStatements, statementTurn, Steps.run_bind, Steps.run_bind, Steps.run_ahead]
    rcases Id.run (blockStep strategy tokens ctx (statement strategy tokens ctx) seq.position)
      with _ | ⟨_ | next, start, stop⟩
    · rfl
    · rfl
    · simp only [Option.map_some, Option.bind_some, Steps.run_bind, Steps.run_moveTo,
        Steps.run_pure]
      rw [Option.map_eq_bind]
      rfl
  advances seq item after h := by
    rw [run_statementTurn] at h
    obtain ⟨⟨_ | found, start, next⟩, hstep, h⟩ := Option.map_eq_some_iff.mp h
    · cases h
    · cases h
      have hspan := statement_spans (run_blockStep_some hstep rfl)
      exact ⟨hspan.pos_lt, hspan.next_le⟩

theorem parts_loop :
    Loop tokens (partTurn strategy tokens ctx) (bodyParts strategy tokens ctx) where
  unroll bound seq := by
    rw [bodyParts, partTurn, Steps.run_bind, Steps.run_perhaps]
    rcases Id.run (bodyPart strategy tokens ctx seq.position) with _ | part
    · rfl
    · simp only [Option.bind_some, Steps.run_bind, Steps.run_pure, Option.map_eq_bind]
      rfl
  advances seq item after h := by
    rw [partTurn, Steps.run_perhaps] at h
    rcases hpart : Id.run (bodyPart strategy tokens ctx seq.position) with _ | part
    · simp [hpart] at h
    · simp only [hpart, Option.some.injEq, Prod.mk.injEq] at h
      obtain ⟨_, rfl⟩ := h
      have hspan := bodyPart_spans hpart
      exact ⟨hspan.pos_lt, hspan.next_le⟩

end Grammar

open Grammar in
/-- Everything moves on. What a production finds on a fresh stream lies ahead and within the stream,
over at least one token, from one of its opening kinds to one of its closing kinds. So each turn of
a loop moves on, and the loops over arguments, statements and parts end by themselves. -/
theorem Production.outcome_advances (tokens : List Token) :
    (∀ (p : Production) (ctx : Context) (pos : Nat) (found : Parsed p.Value),
      p ≠ .endOfStream → p.outcome tokens ctx pos = some found →
        pos ≤ found.start ∧ found.start < found.next ∧ found.next ≤ tokens.length ∧
        (∃ t, tokens[found.start]? = some t ∧ t.kind ∈ p.openings) ∧
        ∃ t, tokens[found.next - 1]? = some t ∧ t.kind ∈ p.closings) ∧
    ∀ ctx : Context,
      (Loop tokens (argumentTurn tokens ctx)
          (furtherArguments tokens ctx (Grammar.expression tokens ctx)) ∧
        EndsByItself tokens (furtherArguments tokens ctx (Grammar.expression tokens ctx))) ∧
      (Loop tokens (statementTurn .pruned tokens ctx)
          (furtherStatements .pruned tokens ctx (Grammar.statement .pruned tokens ctx)) ∧
        EndsByItself tokens
          (furtherStatements .pruned tokens ctx (Grammar.statement .pruned tokens ctx))) ∧
      (Loop tokens (partTurn .pruned tokens ctx) (bodyParts .pruned tokens ctx) ∧
        EndsByItself tokens (bodyParts .pruned tokens ctx)) := by
  constructor
  · intro p ctx pos found hp hfound
    rw [Production.outcome_eq_run] at hfound
    have hspan := p.rule_spans hp hfound
    exact ⟨hspan.le, hspan.lt, hspan.next_le, hspan.opening, hspan.closing⟩
  · intro ctx
    exact ⟨⟨arguments_loop, arguments_loop.ends_by_itself⟩,
      ⟨statements_loop, statements_loop.ends_by_itself⟩, parts_loop, parts_loop.ends_by_itself⟩

/-- A sentence behind a token that means nothing, where rules may not be passed over. -/
theorem Production.outcome_advances_over_increment :
    let tokens : List Token := [.tildes, .identifier "x", .increment, .period]
    Production.statement.outcome tokens ⟨some .rule, 2⟩ 0 = some ⟨.increment "x", 1, 4⟩ ∧
      (∃ t, tokens[1]? = some t ∧ t.kind ∈ Production.statement.openings) ∧
      ∃ t, tokens[3]? = some t ∧ t.kind ∈ Production.statement.closings := by
  intro tokens
  have h : Production.statement.outcome tokens ⟨some .rule, 2⟩ 0 =
      some ⟨.increment "x", 1, 4⟩ := by
    rw [Production.outcome_eq_run]
    cbv
  obtain ⟨_, _, _, hopening, hclosing⟩ :=
    (Production.outcome_advances tokens).1 .statement ⟨some .rule, 2⟩ 0 _ (by decide) h
  exact ⟨h, hopening, hclosing⟩

end Dossier
