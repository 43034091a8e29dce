import Dossier.Proofs.Branches
import Dossier.Proofs.Header

namespace Dossier

open Grammar

variable {tokens : List Token} {ctx : Context} {pos next : Nat} {kinds : List Kind}

theorem exists_breaks_iff :
    (∃ i, pos ≤ i ∧ Breaks tokens i) ↔ (∃ i, pos ≤ i ∧ tokens[i]? = some .period) ∨
      ∃ i j, pos ≤ i ∧ i < j ∧ tokens[i]? = some .commentStart ∧ tokens[j]? = some .commentEnd := by
  constructor
  · rintro ⟨i, hle, hperiod | ⟨hopening, j, hlt, hclosing⟩⟩
    · exact .inl ⟨i, hle, hperiod⟩
    · exact .inr ⟨i, j, hle, hlt, hopening, hclosing⟩
  · rintro (⟨i, hle, hperiod⟩ | ⟨i, j, hle, hlt, hopening, hclosing⟩)
    · exact ⟨i, hle, .inl hperiod⟩
    · exact ⟨i, hle, .inr ⟨hopening, j, hlt, hclosing⟩⟩

theorem Spans.breaks {start : Nat} (h : Spans tokens kinds [.period] pos start next) :
    ∃ i, pos ≤ i ∧ Breaks tokens i := by
  obtain ⟨t, ht, hkind⟩ := h.closing
  obtain rfl : t = .period := Token.eq_of_kind (by rw [List.mem_singleton.mp hkind]; rfl)
  have hlt := h.pos_lt
  exact ⟨next - 1, by omega, .inl ht⟩

theorem breaks_of_comment {p : Parsed Statement} (h : Id.run (comment tokens ctx pos) = some p) :
    ∃ i, pos ≤ i ∧ Breaks tokens i := by
  rw [run_comment] at h
  obtain ⟨opening, hopening, h⟩ := Option.bind_eq_some_iff.mp h
  obtain ⟨closing, hclosing, _⟩ := Option.bind_eq_some_iff.mp h
  obtain ⟨hfirst, hnext⟩ := run_token_eq_some_iff.mp hopening
  obtain ⟨hlast, _⟩ := run_token_eq_some_iff.mp hclosing
  have hopens : opening.value = .commentStart := Token.eq_of_kind (by rw [hfirst.kind_eq]; rfl)
  have hcloses : closing.value = .commentEnd := Token.eq_of_kind (by rw [hlast.kind_eq]; rfl)
  have hafter := hlast.le
  exact ⟨opening.start, hfirst.le, .inr ⟨hopens ▸ hfirst.at_index, closing.start, by omega,
    hcloses ▸ hlast.at_index⟩⟩

/-- In or behind every statement a sentence breaks. -/
def Finding.Broken (tokens : List Token) : Finding → Prop
  | statement _ pos _ => ∃ i, pos ≤ i ∧ Breaks tokens i
  | expression _ _ _ | arguments _ _ _ _ | statements _ _ _ _ => True

theorem Grammar.Derives.broken {finding : Finding} (h : Derives tokens finding) :
    finding.Broken tokens := by
  induction h with
  | assignment hp => exact (assignment_spans hp).breaks
  | increment hp => exact (increment_spans hp).breaks
  | goto hp => exact (goto_spans hp).breaks
  | expression hexpression hstop _ =>
    exact (hexpression.spanned.append (token_spans .period hstop)).breaks
  | comment hp => exact breaks_of_comment hp
  | invalid hp => exact (invalid_spans hp).breaks
  | conditional _ hopening hleft hlink hright hcomma _ _ _ _ hfirst _ =>
    -- The body has a first statement, which lies behind the comma.
    obtain ⟨i, hle, hbreaks⟩ := hfirst
    have hcondition := (hleft.spanned.append (copula_spans hlink)).append hright.spanned
    have hbranch := ((token_spans .ifWord hopening).append hcondition).append
      (token_spans .comma hcomma)
    exact ⟨i, Nat.le_trans (Nat.le_of_lt hbranch.pos_lt) hle, hbreaks⟩
  | square | constant | bare | add | call | close | argument | stop | more => trivial

namespace Grammar

/-- A statement needs nothing but a break ahead. -/
theorem exists_statement_iff (hctx : ctx.forbidden = none) :
    (∃ p, Id.run (statement .exhaustive tokens ctx pos) = some p) ↔
      ∃ i, pos ≤ i ∧ Breaks tokens i := by
  constructor
  · rintro ⟨p, hp⟩
    exact (statement_derives hp).broken
  · rintro ⟨i, hle, hbreaks⟩
    obtain ⟨p, hp, _⟩ := statement_of_breaks hctx hle hbreaks
    exact ⟨p, hp⟩

/-- A block that is found has come to its end. -/
theorem stops_of_block {p : Parsed Block} (h : Id.run (block .exhaustive tokens ctx pos) = some p) :
    Stops tokens ctx p.next := by
  rw [block, run_blockOf] at h
  obtain ⟨found, hfound, h⟩ := Option.bind_eq_some_iff.mp h
  obtain ⟨⟨others, after⟩, hothers, h⟩ := Option.bind_eq_some_iff.mp h
  cases h
  obtain ⟨before, hturn⟩ := statements_loop.last_turn (statement_spans hfound).rest_lt hothers
  rw [run_statementTurn] at hturn
  obtain ⟨⟨_ | s, start, next⟩, hstep, hturn⟩ := Option.map_eq_some_iff.mp hturn
  · cases hturn
    exact ⟨_, hstep, rfl⟩
  · cases hturn

/-- Up to the next rule no sentence breaks any more, and no statement starts. -/
theorem Stops.unbroken (hctx : ctx.forbidden = none) (h : Stops tokens ctx pos) :
    tokens.length ≤ pos ∨
      ∃ rule, pos ≤ rule ∧ tokens[rule]? = some .rule ∧ Free tokens .rule pos rule ∧
        (∀ i, pos ≤ i → i < rule → ¬ Breaks tokens i) ∧
        ∀ p, Id.run (statement .exhaustive tokens ctx pos) = some p → rule < p.start := by
  rcases stops_iff.mp h with hlength | ⟨rule, hrule, hstatement⟩
  · exact .inl hlength
  · obtain ⟨hfinds, _⟩ := run_token_eq_some_iff.mp hrule
    have hvalue : rule.value = .rule := Token.eq_of_kind (by rw [hfinds.kind_eq]; rfl)
    refine .inr ⟨rule.start, hfinds.le, hvalue ▸ hfinds.at_index,
      fun i t hle hlt ht => (hfinds.passes i t hle hlt ht).1, fun i hle hlt hbreaks => ?_,
      hstatement⟩
    obtain ⟨p, hp, hstart⟩ := statement_of_breaks hctx hle hbreaks
    have hbehind := hstatement p hp
    omega

/-- Behind its end a rule comes before any period. -/
theorem Stops.rule_before_period {index : Nat} (hctx : ctx.forbidden = none)
    (h : Stops tokens ctx pos) (hle : pos ≤ index) (hperiod : tokens[index]? = some .period) :
    ∃ rule, pos ≤ rule ∧ rule < index ∧ tokens[rule]? = some .rule := by
  rcases h.unbroken hctx with hlength | ⟨rule, hrule, ht, _, hfree, _⟩
  · have hlt := (List.getElem?_eq_some_iff.mp hperiod).1
    omega
  · refine ⟨rule, hrule, Nat.lt_of_not_le fun hbehind => ?_, ht⟩
    rcases Nat.lt_or_eq_of_le hbehind with hlt | rfl
    · exact hfree index hle hlt (.inl hperiod)
    · rw [hperiod] at ht
      cases ht

/-- The statement that a block goes on with starts before any rule. -/
theorem free_of_blockStep {step : Parsed (Option Statement)} (hctx : ctx.forbidden = none)
    (h : Id.run (blockStep .exhaustive tokens ctx (statement .exhaustive tokens ctx) pos) =
      some step) : Free tokens .rule pos step.start := by
  intro i t hle hlt ht hkind
  obtain ⟨rule, hrule, hnext⟩ := run_token_of_unforbidden hctx hle ht hkind
  have hstart := (run_token_eq_some_iff.mp hrule).2
  have hstop : Id.run (blockEnd tokens ctx pos) = some ⟨(), rule.start, rule.next⟩ :=
    run_blockEnd_eq_some_iff.mpr (.inl ⟨rule, hrule, rfl⟩)
  rw [run_step, hstop] at h
  have hnearest := Candidate.start_le_of_chooseNearest h
    (List.mem_cons_of_mem _ (List.mem_singleton_self _)) rfl
  simp only at hnearest
  omega

end Grammar

/-- The positions that a block comes to: behind its first statement, and behind each further one
that starts before the next rule. -/
inductive Reached (tokens : List Token) (ctx : Context) (pos : Nat) : Nat → Prop where
  | first {p} :
    Production.statement.outcome tokens ctx pos = some p → Reached tokens ctx pos p.next
  | further {next p} :
    Reached tokens ctx pos next →
    Production.statement.outcome tokens ctx next = some p →
    Free tokens .rule next p.start →
    Reached tokens ctx pos p.next

theorem Production.statement_outcome (tokens : List Token) (ctx : Context) (pos : Nat) :
    Production.statement.outcome tokens ctx pos =
      Id.run (Grammar.statement .exhaustive tokens ctx pos) := by
  rw [outcome_eq_run, rule_pruned]
  rfl

theorem Production.block_outcome (tokens : List Token) (ctx : Context) (pos : Nat) :
    Production.block.outcome tokens ctx pos =
      Id.run (Grammar.block .exhaustive tokens ctx pos) := by
  rw [outcome_eq_run, rule_pruned]
  rfl

theorem Reached.lt {index : Nat} (h : Reached tokens ctx pos index) : pos < index := by
  induction h with
  | first hp =>
    rw [Production.statement_outcome] at hp
    exact (statement_spans hp).pos_lt
  | further _ hp _ ih =>
    rw [Production.statement_outcome] at hp
    exact Nat.lt_trans ih (statement_spans hp).pos_lt

/-- A turn of the loop over the statements goes from one of them to the next. -/
theorem Reached.turn {before after : Sequence} {item : Statement} (hctx : ctx.forbidden = none)
    (h : Reached tokens ctx pos before.position)
    (hturn : Id.run (statementTurn .exhaustive tokens ctx before) = some (some item, after)) :
    Reached tokens ctx pos after.position := by
  rw [run_statementTurn] at hturn
  obtain ⟨⟨_ | s, start, next⟩, hstep, hturn⟩ := Option.map_eq_some_iff.mp hturn
  · cases hturn
  · cases hturn
    have hnext := run_blockStep_some hstep rfl
    rw [← Production.statement_outcome] at hnext
    exact .further h hnext (free_of_blockStep hctx hstep)

/-- A block that fails behind its first statement has come to a tail without a break or a rule. -/
theorem Production.tail_of_block_none (hctx : ctx.forbidden = none)
    (hsome : (Production.statement.outcome tokens ctx pos).isSome)
    (hnone : Production.block.outcome tokens ctx pos = none) :
    ∃ tail, Reached tokens ctx pos tail ∧ tail < tokens.length ∧
      Free tokens .rule tail tokens.length ∧ ∀ i, tail ≤ i → ¬ Breaks tokens i := by
  rw [statement_outcome] at hsome
  rw [block_outcome] at hnone
  obtain ⟨found, hfound⟩ := Option.isSome_iff_exists.mp hsome
  have hfirst : Reached tokens ctx pos found.next :=
    .first (by rw [Production.statement_outcome, hfound])
  obtain ⟨stuck, hreached, hturn⟩ := statements_loop.failed_turn_keeping (Reached tokens ctx pos)
    (fun _ _ _ => Reached.turn hctx) hfirst (statement_spans hfound).rest_lt
    (furtherStatements_of_block_none hfound hnone)
  rw [run_statementTurn, Option.map_eq_none_iff, run_blockStep_eq_none_iff,
    run_blockEnd_eq_none_iff, run_token_eq_none_iff hctx] at hturn
  obtain ⟨hstatement, hrule, hlt⟩ := hturn
  refine ⟨stuck.position, hreached, hlt, hrule, fun i hle hbreaks => ?_⟩
  obtain ⟨p, hp, _⟩ := statement_of_breaks hctx hle hbreaks
  rw [hstatement] at hp
  cases hp

/-- A statement is found exactly where a sentence breaks ahead, by a period or by a comment that has
an end, in whatever room. So room does not decide whether there is one, and no sentence that means
nothing ends a block: behind a block that is found the next period has a rule before it, and a block
that fails behind a statement has come to a tail without a period. -/
theorem Production.statement_outcome_isSome_iff (tokens : List Token) (ctx : Context) (pos : Nat)
    (hctx : ctx.forbidden = none) :
    ((Production.statement.outcome tokens ctx pos).isSome ↔
      (∃ i, pos ≤ i ∧ tokens[i]? = some .period) ∨
      ∃ i j, pos ≤ i ∧ i < j ∧ tokens[i]? = some .commentStart ∧ tokens[j]? = some .commentEnd) ∧
    (∀ ctx', ctx'.forbidden = none →
      (Production.statement.outcome tokens ctx' pos).isSome =
        (Production.statement.outcome tokens ctx pos).isSome) ∧
    (∀ found i, Production.block.outcome tokens ctx pos = some found → found.next ≤ i →
      tokens[i]? = some .period → ∃ rule, found.next ≤ rule ∧ rule < i ∧
        tokens[rule]? = some .rule) ∧
    ((Production.statement.outcome tokens ctx pos).isSome →
      Production.block.outcome tokens ctx pos = none →
        ∃ tail, pos < tail ∧ tail < tokens.length ∧ Free tokens .period tail tokens.length) := by
  have hbreaks : ∀ c : Context, c.forbidden = none →
      ((Production.statement.outcome tokens c pos).isSome ↔ ∃ i, pos ≤ i ∧ Breaks tokens i) := by
    intro c hc
    rw [statement_outcome, Option.isSome_iff_exists]
    exact exists_statement_iff hc
  refine ⟨(hbreaks ctx hctx).trans exists_breaks_iff, ?_, ?_, ?_⟩
  · intro ctx' hctx'
    rw [Bool.eq_iff_iff, hbreaks ctx' hctx', hbreaks ctx hctx]
  · intro found i hfound hle hperiod
    rw [block_outcome] at hfound
    exact (stops_of_block hfound).rule_before_period hctx hle hperiod
  · intro hsome hnone
    obtain ⟨tail, hreached, hlt, _, hfree⟩ := tail_of_block_none hctx hsome hnone
    refine ⟨tail, hreached.lt, hlt, fun i t hle _ ht hkind => hfree i hle (.inl ?_)⟩
    rw [ht, show t = .period from Token.eq_of_kind (by rw [hkind]; rfl)]

/-- Words that mean nothing up to a period, and more of them behind a rule. -/
theorem Production.statement_outcome_of_nonsense :
    let tokens : List Token := [.comma, .tildes, .period, .rule, .of, .period]
    Production.statement.outcome tokens .root 0 = some ⟨.invalid, 2, 3⟩ ∧
      Production.block.outcome tokens .root 0 = some ⟨[.invalid], 2, 3⟩ ∧
      (Production.statement.outcome tokens ⟨none, 0⟩ 0).isSome = true ∧
      ∃ rule, 3 ≤ rule ∧ rule < 5 ∧ tokens[rule]? = some .rule := by
  intro tokens
  have hstatement : Production.statement.outcome tokens .root 0 = some ⟨.invalid, 2, 3⟩ := by
    rw [outcome_eq_run]
    rfl
  have hblock : Production.block.outcome tokens .root 0 = some ⟨[.invalid], 2, 3⟩ := by
    rw [outcome_eq_run]
    rfl
  obtain ⟨_, hroom, hgoes, _⟩ := Production.statement_outcome_isSome_iff tokens .root 0 rfl
  refine ⟨hstatement, hblock, ?_, hgoes _ 5 hblock (by decide) rfl⟩
  rw [hroom ⟨none, 0⟩ rfl, hstatement]
  rfl

/-- Where a block stops. A block that is found goes up to the end of the stream, or there is a rule
ahead that it has not passed, and up to the next one no sentence breaks and no statement starts. A
block that fails behind a first statement has come, from statement to statement, to a tail of the
stream in which there is no rule and no sentence breaks. -/
theorem Production.block_outcome_stops (tokens : List Token) (ctx : Context) (pos : Nat)
    (hctx : ctx.forbidden = none) :
    (∀ found, Production.block.outcome tokens ctx pos = some found →
      found.next = tokens.length ∨
      ∃ rule, found.next ≤ rule ∧ tokens[rule]? = some .rule ∧
        Free tokens .rule found.next rule ∧
        (∀ i, found.next ≤ i → i < rule → ¬ Breaks tokens i) ∧
        ∀ p, Production.statement.outcome tokens ctx found.next = some p → rule < p.start) ∧
    ((Production.statement.outcome tokens ctx pos).isSome →
      Production.block.outcome tokens ctx pos = none →
        ∃ tail, Reached tokens ctx pos tail ∧ tail < tokens.length ∧
          Free tokens .rule tail tokens.length ∧ ∀ i, tail ≤ i → ¬ Breaks tokens i) := by
  constructor
  · intro found hfound
    rw [block_outcome] at hfound
    have hstops := stops_of_block hfound
    rcases hstops.unbroken hctx with hlength | ⟨rule, hle, ht, hnext, hfree, hlater⟩
    · exact .inl (Nat.le_antisymm (block_spans hfound).next_le hlength)
    · refine .inr ⟨rule, hle, ht, hnext, hfree, fun p hp => hlater p ?_⟩
      rw [← statement_outcome, hp]
  · intro hsome hnone
    exact tail_of_block_none hctx hsome hnone

/-- Before a rule a comment that is not closed is left over; without the rule the block fails. -/
theorem Production.block_outcome_of_open_comment :
    let tokens : List Token := [.period, .commentStart, .rule]
    let others : List Token := [.period, .commentStart]
    Production.block.outcome tokens .root 0 = some ⟨[.invalid], 0, 1⟩ ∧ ¬ Breaks tokens 1 ∧
      Production.block.outcome others .root 0 = none ∧
      ∃ tail, Reached others .root 0 tail ∧ tail < 2 ∧ ∀ i, tail ≤ i → ¬ Breaks others i := by
  intro tokens others
  have hblock : Production.block.outcome tokens .root 0 = some ⟨[.invalid], 0, 1⟩ := by
    rw [outcome_eq_run]
    rfl
  have hstatement : (Production.statement.outcome others .root 0).isSome = true := by
    rw [outcome_eq_run]
    rfl
  have hnone : Production.block.outcome others .root 0 = none := by
    rw [outcome_eq_run]
    rfl
  obtain ⟨hstops, _⟩ := Production.block_outcome_stops tokens .root 0 rfl
  have hleft : ¬ Breaks tokens 1 := by
    rcases hstops _ hblock with hend | ⟨rule, hle, ht, _, hfree, _⟩
    · cases hend
    · refine hfree 1 (Nat.le_refl 1) (Nat.lt_of_le_of_ne hle ?_)
      rintro rfl
      cases ht
  obtain ⟨tail, hreached, hlt, _, hfree⟩ :=
    (Production.block_outcome_stops others .root 0 rfl).2 hstatement hnone
  exact ⟨hblock, hleft, hnone, tail, hreached, hlt, hfree⟩

end Dossier
