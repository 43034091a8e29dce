import Dossier.Proofs.Loops
import Dossier.Proofs.Pruning

namespace Dossier

open Grammar

variable {tokens : List Token} {ctx : Context} {pos : Nat}

/-- The last token is a period or a rule. -/
def Terminated (tokens : List Token) : Prop :=
  ∃ last, tokens.getLast? = some last ∧ (last.kind = .period ∨ last.kind = .rule)

/-- Short of the end of the stream its last token is still ahead. -/
theorem Terminated.ahead (h : Terminated tokens) (hlt : pos < tokens.length) :
    ∃ index t, pos ≤ index ∧ tokens[index]? = some t ∧ (t.kind = .period ∨ t.kind = .rule) := by
  obtain ⟨last, hlast, hkind⟩ := h
  rw [List.getLast?_eq_getElem?] at hlast
  exact ⟨tokens.length - 1, last, by omega, hlast, hkind⟩

namespace Grammar

theorem run_label_eq_none_iff :
    Id.run (label tokens ctx pos) = none ↔
      Id.run (token tokens ctx .addendum pos) = none ∧
        Id.run (token tokens ctx .description pos) = none := by
  rw [run_label, Candidate.chooseNearest_eq_none_iff]
  simp only [List.mem_cons, List.not_mem_nil, or_false, forall_eq_or_imp, forall_eq, Outcome.as,
    Option.map_eq_none_iff]
  refine and_congr_left fun _ => ?_
  cases hfound : Id.run (token tokens ctx .addendum pos) with
  | none => simp [Outcome.read]
  | some found =>
    have hkind := (run_token_eq_some_iff.mp hfound).1.kind_eq
    obtain ⟨t, start, next⟩ := found
    cases t <;> simp_all [Outcome.read, Token.kind]

/-- Without a statement there is none of its forms. -/
theorem simpleOutcomes_of_none (h : Id.run (statement .exhaustive tokens ctx pos) = none) :
    ∀ outcome ∈ simpleOutcomes tokens ctx pos, outcome = none := by
  rw [statement_eq, run_statementOf, Candidate.chooseNearest_eq_none_iff] at h
  intro outcome hmem
  exact h ⟨outcome, false⟩ (List.mem_map.mpr ⟨outcome, List.mem_cons_of_mem _ hmem, rfl⟩)

theorem period_of_none (h : Id.run (statement .exhaustive tokens ctx pos) = none) :
    Id.run (token tokens ctx .period pos) = none := by
  have hinvalid : Id.run (invalid tokens ctx pos) = none :=
    simpleOutcomes_of_none h _ (by simp [simpleOutcomes, simpleForms])
  cases hstop : Id.run (token tokens ctx .period pos) with
  | none => rfl
  | some stop => simp [run_invalid, hstop] at hinvalid

theorem commentEnd_of_none (h : Id.run (statement .exhaustive tokens ctx pos) = none)
    {opening : Parsed Token}
    (hopening : Id.run (token tokens ctx .commentStart pos) = some opening) :
    Id.run (token tokens ctx .commentEnd opening.next) = none := by
  have hcomment : Id.run (comment tokens ctx pos) = none :=
    simpleOutcomes_of_none h _ (by simp [simpleOutcomes, simpleForms])
  cases hclosing : Id.run (token tokens ctx .commentEnd opening.next) with
  | none => rfl
  | some closing => simp [run_comment, hopening, hclosing] at hcomment

theorem run_blockEnd_eq_none_iff :
    Id.run (blockEnd tokens ctx pos) = none ↔
      Id.run (token tokens ctx .rule pos) = none ∧ pos < tokens.length := by
  rw [run_blockEnd, Candidate.chooseNearest_eq_none_iff]
  simp [Outcome.as, endOfStream]

/-- The end of the stream counts only where no token is left, a rule included. -/
theorem run_blockEnd_eq_some_iff {stop : Parsed Unit} :
    Id.run (blockEnd tokens ctx pos) = some stop ↔
      (∃ rule, Id.run (token tokens ctx .rule pos) = some rule ∧
        stop = ⟨(), rule.start, rule.next⟩) ∨
      tokens.length ≤ pos ∧ stop = ⟨(), tokens.length, pos⟩ := by
  rw [run_blockEnd]
  cases hrule : Id.run (token tokens ctx .rule pos) with
  | none =>
    have hend : Candidate.chooseNearest [⟨none, false⟩, ⟨endOfStream tokens pos, false⟩] =
        endOfStream tokens pos := Candidate.none_nearer _
    change Candidate.chooseNearest [⟨none, false⟩, ⟨endOfStream tokens pos, false⟩] = _ ↔ _
    rw [hend, endOfStream]
    simp [eq_comm]
  | some rule =>
    have hlt : pos < tokens.length := by
      have hspan := token_spans .rule hrule
      exact Nat.lt_of_lt_of_le hspan.pos_lt hspan.next_le
    simp [Outcome.as, endOfStream, Nat.not_le_of_lt hlt, Candidate.chooseNearest, eq_comm]

theorem run_blockStep_eq_none_iff {rule : Rule Id Statement} :
    Id.run (blockStep .exhaustive tokens ctx rule pos) = none ↔
      Id.run (rule pos) = none ∧ Id.run (blockEnd tokens ctx pos) = none := by
  rw [run_blockStep, Candidate.chooseNearest_eq_none_iff]
  simp [Outcome.as, Strategy.tries]

theorem run_bodyPart_eq_none_iff {strategy : Strategy} :
    Id.run (bodyPart strategy tokens ctx pos) = none ↔
      Id.run (block strategy tokens ctx pos) = none ∧ Id.run (label tokens ctx pos) = none := by
  rw [run_bodyPart, Candidate.chooseNearest_eq_none_iff]
  simp [Outcome.as]

/-- A block to which nothing is forbidden never gets stuck: ahead there is a period for one more
statement, a rule, or the end of the stream. -/
theorem blockStep_of_terminated (hctx : ctx.forbidden = none) (h : Terminated tokens) :
    Id.run (blockStep .exhaustive tokens ctx (statement .exhaustive tokens ctx) pos) ≠ none := by
  rw [Ne, run_blockStep_eq_none_iff, run_blockEnd_eq_none_iff]
  rintro ⟨hstatement, hrule, hlt⟩
  obtain ⟨index, t, hle, ht, hkind⟩ := h.ahead hlt
  rcases hkind with hperiod | hkind
  · exact kind_ne_of_unforbidden hctx (period_of_none hstatement) hle ht hperiod
  · exact kind_ne_of_unforbidden hctx hrule hle ht hkind

/-- A block that fails behind its first statement got stuck in the loop over the others. -/
theorem furtherStatements_of_block_none {first : Parsed Statement}
    (hfirst : Id.run (statement .exhaustive tokens ctx pos) = some first)
    (hblock : Id.run (block .exhaustive tokens ctx pos) = none) :
    Id.run (furtherStatements .exhaustive tokens ctx (statement .exhaustive tokens ctx)
      tokens.length ⟨some first.start, first.next⟩) = none := by
  rw [block, run_blockOf, hfirst] at hblock
  exact Option.eq_none_iff_forall_ne_some.mpr fun others hothers => by
    simp [hothers] at hblock

/-- With such an end ahead a block fails for want of a first statement only. -/
theorem statement_of_block_none (hctx : ctx.forbidden = none) (h : Terminated tokens)
    (hblock : Id.run (block .exhaustive tokens ctx pos) = none) :
    Id.run (statement .exhaustive tokens ctx pos) = none := by
  cases hfirst : Id.run (statement .exhaustive tokens ctx pos) with
  | none => rfl
  | some first =>
    obtain ⟨stuck, _, hturn⟩ := statements_loop.failed_turn (statement_spans hfirst).rest_lt
      (furtherStatements_of_block_none hfirst hblock)
    rw [run_statementTurn, Option.map_eq_none_iff] at hturn
    exact absurd hturn (blockStep_of_terminated hctx h)

/-- A document ends where no part can be found any more. -/
theorem bodyPart_at_next {strategy : Strategy} {found : Parsed Document}
    (h : Id.run (document strategy tokens ctx pos) = some found) :
    Id.run (bodyPart strategy tokens ctx found.next) = none := by
  rw [run_document] at h
  obtain ⟨number, _, h⟩ := Option.bind_eq_some_iff.mp h
  obtain ⟨objectClass, _, h⟩ := Option.bind_eq_some_iff.mp h
  obtain ⟨heading, hheading, h⟩ := Option.bind_eq_some_iff.mp h
  obtain ⟨⟨parts, after⟩, hparts, h⟩ := Option.bind_eq_some_iff.mp h
  cases h
  have hbound := (token_spans .procedures hheading).rest_lt
  obtain ⟨before, hturn⟩ := parts_loop.last_turn hbound hparts
  rw [partTurn, Steps.run_perhaps] at hturn
  change Id.run (bodyPart strategy tokens ctx after.position) = none
  cases hpart : Id.run (bodyPart strategy tokens ctx before.position) with
  | some part => simp [hpart] at hturn
  | none =>
    simp only [hpart, Option.some.injEq, Prod.mk.injEq, true_and] at hturn
    rw [← hturn, hpart]

end Grammar

/-- Nothing that could be read is left out at the end. Where the last token is a period or a rule,
there is no period, no label and no comment behind the document, and if it is a period, the
document goes up to the end of the stream. -/
theorem Production.document_outcome_complete (tokens : List Token) (found : Parsed Document)
    (last : Token) (hfound : Production.document.outcome tokens .root 0 = some found)
    (hlast : tokens.getLast? = some last) (hkind : last.kind = .period ∨ last.kind = .rule) :
    (∀ i t, found.next ≤ i → tokens[i]? = some t →
      t.kind ≠ .period ∧ t.kind ≠ .addendum ∧ t.kind ≠ .description) ∧
    (∀ i j opening closing, found.next ≤ i → i < j →
      tokens[i]? = some opening → tokens[j]? = some closing →
        ¬ (opening.kind = .commentStart ∧ closing.kind = .commentEnd)) ∧
    (last.kind = .period → found.next = tokens.length) := by
  rw [Production.outcome_eq_run, Production.rule_pruned] at hfound
  have hterminated : Terminated tokens := ⟨last, hlast, hkind⟩
  have hctx : Context.root.forbidden = none := rfl
  obtain ⟨hblock, hlabel⟩ := run_bodyPart_eq_none_iff.mp (bodyPart_at_next hfound)
  obtain ⟨haddendum, hdescription⟩ := run_label_eq_none_iff.mp hlabel
  have hstatement := statement_of_block_none hctx hterminated hblock
  have hperiod := period_of_none hstatement
  refine ⟨fun i t hle ht => ?_, ?_, fun hlastKind => ?_⟩
  · exact ⟨kind_ne_of_unforbidden hctx hperiod hle ht,
      kind_ne_of_unforbidden hctx haddendum hle ht,
      kind_ne_of_unforbidden hctx hdescription hle ht⟩
  · rintro i j opening closing hle hlt hopening hclosing ⟨hopens, hcloses⟩
    obtain ⟨mark, hmark, hnext⟩ := run_token_of_unforbidden hctx hle hopening hopens
    have hend := commentEnd_of_none hstatement hmark
    exact kind_ne_of_unforbidden hctx hend (Nat.le_trans hnext hlt) hclosing hcloses
  · apply Nat.le_antisymm (document_spans hfound).next_le
    apply Nat.le_of_not_lt
    intro hlt
    rw [List.getLast?_eq_getElem?] at hlast
    have hle : found.next ≤ tokens.length - 1 := by omega
    exact kind_ne_of_unforbidden hctx hperiod hle hlast hlastKind

/-- Behind the last block there is the start of a comment left over, which has no end. -/
theorem Production.document_outcome_complete_before_rule :
    let tokens : List Token := [.itemNumber 173, .objectClass .euclid, .procedures, .period, .rule,
      .commentStart, .rule]
    let found : Parsed Document := ⟨⟨173, .euclid, [.block [.invalid]]⟩, 0, 4⟩
    Production.document.outcome tokens .root 0 = some found ∧
      tokens.getLast? = some .rule ∧ Token.rule.kind = .rule ∧
      ∀ i t, 4 ≤ i → tokens[i]? = some t →
        t.kind ≠ .period ∧ t.kind ≠ .addendum ∧ t.kind ≠ .description := by
  intro tokens found
  have h : Production.document.outcome tokens .root 0 = some found := by
    rw [Production.outcome_eq_run]
    rfl
  exact ⟨h, rfl, rfl,
    (Production.document_outcome_complete tokens found .rule h rfl (.inr rfl)).1⟩

end Dossier
