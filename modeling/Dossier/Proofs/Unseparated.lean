import Dossier.Clause
import Dossier.Proofs.StatementWording
import Dossier.Proofs.Stopping

namespace Dossier

open Grammar

variable {tokens : List Token} {ctx : Context} {pos start room bound : Nat} {c : Clause}
  {cs : List Clause} {rest : List Slot} {others : Block}

namespace Clause

/-- The words of a clause as the places that they fill. -/
def slots (c : Clause) : List Slot := c.words.map .fixed

theorem map_fixed_words (cs : List Clause) :
    (cs.flatMap words).map Slot.fixed = cs.flatMap slots :=
  List.map_flatMap

theorem length_words (cs : List Clause) : (cs.flatMap words).length = 8 * cs.length := by
  induction cs with
  | nil => rfl
  | cons c cs ih =>
    rw [List.flatMap_cons, List.length_append, ih, List.length_cons]
    simp only [words, List.length_cons, List.length_nil]
    omega

theorem kind_ne_rule : ∀ slot ∈ cs.flatMap slots, slot.kind ≠ .rule := by
  intro slot hslot
  obtain ⟨c, _, hmem⟩ := List.mem_flatMap.mp hslot
  simp only [slots, words, List.map_cons, List.map_nil, List.mem_cons, List.not_mem_nil,
    or_false] at hmem
  rcases hmem with rfl | rfl | rfl | rfl | rfl | rfl | rfl | rfl <;> simp [Slot.kind, Token.kind]

end Clause

namespace Grammar

/-- With room for its condition a clause owns what the body goes on with. -/
theorem statement_of_clause {next : Nat} (hreads : Reads tokens pos (c.slots ++ rest))
    (hothers : Id.run (furtherStatements .exhaustive tokens ⟨none, room⟩
      (statement .exhaustive tokens ⟨none, room⟩) tokens.length ⟨some (pos + 5), pos + 8⟩) =
        some (others, ⟨some (pos + 5), next⟩)) :
    Id.run (statement .exhaustive tokens ⟨none, room + 1⟩ pos) =
      some ⟨c.branch others, pos, next⟩ := by
  obtain ⟨hif, hreads⟩ := hreads.fixed
  have hsubject : Id.run (expression tokens ⟨none, room⟩ (pos + 1)) =
      some ⟨.variable c.subject, pos + 1, pos + 1 + 1⟩ :=
    expression_of_unsummed .here hreads (.inr rfl)
  obtain ⟨_, hreads⟩ := hreads.fixed
  obtain ⟨his, hreads⟩ := hreads.fixed
  obtain ⟨hvalue, hreads⟩ := hreads.fixed
  have hcondition : Id.run (equality tokens ⟨none, room⟩ (pos + 1)) =
      some ⟨⟨.variable c.subject, .constant c.value⟩, pos + 1, pos + 4⟩ := by
    rw [run_equality, hsubject]
    simp [copula_of_reads his, expression_of_constant .here hvalue]
  obtain ⟨hcomma, hreads⟩ := hreads.fixed
  have hfirst : Id.run (statement .exhaustive tokens ⟨none, room⟩ (pos + 5)) =
      some ⟨.increment c.target, pos + 5, pos + 5 + 3⟩ := run_increment_of_reads .here hreads
  have hbody : Id.run (block .exhaustive tokens ⟨none, room⟩ (pos + 5)) =
      some ⟨.increment c.target :: others, pos + 5, next⟩ := run_blockOf_some hfirst hothers
  refine statement_of_conditional .here hif ?_
  exact run_conditionalOf_some (run_token_here hif rfl) hcondition (run_token_here hcomma rfl) hbody

/-- Without room its `If` is passed over, and so are the comma and the consequence on the way to
the period. -/
theorem statement_of_clause_without_room (hreads : Reads tokens pos (c.slots ++ rest)) :
    Id.run (statement .exhaustive tokens ⟨none, 0⟩ pos) =
      some ⟨c.assignment, pos + 1, pos + 7 + 1⟩ := by
  have hperiodFree : Free tokens .period pos (pos + 7) := by
    have hsplit : Reads tokens pos ((c.words.take 7).map .fixed ++ .fixed .period :: rest) := hreads
    exact hsplit.free (by simp [Clause.words, Slot.kind, Token.kind])
  obtain ⟨hif, hreads⟩ := hreads.fixed
  obtain ⟨hsubject, hreads⟩ := hreads.fixed
  obtain ⟨his, hreads⟩ := hreads.fixed
  obtain ⟨hvalue, hreads⟩ := hreads.fixed
  obtain ⟨_, hreads⟩ := hreads.fixed
  obtain ⟨_, hreads⟩ := hreads.fixed
  obtain ⟨_, hreads⟩ := hreads.fixed
  obtain ⟨hperiod, _⟩ := hreads.fixed
  have hopens : ∀ kind, kind ≠ .ifWord → Free tokens kind pos (pos + 1) := by
    intro kind hkind i t hle hlt ht he
    obtain rfl : i = pos := by omega
    rw [hif] at ht
    cases ht
    exact hkind he.symm
  have hbranch : Id.run (conditional .exhaustive tokens ⟨none, 0⟩ pos) = none := rfl
  refine statement_of_first_assignment (fun kind _ => hopens kind) (by simp [hbranch]) hsubject
    hperiodFree ?_
  have hname : Id.run (identifier tokens ⟨none, 0⟩ pos) =
      some ⟨c.subject, pos + 1, pos + 1 + 1⟩ :=
    run_identifier.mpr ((hopens _ (by decide)).run_token (Nat.le_succ pos) hsubject rfl rfl)
  have hverb : Id.run (verb tokens ⟨none, 0⟩ (pos + 1 + 1)) =
      some ⟨.is, pos + 1 + 1, pos + 1 + 1 + 1⟩ := run_verb.mpr (run_token_here his rfl)
  have hconstant : Id.run (constantValue tokens ⟨none, 0⟩ (pos + 1 + 1 + 1)) =
      some ⟨c.value, pos + 1 + 1 + 1, pos + 1 + 1 + 1 + 1⟩ :=
    constantValue_at .here hvalue (by simp)
  have hstop : Id.run (token tokens ⟨none, 0⟩ .period (pos + 1 + 1 + 1 + 1)) =
      some ⟨.period, pos + 7, pos + 7 + 1⟩ :=
    Free.run_token (fun i t hle => hperiodFree i t (by omega)) (by omega) hperiod rfl rfl
  rw [run_assignment, hname]
  simp [hverb, hconstant, hstop, Clause.assignment]

theorem furtherStatements_at_end (hbound : 0 < bound) (hlength : tokens.length ≤ pos) :
    Id.run (furtherStatements .exhaustive tokens ctx (statement .exhaustive tokens ctx) bound
      ⟨some start, pos⟩) = some ([], ⟨some start, pos⟩) := by
  obtain ⟨bound, rfl⟩ : ∃ fewer, bound = fewer + 1 := Nat.exists_eq_add_one.mpr hbound
  rw [run_furtherStatements, step_at_end hlength]
  rfl

/-- Clauses are passed one by one where there is no room, and all at once with the first of them
where there is. -/
theorem furtherStatements_of_clauses (hreads : Reads tokens pos (cs.flatMap Clause.slots))
    (hend : pos + 8 * cs.length = tokens.length) (hbound : cs.length < bound) :
    Id.run (furtherStatements .exhaustive tokens ⟨none, room⟩
      (statement .exhaustive tokens ⟨none, room⟩) bound ⟨some start, pos⟩) =
        some (Clause.reading room cs, ⟨some start, tokens.length⟩) := by
  induction cs generalizing room bound pos start with
  | nil =>
    obtain rfl : pos = tokens.length := hend
    rw [furtherStatements_at_end hbound (Nat.le_refl _), Clause.reading]
  | cons c cs ih =>
    rw [List.length_cons] at hend hbound
    obtain ⟨bound, rfl⟩ : ∃ fewer, bound = fewer + 1 := Nat.exists_eq_add_one.mpr (by omega)
    have hclause : Reads tokens pos (c.slots ++ cs.flatMap Clause.slots) := hreads
    have hrest : Reads tokens (pos + 8) (cs.flatMap Clause.slots) := hclause.append
    have hrule : Id.run (token tokens ⟨none, room⟩ .rule pos) = none :=
      (run_token_eq_none_iff rfl).mpr (hreads.free_ahead Clause.kind_ne_rule)
    have hendless : Id.run (blockEnd tokens ⟨none, room⟩ pos) = none :=
      run_blockEnd_eq_none_iff.mpr ⟨hrule, by omega⟩
    rw [run_furtherStatements, step_of_endless hendless]
    cases room with
    | zero =>
      rw [statement_of_clause_without_room hclause]
      simp [Outcome.as, ih hrest (by omega) (Nat.lt_of_succ_lt_succ hbound), Clause.reading]
    | succ room =>
      -- The body has a bound of its own, and behind it nothing is left for this loop.
      rw [statement_of_clause hclause (ih hrest (by omega) (by omega))]
      simp [Outcome.as, furtherStatements_at_end (show 0 < bound by omega) (Nat.le_refl _),
        Clause.reading]

/-- A block of clauses is its first clause, which owns the others. -/
theorem block_of_clauses (hsome : cs ≠ []) (hreads : Reads tokens pos (cs.flatMap Clause.slots))
    (hend : pos + 8 * cs.length = tokens.length) :
    Id.run (block .exhaustive tokens ⟨none, room + 1⟩ pos) =
      some ⟨Clause.reading (room + 1) cs, pos, tokens.length⟩ := by
  obtain ⟨c, cs, rfl⟩ := List.exists_cons_of_ne_nil hsome
  rw [List.length_cons] at hend
  have hclause : Reads tokens pos (c.slots ++ cs.flatMap Clause.slots) := hreads
  have hrest : Reads tokens (pos + 8) (cs.flatMap Clause.slots) := hclause.append
  have hbound : cs.length < tokens.length := by omega
  exact run_blockOf_some
    (statement_of_clause hclause (furtherStatements_of_clauses hrest (by omega) hbound))
    (furtherStatements_at_end (Nat.zero_lt_of_lt hbound) (Nat.le_refl _))

end Grammar

/-- Any number of clauses with no rule between them. The block goes up to the end of the stream. The
condition of each clause down to the limit is all that its level holds, and its body is the
consequence with the next level behind it. From the clause behind the last such condition on the
words of the conditions are read as assignments, one behind the other. -/
theorem Production.block_outcome_of_clauses (clauses : List Clause) (hsome : clauses ≠ []) :
    let tokens := clauses.flatMap Clause.words
    let deepest := min clauses.length Context.limit
    ∃ level : Nat → Block,
      Production.block.outcome tokens .root 0 = some ⟨level 0, 0, tokens.length⟩ ∧
      (∀ i c, i < deepest → clauses[i]? = some c →
        level i = [.conditional ⟨.variable c.subject, .constant c.value⟩
          (.increment c.target :: level (i + 1))]) ∧
      level deepest =
        (clauses.drop deepest).map fun c => .assignment c.subject (.constant c.value) := by
  intro tokens deepest
  refine ⟨fun i => Clause.reading (Context.limit - i) (clauses.drop i), ?_, ?_, ?_⟩
  · have hreads : Reads tokens 0 (clauses.flatMap Clause.slots) := by
      rw [← Clause.map_fixed_words]
      exact reads_fixed tokens
    have hend : 0 + 8 * clauses.length = tokens.length := by
      rw [Nat.zero_add, Clause.length_words]
    rw [block_outcome]
    exact block_of_clauses hsome hreads hend
  · intro i c hi hc
    exact Clause.reading_drop (Nat.lt_of_lt_of_le hi (Nat.min_le_right _ _)) hc
  · exact Clause.reading_drop_min Context.limit clauses

/-- Two clauses more than there are levels. -/
theorem Production.block_outcome_of_sixty_six_clauses :
    let clauses : List Clause := List.replicate 66 ⟨"x", 1, "y"⟩
    clauses ≠ [] ∧ ∃ level : Nat → Block,
      Production.block.outcome (clauses.flatMap Clause.words) .root 0 = some ⟨level 0, 0, 528⟩ ∧
      level 63 = [.conditional ⟨.variable "x", .constant 1⟩
        [.increment "y", .assignment "x" (.constant 1), .assignment "x" (.constant 1)]] := by
  intro clauses
  have hsome : clauses ≠ [] := by decide
  obtain ⟨level, houtcome, hlevels, hdeepest⟩ := Production.block_outcome_of_clauses clauses hsome
  have hlast : level 64 = [.assignment "x" (.constant 1), .assignment "x" (.constant 1)] := hdeepest
  have hlength : (clauses.flatMap Clause.words).length = 528 := by
    rw [Clause.length_words]
    rfl
  rw [hlength] at houtcome
  refine ⟨hsome, level, houtcome, ?_⟩
  rw [hlevels 63 ⟨"x", 1, "y"⟩ (by decide) rfl, hlast]

end Dossier
