import Dossier.Proofs.Memory
import Dossier.Proofs.Openings

namespace Dossier

variable {tokens : List Token} {ctx : Context} {α β : Type}

/-- An alternative whose opening lies behind its nearest rival may as well be left out. -/
theorem chooseNearest_pruned {rule : Rule Id α} {kinds : List Kind} {pos : Nat}
    (h : rule.OpensWith tokens kinds) {rivals : List (Candidate α)} {nearest : Option Nat}
    (hnear : ∀ start, nearest = some start →
      ∃ c ∈ rivals, ∃ q, c.outcome = some q ∧ q.start = start) :
    Candidate.chooseNearest
        (⟨if Strategy.pruned.tries (peek tokens kinds pos) nearest then Id.run (rule pos) else none,
          false⟩ :: rivals) =
      Candidate.chooseNearest (⟨Id.run (rule pos), false⟩ :: rivals) := by
  split
  · rfl
  · next htries =>
    cases hfound : Id.run (rule pos) with
    | none => rfl
    | some p =>
      obtain ⟨opening, hpeek, hle⟩ := h.peek_le hfound
      rw [hpeek] at htries
      cases nearest with
      | none => exact absurd rfl htries
      | some start =>
        obtain ⟨c, hc, q, hq, rfl⟩ := hnear start rfl
        have hlt : q.start < opening := by simpa [Strategy.tries] using htries
        have hbeaten : ∀ r, some p = some r → q.start < r.start := by
          rintro r ⟨⟩
          omega
        have hnone : ∀ r, (none : Outcome α) = some r → q.start < r.start :=
          fun _ hr => nomatch hr
        calc
          Candidate.chooseNearest (⟨none, false⟩ :: rivals) = Candidate.chooseNearest rivals :=
            Candidate.chooseNearest_cons_of_beaten hc hq hnone
          _ = Candidate.chooseNearest (⟨some p, false⟩ :: rivals) :=
            (Candidate.chooseNearest_cons_of_beaten hc hq hbeaten).symm

theorem Outcome.nearestStart_eq_some {outcomes : List (Outcome α)} {start : Nat}
    (h : Outcome.nearestStart outcomes = some start) :
    ∃ q, some q ∈ outcomes ∧ q.start = start := by
  obtain ⟨outcome, hmem, hstart⟩ := List.mem_filterMap.mp (List.min?_mem h)
  obtain ⟨q, rfl, rfl⟩ := Option.map_eq_some_iff.mp hstart
  exact ⟨q, hmem, rfl⟩

namespace Grammar

theorem statementOf_pruned {conditional : Rule Id Statement}
    (h : conditional.OpensWith tokens [.ifWord]) :
    statementOf .pruned tokens ctx conditional =
      statementOf .exhaustive tokens ctx conditional := by
  refine Rule.ext_run fun pos => ?_
  rw [run_statementOf, run_statementOf]
  refine chooseNearest_pruned h ?_
  intro start hstart
  obtain ⟨q, hq, hs⟩ := Outcome.nearestStart_eq_some hstart
  exact ⟨⟨some q, false⟩, List.mem_map.mpr ⟨some q, hq, rfl⟩, q, rfl, hs⟩

theorem blockStep_pruned {statement : Rule Id Statement}
    (h : statement.OpensWith tokens statementStart) :
    blockStep .pruned tokens ctx statement = blockStep .exhaustive tokens ctx statement := by
  refine Rule.ext_run fun pos => ?_
  rw [run_blockStep, run_blockStep]
  simp only [apply_ite (Outcome.as some)]
  refine chooseNearest_pruned (h.as some) ?_
  intro start hstart
  obtain ⟨q, hq, rfl⟩ := Option.map_eq_some_iff.mp hstart
  exact ⟨_, List.mem_singleton_self _, ⟨none, q.start, q.next⟩,
    by simp [hq, Outcome.as], rfl⟩

theorem furtherStatements_pruned {statement : Rule Id Statement}
    (h : statement.OpensWith tokens statementStart) (bound : Nat) :
    furtherStatements .pruned tokens ctx statement bound =
      furtherStatements .exhaustive tokens ctx statement bound := by
  induction bound with
  | zero => rfl
  | succ bound ih => rw [furtherStatements, furtherStatements, blockStep_pruned h, ih]

theorem blockOf_pruned {statement : Rule Id Statement}
    (h : statement.OpensWith tokens statementStart) :
    blockOf .pruned tokens ctx statement = blockOf .exhaustive tokens ctx statement := by
  funext pos
  rw [blockOf, blockOf, furtherStatements_pruned h]

theorem statementWithin_pruned (forbidden : Option Kind) (room : Nat) :
    statementWithin .pruned tokens forbidden room =
      (statementWithin .exhaustive tokens forbidden room : Rule Id Statement) := by
  induction room with
  | zero => exact statementOf_pruned never_opens
  | succ room ih =>
    have hopens : (statementWithin .exhaustive tokens forbidden room : Rule Id Statement).OpensWith
        tokens statementStart := by
      change (statement .exhaustive tokens ⟨forbidden, room⟩ : Rule Id Statement).OpensWith _ _
      exact statement_spans.opens
    rw [statementWithin, statementWithin, ih, blockOf_pruned hopens]
    exact statementOf_pruned (conditionalOf_opens _)

theorem statement_pruned :
    statement .pruned tokens ctx = (statement .exhaustive tokens ctx : Rule Id Statement) :=
  statementWithin_pruned ctx.forbidden ctx.room

theorem block_pruned :
    block .pruned tokens ctx = (block .exhaustive tokens ctx : Rule Id Block) := by
  rw [block, block, statement_pruned]
  exact blockOf_pruned statement_spans.opens

theorem conditional_pruned :
    conditional .pruned tokens ctx = (conditional .exhaustive tokens ctx : Rule Id Statement) := by
  simp only [conditional, block_pruned]

theorem bodyPart_pruned :
    bodyPart .pruned tokens ctx = (bodyPart .exhaustive tokens ctx : Rule Id BodyPart) := by
  funext pos
  simp only [bodyPart, block_pruned]

theorem bodyParts_pruned (bound : Nat) :
    bodyParts .pruned tokens ctx bound =
      (bodyParts .exhaustive tokens ctx bound : Steps Id (List BodyPart)) := by
  induction bound with
  | zero => rfl
  | succ bound ih => rw [bodyParts, bodyParts, bodyPart_pruned, ih]

theorem document_pruned :
    document .pruned tokens ctx = (document .exhaustive tokens ctx : Rule Id Document) := by
  rw [document, document, bodyParts_pruned]

end Grammar

/-- Where no books are kept, both strategies are the same grammar. -/
theorem Production.rule_pruned (p : Production) :
    p.rule .pruned tokens ctx = (p.rule .exhaustive tokens ctx : Rule Id p.Value) := by
  cases p with
  | conditional => exact Grammar.conditional_pruned
  | statement => exact Grammar.statement_pruned
  | block => exact Grammar.block_pruned
  | bodyPart => exact Grammar.bodyPart_pruned
  | document => exact Grammar.document_pruned
  | _ => rfl

theorem run_progress_bind (steps : Steps (StateM Progress) α)
    (next : α → Steps (StateM Progress) β) (seq : Sequence) (progress : Progress) :
    StateT.run ((steps >>= next) seq) progress =
      match StateT.run (steps seq) progress with
      | (none, after) => (none, after)
      | (some (a, seq'), after) => StateT.run (next a seq') after := by
  change StateT.run (steps seq >>= _) progress = _
  rcases h : StateT.run (steps seq) progress with ⟨_ | ⟨a, seq'⟩, after⟩
  · rw [StateT.run_bind, h]
    rfl
  · rw [StateT.run_bind, h]
    rfl

/-- Steps that end well from every sequence, whatever the books. -/
def Steadfast (steps : Steps (StateM Progress) α) : Prop :=
  ∀ seq progress, (StateT.run (steps seq) progress).1 ≠ none

theorem steadfast_pure (a : α) : Steadfast (pure a) := by
  intro seq progress h
  cases h

theorem Steadfast.bind {steps : Steps (StateM Progress) α} {next : α → Steps (StateM Progress) β}
    (h : Steadfast steps) (hnext : ∀ a, Steadfast (next a)) : Steadfast (steps >>= next) := by
  intro seq progress
  rw [run_progress_bind]
  have hsteps := h seq progress
  rcases hrun : StateT.run (steps seq) progress with ⟨_ | ⟨a, seq'⟩, after⟩
  · rw [hrun] at hsteps
    exact absurd rfl hsteps
  · exact hnext a seq' after

theorem steadfast_perhaps (rule : Rule (StateM Progress) α) : Steadfast (.perhaps rule) := by
  intro seq progress
  change (StateT.run (rule seq.position >>= _) progress).1 ≠ none
  rw [StateT.run_bind]
  rcases StateT.run (rule seq.position) progress with ⟨_ | p, after⟩
  · nofun
  · nofun

theorem steadfast_bodyParts (strategy : Strategy) (bound : Nat) :
    Steadfast (Grammar.bodyParts strategy tokens ctx bound) := by
  induction bound with
  | zero => exact steadfast_pure []
  | succ bound ih =>
    refine Steadfast.bind (steadfast_perhaps _) ?_
    rintro (_ | part)
    · exact steadfast_pure []
    · exact ih.bind fun parts => steadfast_pure _

/-- Where the first body fails, the second does the very same. -/
def FailAlike (steps other : Steps (StateM Progress) α) : Prop :=
  ∀ seq progress, (StateT.run (steps seq) progress).1 = none →
    StateT.run (other seq) progress = StateT.run (steps seq) progress

theorem Steadfast.fail_alike {steps other : Steps (StateM Progress) α} (h : Steadfast steps) :
    FailAlike steps other :=
  fun seq progress hfail => absurd hfail (h seq progress)

theorem FailAlike.bind (steps : Steps (StateM Progress) α)
    {next other : α → Steps (StateM Progress) β} (h : ∀ a, FailAlike (next a) (other a)) :
    FailAlike (steps >>= next) (steps >>= other) := by
  intro seq progress hfail
  rw [run_progress_bind] at hfail ⊢
  rw [run_progress_bind]
  rcases hrun : StateT.run (steps seq) progress with ⟨_ | ⟨a, seq'⟩, after⟩
  · rfl
  · rw [hrun] at hfail
    exact h a seq' after hfail

theorem FailAlike.rule {steps other : Steps (StateM Progress) α} (h : FailAlike steps other)
    {pos : Nat} {progress : Progress} (hfail : (StateT.run (steps.rule pos) progress).1 = none) :
    StateT.run (other.rule pos) progress = StateT.run (steps.rule pos) progress := by
  have hrule : ∀ body : Steps (StateM Progress) α, StateT.run (body.rule pos) progress =
      ((StateT.run (body (.empty pos)) progress).1.map fun r => r.2.finish r.1,
        (StateT.run (body (.empty pos)) progress).2) := fun _ => rfl
  rw [hrule] at hfail ⊢
  rw [hrule, h _ _ (Option.map_eq_none_iff.mp hfail)]

theorem document_fails_alike {progress : Progress}
    (hfail : ((Grammar.document .pruned tokens ctx 0 : StateM Progress _).run progress).1 = none) :
    (Grammar.document .exhaustive tokens ctx 0 : StateM Progress _).run progress =
      (Grammar.document .pruned tokens ctx 0 : StateM Progress _).run progress := by
  refine FailAlike.rule ?_ hfail
  refine .bind _ fun number => .bind _ fun objectClass => .bind _ fun _ => ?_
  exact (Steadfast.bind (steadfast_bodyParts _ _) fun parts => steadfast_pure _).fail_alike

theorem Progress.run_start_pruned (tokens : List Token) (p : Production) (ctx : Context)
    (pos : Nat) :
    ((p.rule .pruned tokens ctx pos : StateM Progress _).run .start).1 =
      ((p.rule .exhaustive tokens ctx pos : StateM Progress _).run .start).1 := by
  rw [Progress.run_start, Progress.run_start, Production.rule_pruned]

theorem Document.ofTokensBy_pruned (tokens : List Token) :
    ofTokensBy .pruned tokens = ofTokensBy .exhaustive tokens := by
  have hsame := Progress.run_start_pruned tokens .document .root 0
  simp only [Production.rule] at hsame
  rw [ofTokensBy, ofTokensBy]
  rcases hrun : (Grammar.document .pruned tokens .root 0 : StateM Progress _).run .start
    with ⟨_ | found, after⟩
  · rw [document_fails_alike (by rw [hrun]), hrun]
  · rw [hrun] at hsame
    rcases hrun' : (Grammar.document .exhaustive tokens .root 0 : StateM Progress _).run .start
      with ⟨outcome, after'⟩
    rw [hrun'] at hsame
    obtain rfl : some found = outcome := hsame
    rfl

/-- Pruning changes no result: on a fresh stream every production finds the same with and without
it, and parsing comes to the same document or fails at the same mark. -/
theorem pruning_changes_no_result (tokens : List Token) :
    (∀ (p : Production) (ctx : Context) (pos : Nat),
      ((p.rule .pruned tokens ctx pos : StateM Progress _).run .start).1 =
        ((p.rule .exhaustive tokens ctx pos : StateM Progress _).run .start).1) ∧
    Document.ofTokens tokens = Document.ofTokensBy .exhaustive tokens :=
  ⟨Progress.run_start_pruned tokens, Document.ofTokensBy_pruned tokens⟩

end Dossier
