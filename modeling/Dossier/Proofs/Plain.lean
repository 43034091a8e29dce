import Dossier.Grammar.Document

namespace Dossier

namespace Outcome

variable {α β : Type}

/-- Where an outcome starts, or another position if nothing was found. -/
def startOr (outcome : Outcome α) (pos : Nat) : Nat := (outcome.map Parsed.start).getD pos

/-- Where an outcome ends, or another position if nothing was found. -/
def nextOr (outcome : Outcome α) (pos : Nat) : Nat := (outcome.map Parsed.next).getD pos

@[simp] theorem as_eq_some_iff {f : α → β} {outcome : Outcome α} {p : Parsed β} :
    outcome.as f = some p ↔ ∃ q, outcome = some q ∧ p = ⟨f q.value, q.start, q.next⟩ := by
  simp [as, eq_comm (a := p)]

end Outcome

theorem Rule.ext_run {α : Type} {rule other : Rule Id α}
    (h : ∀ pos, Id.run (rule pos) = Id.run (other pos)) : rule = other :=
  funext h

theorem Rule.run_read {α β : Type} {f : α → Option β} {back : β → α} {rule : Rule Id α} {pos : Nat}
    {p : Parsed β} (hf : ∀ a b, f a = some b ↔ a = back b) :
    Id.run (rule.read f pos) = some p ↔
      Id.run (rule pos) = some ⟨back p.value, p.start, p.next⟩ := by
  change (Id.run (rule pos)).read f = _ ↔ _
  obtain ⟨b, start, next⟩ := p
  rcases Id.run (rule pos) with _ | ⟨a, start', next'⟩
  · simp [Outcome.read]
  · simp only [Outcome.read, Option.bind_some, Option.map_eq_some_iff, hf, Parsed.mk.injEq,
      Option.some.injEq]
    constructor
    · rintro ⟨b', rfl, rfl, rfl, rfl⟩
      exact ⟨rfl, rfl, rfl⟩
    · rintro ⟨rfl, rfl, rfl⟩
      exact ⟨b, rfl, rfl, rfl, rfl⟩

theorem Rule.run_as {α β : Type} {f : α → β} {rule : Rule Id α} {pos : Nat} {p : Parsed β} :
    Id.run (rule.as f pos) = some p ↔
      ∃ q, Id.run (rule pos) = some q ∧ p = ⟨f q.value, q.start, q.next⟩ :=
  Outcome.as_eq_some_iff

namespace Grammar

variable {strategy : Strategy} {tokens : List Token} {ctx : Context} {pos : Nat}

theorem run_token (kind : Kind) :
    Id.run (token tokens ctx kind pos) = firstOf ctx kind pos (tokens.drop pos) := by
  simp only [token]
  rcases firstOf ctx kind pos (tokens.drop pos) with _ | found <;> rfl

theorem run_expect (kind : Kind) (seq : Sequence) :
    Id.run (expect tokens ctx kind seq) =
      (Id.run (token tokens ctx kind seq.position)).map fun p => ((), seq.advance p) := by
  rw [expect, Steps.run_bind, Steps.run_take, Option.bind_map, Option.map_eq_bind]
  rfl

theorem run_identifier {p : Parsed String} :
    Id.run (identifier tokens ctx pos) = some p ↔
      Id.run (token tokens ctx .identifier pos) = some ⟨.identifier p.value, p.start, p.next⟩ :=
  Rule.run_read fun t name => by cases t <;> simp

theorem run_constantValue {p : Parsed Nat} :
    Id.run (constantValue tokens ctx pos) = some p ↔
      Id.run (token tokens ctx .constant pos) = some ⟨.constant p.value, p.start, p.next⟩ :=
  Rule.run_read fun t value => by cases t <;> simp

theorem run_verb {p : Parsed Verb} :
    Id.run (verb tokens ctx pos) = some p ↔
      Id.run (token tokens ctx .verb pos) = some ⟨.verb p.value, p.start, p.next⟩ :=
  Rule.run_read fun t v => by cases t <;> simp

theorem run_copula {p : Parsed Verb} :
    Id.run (copula tokens ctx pos) = some p ↔
      p.value = .is ∧ Id.run (verb tokens ctx pos) = some p := by
  simp only [copula, Rule.read, Outcome.read, Id.run_bind, Id.run_pure]
  obtain ⟨v, start, next⟩ := p
  rcases Id.run (verb tokens ctx pos) with _ | ⟨v', start', next'⟩
  · simp
  · cases v' <;> simp <;> grind

theorem run_itemNumber {p : Parsed Nat} :
    Id.run (itemNumber tokens ctx pos) = some p ↔
      Id.run (token tokens ctx .itemNumber pos) = some ⟨.itemNumber p.value, p.start, p.next⟩ :=
  Rule.run_read fun t number => by cases t <;> simp

theorem run_objectClass {p : Parsed ObjectClass} :
    Id.run (objectClass tokens ctx pos) = some p ↔
      Id.run (token tokens ctx .objectClass pos) = some ⟨.objectClass p.value, p.start, p.next⟩ :=
  Rule.run_read fun t c => by cases t <;> simp

theorem run_label :
    Id.run (label tokens ctx pos) = Candidate.chooseNearest
      [⟨(Id.run (token tokens ctx .addendum pos)).read fun
          | .addendum number letter => some (.addendum number letter)
          | _ => none, false⟩,
        ⟨(Id.run (token tokens ctx .description pos)).as fun _ => .description, false⟩] := rfl

theorem run_allow (kind : Kind) (seq : Sequence) :
    Id.run (allow tokens ctx kind seq) =
      some ((), ⟨seq.start.or ((Id.run (token tokens ctx kind seq.position)).map Parsed.start),
        (Id.run (token tokens ctx kind seq.position)).nextOr seq.position⟩) := by
  rw [allow, Steps.run_bind, Steps.run_perhaps]
  cases Id.run (token tokens ctx kind seq.position) with
  | none => simp [Outcome.nextOr, Steps.run_pure]
  | some p => rfl

/-- A square starts at its article, if there is one before the phrase. -/
theorem run_square :
    Id.run (square tokens ctx pos) = (do
      let the := Id.run (token tokens ctx .the pos)
      let square ← Id.run (token tokens ctx .square (the.nextOr pos))
      let of := Id.run (token tokens ctx .of square.next)
      let name ← Id.run (identifier tokens ctx (of.nextOr square.next))
      return ⟨.square name.value, the.startOr square.start, name.next⟩ :
        Option (Parsed Expression)) := by
  simp only [square, Steps.run_rule, Steps.run_bind, Steps.run_take, run_allow, run_expect,
    Steps.run_pure, Option.map_bind, Option.bind_map, Option.bind_some, Function.comp_def,
    Sequence.position_empty]
  cases Id.run (token tokens ctx .the pos) with
  | none => rfl
  | some the => rfl

theorem run_addOf (right : Rule Id Expression) :
    Id.run (addOf tokens ctx right pos) = (do
      let left ← Id.run (identifier tokens ctx pos)
      let add ← Id.run (token tokens ctx .add left.next)
      let right ← Id.run (right add.next)
      return ⟨.add left.value right.value, left.start, right.next⟩ :
        Option (Parsed Expression)) := by
  simp only [addOf, Steps.run_rule, Steps.run_bind, Steps.run_take, run_expect, Steps.run_pure,
    Option.map_bind, Option.bind_map, Function.comp_def]
  rfl

theorem run_functionCallOf (argument : Rule Id Expression) :
    Id.run (functionCallOf tokens ctx argument pos) = (do
      let opening ← Id.run (token tokens ctx .openParen pos)
      let name ← Id.run (identifier tokens ctx opening.next)
      let first ← Id.run (argument name.next)
      let others ← Id.run (furtherArguments tokens ctx argument tokens.length
        ⟨some opening.start, first.next⟩)
      return others.2.finish (.call name.value (first.value :: others.1)) :
        Option (Parsed Expression)) := by
  simp only [functionCallOf, Steps.run_rule, Steps.run_bind, Steps.run_take, run_expect,
    Steps.run_pure, Option.map_bind, Option.bind_map, Function.comp_def]
  rfl

theorem run_furtherArguments (argument : Rule Id Expression) (bound start next : Nat) :
    Id.run (furtherArguments tokens ctx argument (bound + 1) ⟨some start, next⟩) = (do
      let separator ← Id.run (separator tokens ctx next)
      match separator.value with
      | .close => some ([], ⟨some start, separator.next⟩)
      | .and =>
        let first ← Id.run (argument separator.next)
        let others ← Id.run (furtherArguments tokens ctx argument bound ⟨some start, first.next⟩)
        return (first.value :: others.1, others.2) :
        Option (List Expression × Sequence)) := by
  rw [furtherArguments, Steps.run_bind, Steps.run_take, Option.bind_map]
  rcases Id.run (separator tokens ctx next) with _ | ⟨_ | _, at_, next'⟩
  · rfl
  · simp only [Function.comp_def, Option.bind_some]
    rw [Steps.run_bind, Steps.run_take, Option.bind_map]
    simp only [Function.comp_def, Steps.run_bind, Steps.run_pure]
    rfl
  · rfl

theorem run_expression :
    Id.run (expression tokens ctx pos) = Candidate.chooseNearest
      [⟨Id.run (square tokens (ctx.forbid .period) pos), false⟩,
        ⟨Id.run (add tokens (ctx.forbid .period) pos), false⟩,
        ⟨Id.run (constant tokens (ctx.forbid .period) pos), false⟩,
        ⟨Id.run (functionCall tokens (ctx.forbid .period) pos), false⟩,
        ⟨Id.run (bareVariable tokens (ctx.forbid .period) pos), true⟩] := by
  rw [expression_eq]
  rfl

theorem run_equality :
    Id.run (equality tokens ctx pos) = (do
      let left ← Id.run (expression tokens ctx pos)
      let copula ← Id.run (copula tokens ctx left.next)
      let right ← Id.run (expression tokens ctx copula.next)
      return ⟨⟨left.value, right.value⟩, left.start, right.next⟩ : Option (Parsed Equality)) := by
  simp only [equality, Steps.run_rule, Steps.run_bind, Steps.run_take, Steps.run_pure,
    Option.map_bind, Option.bind_map, Function.comp_def]
  rfl

theorem run_assignment :
    Id.run (assignment tokens ctx pos) = (do
      let target ← Id.run (identifier tokens ctx pos)
      let verb ← Id.run (verb tokens ctx target.next)
      let value ← Id.run (constantValue tokens ctx verb.next)
      let stop ← Id.run (token tokens ctx .period value.next)
      return ⟨.assignment target.value (.constant value.value), target.start, stop.next⟩ :
        Option (Parsed Statement)) := by
  simp only [assignment, Steps.run_rule, Steps.run_bind, Steps.run_take, run_expect, Steps.run_pure,
    Option.map_bind, Option.bind_map, Function.comp_def]
  rfl

theorem run_reverseAssignment :
    Id.run (reverseAssignment tokens ctx pos) = (do
      let value ← Id.run (expression tokens ctx pos)
      let verb ← Id.run (verb tokens ctx value.next)
      let target ← Id.run (identifier tokens ctx verb.next)
      let stop ← Id.run (token tokens ctx .period target.next)
      return ⟨.assignment target.value value.value, value.start, stop.next⟩ :
        Option (Parsed Statement)) := by
  simp only [reverseAssignment, Steps.run_rule, Steps.run_bind, Steps.run_take, run_expect,
    Steps.run_pure, Option.map_bind, Option.bind_map, Function.comp_def]
  rfl

theorem run_increment :
    Id.run (increment tokens ctx pos) = (do
      let target ← Id.run (identifier tokens ctx pos)
      let increment ← Id.run (token tokens ctx .increment target.next)
      let stop ← Id.run (token tokens ctx .period increment.next)
      return ⟨.increment target.value, target.start, stop.next⟩ : Option (Parsed Statement)) := by
  simp only [increment, Steps.run_rule, Steps.run_bind, Steps.run_take, run_expect, Steps.run_pure,
    Option.map_bind, Option.bind_map, Function.comp_def]
  rfl

theorem run_goto :
    Id.run (goto tokens ctx pos) = (do
      let see ← Id.run (token tokens ctx .see pos)
      let label ← Id.run (label tokens ctx see.next)
      let stop ← Id.run (token tokens ctx .period label.next)
      return ⟨.goto label.value, see.start, stop.next⟩ : Option (Parsed Statement)) := by
  simp only [goto, Steps.run_rule, Steps.run_bind, Steps.run_take, run_expect, Steps.run_pure,
    Option.map_bind, Option.bind_map, Function.comp_def]
  rfl

theorem run_expressionStatement :
    Id.run (expressionStatement tokens ctx pos) = (do
      let expression ← Id.run (expression tokens ctx pos)
      let stop ← Id.run (token tokens ctx .period expression.next)
      return ⟨.expression expression.value, expression.start, stop.next⟩ :
        Option (Parsed Statement)) := by
  simp only [expressionStatement, Steps.run_rule, Steps.run_bind, Steps.run_take, run_expect,
    Steps.run_pure, Option.map_bind, Option.bind_map, Function.comp_def]
  rfl

theorem run_comment :
    Id.run (comment tokens ctx pos) = (do
      let opening ← Id.run (token tokens ctx .commentStart pos)
      let closing ← Id.run (token tokens ctx .commentEnd opening.next)
      return ⟨.comment, opening.start, closing.next⟩ : Option (Parsed Statement)) := by
  simp only [comment, Steps.run_rule, Steps.run_bind, run_expect, Steps.run_pure, Option.map_bind,
    Option.bind_map, Function.comp_def]
  rfl

theorem run_invalid :
    Id.run (invalid tokens ctx pos) = (do
      let stop ← Id.run (token tokens ctx .period pos)
      return ⟨.invalid, stop.start, stop.next⟩ : Option (Parsed Statement)) := by
  simp only [invalid, Steps.run_rule, Steps.run_bind, run_expect, Steps.run_pure, Option.map_bind,
    Option.bind_map, Function.comp_def]
  rfl

theorem run_conditionalOf (body : Rule Id Block) :
    Id.run (conditionalOf tokens ctx body pos) = (do
      let opening ← Id.run (token tokens ctx .ifWord pos)
      let condition ← Id.run (equality tokens ctx opening.next)
      let comma ← Id.run (token tokens ctx .comma condition.next)
      let body ← Id.run (body comma.next)
      return ⟨.conditional condition.value body.value, opening.start, body.next⟩ :
        Option (Parsed Statement)) := by
  simp only [conditionalOf, Steps.run_rule, Steps.run_bind, Steps.run_take, run_expect,
    Steps.run_pure, Option.map_bind, Option.bind_map, Function.comp_def]
  rfl

/-- The forms of statement that contain none, at one position. -/
def simpleOutcomes (tokens : List Token) (ctx : Context) (pos : Nat) : List (Outcome Statement) :=
  (simpleForms tokens ctx).map fun form => Id.run (form pos)

theorem run_statementOf (conditional : Rule Id Statement) :
    Id.run (statementOf strategy tokens ctx conditional pos) =
      let simple := simpleOutcomes tokens ctx pos
      let branch := if strategy.tries (peek tokens [.ifWord] pos) (Outcome.nearestStart simple) then
        Id.run (conditional pos) else none
      Candidate.chooseNearest ((branch :: simple).map fun outcome => ⟨outcome, false⟩) := by
  change Id.run (if strategy.tries (peek tokens [.ifWord] pos)
    (Outcome.nearestStart (simpleOutcomes tokens ctx pos)) then _ else _) = _
  dsimp only
  split
  · rfl
  · rfl

theorem run_blockEnd :
    Id.run (blockEnd tokens ctx pos) = Candidate.chooseNearest
      [⟨(Id.run (token tokens ctx .rule pos)).as fun _ => (), false⟩,
        ⟨endOfStream tokens pos, false⟩] := rfl

theorem run_blockStep (statement : Rule Id Statement) :
    Id.run (blockStep strategy tokens ctx statement pos) =
      let stop := Id.run (blockEnd tokens ctx pos)
      let next := if strategy.tries (peek tokens statementStart pos) (stop.map Parsed.start) then
        Id.run (statement pos) else none
      Candidate.chooseNearest [⟨next.as some, false⟩, ⟨stop.as fun _ => none, false⟩] := by
  change Id.run (if strategy.tries (peek tokens statementStart pos)
    ((Id.run (blockEnd tokens ctx pos)).map Parsed.start) then _ else _) = _
  dsimp only
  split
  · rfl
  · rfl

theorem run_furtherStatements (statement : Rule Id Statement) (bound start next : Nat) :
    Id.run (furtherStatements strategy tokens ctx statement (bound + 1) ⟨some start, next⟩) = (do
      let step ← Id.run (blockStep strategy tokens ctx statement next)
      match step.value with
      | none => some ([], ⟨some start, next⟩)
      | some first =>
        let others ← Id.run (furtherStatements strategy tokens ctx statement bound
          ⟨some start, step.next⟩)
        return (first :: others.1, others.2) : Option (List Statement × Sequence)) := by
  rw [furtherStatements, Steps.run_bind, Steps.run_ahead, Option.bind_map]
  rcases Id.run (blockStep strategy tokens ctx statement next) with _ | ⟨_ | first, at_, next'⟩
  · rfl
  · rfl
  · simp only [Function.comp_def, Option.bind_some]
    rw [Steps.run_bind, Steps.run_moveTo]
    simp only [Option.bind_some, Steps.run_bind, Steps.run_pure]
    rfl

theorem run_blockOf (statement : Rule Id Statement) :
    Id.run (blockOf strategy tokens ctx statement pos) = (do
      let first ← Id.run (statement pos)
      let others ← Id.run (furtherStatements strategy tokens ctx statement tokens.length
        ⟨some first.start, first.next⟩)
      return others.2.finish (first.value :: others.1) : Option (Parsed Block)) := by
  change Id.run (Steps.rule _ pos) = _
  simp only [Steps.run_rule, Steps.run_bind, Steps.run_take, Steps.run_pure, Option.map_bind,
    Option.bind_map, Function.comp_def]
  rfl

theorem run_bodyPart :
    Id.run (bodyPart strategy tokens ctx pos) = Candidate.chooseNearest
      [⟨(Id.run (block strategy tokens ctx pos)).as .block, false⟩,
        ⟨(Id.run (label tokens ctx pos)).as .label, false⟩] := rfl

theorem run_bodyParts (bound start next : Nat) :
    Id.run (bodyParts strategy tokens ctx (bound + 1) ⟨some start, next⟩) =
      match Id.run (bodyPart strategy tokens ctx next) with
      | none => some ([], ⟨some start, next⟩)
      | some part =>
        (Id.run (bodyParts strategy tokens ctx bound ⟨some start, part.next⟩)).map fun others =>
          (part.value :: others.1, others.2) := by
  rw [bodyParts, Steps.run_bind, Steps.run_perhaps]
  rcases Id.run (bodyPart strategy tokens ctx next) with _ | part
  · rfl
  · simp only [Option.bind_some, Steps.run_bind, Steps.run_pure, Option.map_eq_bind]
    rfl

theorem run_document :
    Id.run (document strategy tokens ctx pos) = (do
      let number ← Id.run (itemNumber tokens ctx pos)
      let objectClass ← Id.run (objectClass tokens ctx number.next)
      let heading ← Id.run (token tokens ctx .procedures objectClass.next)
      let parts ← Id.run (bodyParts strategy tokens ctx tokens.length
        ⟨some number.start, heading.next⟩)
      return parts.2.finish ⟨number.value, objectClass.value, parts.1⟩ :
        Option (Parsed Document)) := by
  simp only [document, Steps.run_rule, Steps.run_bind, Steps.run_take, run_expect, Steps.run_pure,
    Option.map_bind, Option.bind_map, Function.comp_def]
  rfl

end Grammar

end Dossier
