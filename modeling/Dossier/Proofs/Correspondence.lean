import Mathlib.Data.List.Forall2
import Dossier.Grammar.Document

namespace Dossier

variable {m n : Type → Type} [Monad m] [Bookkeeping m] [Monad n] [Bookkeeping n]

/-- The search that a call stands for. -/
def Call.work (strategy : Strategy) (tokens : List Token) (call : Call) : m call.Result :=
  call.production.rule strategy tokens call.context call.position

/-- What a relation owes to single steps. A result may be remembered for a call only if the work
behind it is what that call stands for. -/
structure Correspondence (strategy : Strategy) (tokens : List Token) (m n : Type → Type)
    [Monad m] [Bookkeeping m] [Monad n] [Bookkeeping n] where
  Related : {α : Type} → m α → n α → Prop
  pure : ∀ {α : Type} (a : α), Related (pure a) (pure a)
  bind : ∀ {α β : Type} {x : m α} {y : n α} {f : α → m β} {g : α → n β},
    Related x y → (∀ a, Related (f a) (g a)) → Related (x >>= f) (y >>= g)
  reach : ∀ position, Related (reach position) (reach position)
  remember : ∀ (call : Call) {x : m call.Result} {y : n call.Result}, Related x y →
    remember call y = call.work strategy tokens → Related (remember call x) (remember call y)

namespace Correspondence

variable {strategy : Strategy} {tokens : List Token} (c : Correspondence strategy tokens m n)
  {ctx : Context} {α β : Type}

def RelatesRules (rule : Rule m α) (rule' : Rule n α) : Prop :=
  ∀ pos, c.Related (rule pos) (rule' pos)

def RelatesSteps (steps : Steps m α) (steps' : Steps n α) : Prop :=
  ∀ seq, c.Related (steps seq) (steps' seq)

theorem steps_pure (a : α) : c.RelatesSteps (Pure.pure a) (Pure.pure a) :=
  fun _ => c.pure _

theorem steps_fail : c.RelatesSteps (.fail : Steps m α) .fail :=
  fun _ => c.pure none

theorem steps_bind {s : Steps m α} {s' : Steps n α} {f : α → Steps m β} {f' : α → Steps n β}
    (hs : c.RelatesSteps s s') (hf : ∀ a, c.RelatesSteps (f a) (f' a)) :
    c.RelatesSteps (s >>= f) (s' >>= f') := by
  intro seq
  refine c.bind (hs seq) ?_
  rintro (_ | ⟨value, seq'⟩)
  · exact c.pure none
  · exact hf value seq'

theorem take {r : Rule m α} {r' : Rule n α} (h : c.RelatesRules r r') :
    c.RelatesSteps (.take r) (.take r') :=
  fun seq => c.bind (h seq.position) fun _ => c.pure _

theorem perhaps {r : Rule m α} {r' : Rule n α} (h : c.RelatesRules r r') :
    c.RelatesSteps (.perhaps r) (.perhaps r') := by
  intro seq
  refine c.bind (h seq.position) fun outcome => ?_
  rcases seq.step outcome with _ | ⟨value, seq'⟩
  · exact c.pure _
  · exact c.pure _

theorem ahead {r : Rule m α} {r' : Rule n α} (h : c.RelatesRules r r') :
    c.RelatesSteps (.ahead r) (.ahead r') :=
  fun seq => c.bind (h seq.position) fun _ => c.pure _

theorem move_to (p : Parsed α) : c.RelatesSteps (.moveTo p) (.moveTo p) :=
  fun _ => c.pure _

theorem never : c.RelatesRules (.never : Rule m α) .never :=
  fun _ => c.pure none

theorem rule {s : Steps m α} {s' : Steps n α} (h : c.RelatesSteps s s') :
    c.RelatesRules s.rule s'.rule :=
  fun pos => c.bind (h (.empty pos)) fun _ => c.pure _

theorem read (f : α → Option β) {r : Rule m α} {r' : Rule n α} (h : c.RelatesRules r r') :
    c.RelatesRules (r.read f) (r'.read f) :=
  fun pos => c.bind (h pos) fun _ => c.pure _

theorem as (f : α → β) {r : Rule m α} {r' : Rule n α} (h : c.RelatesRules r r') :
    c.RelatesRules (r.as f) (r'.as f) :=
  fun pos => c.bind (h pos) fun _ => c.pure _

theorem token (kind : Kind) :
    c.RelatesRules (Grammar.token tokens ctx kind) (Grammar.token tokens ctx kind) := by
  intro pos
  simp only [Grammar.token]
  split
  · exact c.pure none
  · exact c.bind (c.reach _) fun _ => c.pure _

theorem expect (kind : Kind) :
    c.RelatesSteps (Grammar.expect tokens ctx kind) (Grammar.expect tokens ctx kind) :=
  c.steps_bind (c.take (c.token kind)) fun _ => c.steps_pure ()

theorem allow (kind : Kind) :
    c.RelatesSteps (Grammar.allow tokens ctx kind) (Grammar.allow tokens ctx kind) :=
  c.steps_bind (c.perhaps (c.token kind)) fun _ => c.steps_pure ()

theorem identifier :
    c.RelatesRules (Grammar.identifier tokens ctx) (Grammar.identifier tokens ctx) :=
  c.read _ (c.token _)

theorem constant_value :
    c.RelatesRules (Grammar.constantValue tokens ctx) (Grammar.constantValue tokens ctx) :=
  c.read _ (c.token _)

theorem verb : c.RelatesRules (Grammar.verb tokens ctx) (Grammar.verb tokens ctx) :=
  c.read _ (c.token _)

theorem copula : c.RelatesRules (Grammar.copula tokens ctx) (Grammar.copula tokens ctx) :=
  c.read _ c.verb

theorem item_number :
    c.RelatesRules (Grammar.itemNumber tokens ctx) (Grammar.itemNumber tokens ctx) :=
  c.read _ (c.token _)

theorem object_class :
    c.RelatesRules (Grammar.objectClass tokens ctx) (Grammar.objectClass tokens ctx) :=
  c.read _ (c.token _)

theorem label : c.RelatesRules (Grammar.label tokens ctx) (Grammar.label tokens ctx) :=
  fun pos => c.bind (c.read _ (c.token _) pos) fun _ =>
    c.bind (c.as _ (c.token _) pos) fun _ => c.pure _

theorem square : c.RelatesRules (Grammar.square tokens ctx) (Grammar.square tokens ctx) :=
  c.rule <| c.steps_bind (c.allow _) fun _ => c.steps_bind (c.expect _) fun _ =>
    c.steps_bind (c.allow _) fun _ => c.steps_bind (c.take c.identifier) fun _ => c.steps_pure _

theorem constant : c.RelatesRules (Grammar.constant tokens ctx) (Grammar.constant tokens ctx) :=
  c.as _ c.constant_value

theorem bare_variable :
    c.RelatesRules (Grammar.bareVariable tokens ctx) (Grammar.bareVariable tokens ctx) :=
  c.as _ c.identifier

theorem add_of {right : Rule m Expression} {right' : Rule n Expression}
    (h : c.RelatesRules right right') :
    c.RelatesRules (Grammar.addOf tokens ctx right) (Grammar.addOf tokens ctx right') :=
  c.rule <| c.steps_bind (c.take c.identifier) fun _ => c.steps_bind (c.expect _) fun _ =>
    c.steps_bind (c.take h) fun _ => c.steps_pure _

theorem separator : c.RelatesRules (Grammar.separator tokens ctx) (Grammar.separator tokens ctx) :=
  fun pos => c.bind (c.as _ (c.token _) pos) fun _ =>
    c.bind (c.as _ (c.token _) pos) fun _ => c.pure _

theorem further_arguments {argument : Rule m Expression} {argument' : Rule n Expression}
    (h : c.RelatesRules argument argument') (bound : Nat) :
    c.RelatesSteps (Grammar.furtherArguments tokens ctx argument bound)
      (Grammar.furtherArguments tokens ctx argument' bound) := by
  induction bound with
  | zero => exact c.steps_fail
  | succ bound ih =>
    refine c.steps_bind (c.take c.separator) ?_
    rintro (_ | _)
    · exact c.steps_bind (c.take h) fun _ => c.steps_bind ih fun _ => c.steps_pure _
    · exact c.steps_pure []

theorem function_call_of {argument : Rule m Expression} {argument' : Rule n Expression}
    (h : c.RelatesRules argument argument') :
    c.RelatesRules (Grammar.functionCallOf tokens ctx argument)
      (Grammar.functionCallOf tokens ctx argument') :=
  c.rule <| c.steps_bind (c.expect _) fun _ => c.steps_bind (c.take c.identifier) fun _ =>
    c.steps_bind (c.take h) fun _ => c.steps_bind (c.further_arguments h _) fun _ => c.steps_pure _

/-- The context an expression is remembered under is all that it depends on. -/
theorem expression_of {add call : Rule m Expression} {add' call' : Rule n Expression}
    (hadd : c.RelatesRules add add') (hcall : c.RelatesRules call call')
    (hwork : ∀ pos, Grammar.expressionOf tokens ctx add' call' pos =
      Grammar.expression tokens ctx pos) :
    c.RelatesRules (Grammar.expressionOf tokens ctx add call)
      (Grammar.expressionOf tokens ctx add' call') := by
  intro pos
  refine c.remember ⟨.expression, ctx, pos⟩ ?_ (hwork pos)
  exact c.bind (c.square pos) fun _ => c.bind (hadd pos) fun _ => c.bind (c.constant pos) fun _ =>
    c.bind (hcall pos) fun _ => c.bind (c.bare_variable pos) fun _ => c.pure _

theorem expression_within (room : Nat) :
    c.RelatesRules (Grammar.expressionWithin tokens room)
      (Grammar.expressionWithin tokens room) := by
  induction room with
  | zero => exact c.expression_of c.never c.never fun _ => rfl
  | succ room ih => exact c.expression_of (c.add_of ih) (c.function_call_of ih) fun _ => rfl

theorem expression :
    c.RelatesRules (Grammar.expression tokens ctx) (Grammar.expression tokens ctx) :=
  c.expression_within ctx.room

theorem add : c.RelatesRules (Grammar.add tokens ctx) (Grammar.add tokens ctx) := by
  simp only [Grammar.add]
  split
  · exact c.never
  · exact c.add_of c.expression

theorem function_call :
    c.RelatesRules (Grammar.functionCall tokens ctx) (Grammar.functionCall tokens ctx) := by
  simp only [Grammar.functionCall]
  split
  · exact c.never
  · exact c.function_call_of c.expression

theorem equality : c.RelatesRules (Grammar.equality tokens ctx) (Grammar.equality tokens ctx) :=
  c.rule <| c.steps_bind (c.take c.expression) fun _ => c.steps_bind (c.take c.copula) fun _ =>
    c.steps_bind (c.take c.expression) fun _ => c.steps_pure _

theorem assignment :
    c.RelatesRules (Grammar.assignment tokens ctx) (Grammar.assignment tokens ctx) :=
  c.rule <| c.steps_bind (c.take c.identifier) fun _ => c.steps_bind (c.take c.verb) fun _ =>
    c.steps_bind (c.take c.constant_value) fun _ => c.steps_bind (c.expect _) fun _ =>
      c.steps_pure _

theorem reverse_assignment :
    c.RelatesRules (Grammar.reverseAssignment tokens ctx)
      (Grammar.reverseAssignment tokens ctx) :=
  c.rule <| c.steps_bind (c.take c.expression) fun _ => c.steps_bind (c.take c.verb) fun _ =>
    c.steps_bind (c.take c.identifier) fun _ => c.steps_bind (c.expect _) fun _ => c.steps_pure _

theorem increment :
    c.RelatesRules (Grammar.increment tokens ctx) (Grammar.increment tokens ctx) :=
  c.rule <| c.steps_bind (c.take c.identifier) fun _ => c.steps_bind (c.expect _) fun _ =>
    c.steps_bind (c.expect _) fun _ => c.steps_pure _

theorem goto : c.RelatesRules (Grammar.goto tokens ctx) (Grammar.goto tokens ctx) :=
  c.rule <| c.steps_bind (c.expect _) fun _ => c.steps_bind (c.take c.label) fun _ =>
    c.steps_bind (c.expect _) fun _ => c.steps_pure _

theorem expression_statement :
    c.RelatesRules (Grammar.expressionStatement tokens ctx)
      (Grammar.expressionStatement tokens ctx) :=
  c.rule <| c.steps_bind (c.take c.expression) fun _ => c.steps_bind (c.expect _) fun _ =>
    c.steps_pure _

theorem comment : c.RelatesRules (Grammar.comment tokens ctx) (Grammar.comment tokens ctx) :=
  c.rule <| c.steps_bind (c.expect _) fun _ => c.steps_bind (c.expect _) fun _ => c.steps_pure _

theorem invalid : c.RelatesRules (Grammar.invalid tokens ctx) (Grammar.invalid tokens ctx) :=
  c.rule <| c.steps_bind (c.expect _) fun _ => c.steps_pure _

theorem simple_forms :
    List.Forall₂ c.RelatesRules (Grammar.simpleForms tokens ctx) (Grammar.simpleForms tokens ctx) :=
  .cons c.assignment <| .cons c.increment <| .cons c.goto <| .cons c.expression_statement <|
    .cons c.comment <| .cons c.invalid .nil

theorem map_forms {forms : List (Rule m α)} {forms' : List (Rule n α)}
    (h : List.Forall₂ c.RelatesRules forms forms') (pos : Nat) :
    c.Related (forms.mapM fun form => form pos) (forms'.mapM fun form => form pos) := by
  have loop : ∀ done, c.Related (List.mapM.loop (fun form => form pos) forms done)
      (List.mapM.loop (fun form => form pos) forms' done) := by
    induction h with
    | nil => exact fun done => c.pure _
    | cons hform _ ih => exact fun done => c.bind (hform pos) fun outcome => ih (outcome :: done)
  exact loop []

theorem conditional_of {body : Rule m Block} {body' : Rule n Block}
    (h : c.RelatesRules body body') :
    c.RelatesRules (Grammar.conditionalOf tokens ctx body)
      (Grammar.conditionalOf tokens ctx body') :=
  c.rule <| c.steps_bind (c.expect _) fun _ => c.steps_bind (c.take c.equality) fun _ =>
    c.steps_bind (c.expect _) fun _ => c.steps_bind (c.take h) fun _ => c.steps_pure _

theorem statement_of {conditional : Rule m Statement} {conditional' : Rule n Statement}
    (h : c.RelatesRules conditional conditional')
    (hwork : ∀ pos, Grammar.statementOf strategy tokens ctx conditional' pos =
      Grammar.statement strategy tokens ctx pos) :
    c.RelatesRules (Grammar.statementOf strategy tokens ctx conditional)
      (Grammar.statementOf strategy tokens ctx conditional') := by
  intro pos
  refine c.remember ⟨.statement, ctx, pos⟩ ?_ (hwork pos)
  refine c.bind (c.map_forms c.simple_forms pos) fun simple => ?_
  dsimp only
  split
  · exact c.bind (h pos) fun _ => c.pure _
  · exact c.bind (c.pure none) fun _ => c.pure _

theorem block_end : c.RelatesRules (Grammar.blockEnd tokens ctx) (Grammar.blockEnd tokens ctx) :=
  fun pos => c.bind (c.as _ (c.token _) pos) fun _ => c.pure _

theorem block_step {statement : Rule m Statement} {statement' : Rule n Statement}
    (h : c.RelatesRules statement statement') :
    c.RelatesRules (Grammar.blockStep strategy tokens ctx statement)
      (Grammar.blockStep strategy tokens ctx statement') := by
  intro pos
  refine c.bind (c.block_end pos) fun stop => ?_
  dsimp only
  split
  · exact c.bind (h pos) fun _ => c.pure _
  · exact c.bind (c.pure none) fun _ => c.pure _

theorem further_statements {statement : Rule m Statement} {statement' : Rule n Statement}
    (h : c.RelatesRules statement statement') (bound : Nat) :
    c.RelatesSteps (Grammar.furtherStatements strategy tokens ctx statement bound)
      (Grammar.furtherStatements strategy tokens ctx statement' bound) := by
  induction bound with
  | zero => exact c.steps_fail
  | succ bound ih =>
    refine c.steps_bind (c.ahead (c.block_step h)) ?_
    rintro ⟨_ | first, start, next⟩
    · exact c.steps_pure []
    · exact c.steps_bind (c.move_to _) fun _ => c.steps_bind ih fun _ => c.steps_pure _

theorem block_of {statement : Rule m Statement} {statement' : Rule n Statement}
    (h : c.RelatesRules statement statement')
    (hwork : ∀ pos, Grammar.blockOf strategy tokens ctx statement' pos =
      Grammar.block strategy tokens ctx pos) :
    c.RelatesRules (Grammar.blockOf strategy tokens ctx statement)
      (Grammar.blockOf strategy tokens ctx statement') := by
  intro pos
  refine c.remember ⟨.block, ctx, pos⟩ ?_ (hwork pos)
  exact c.rule (c.steps_bind (c.take h) fun _ => c.steps_bind (c.further_statements h _) fun _ =>
    c.steps_pure _) pos

theorem statement_within (forbidden : Option Kind) (room : Nat) :
    c.RelatesRules (Grammar.statementWithin strategy tokens forbidden room)
      (Grammar.statementWithin strategy tokens forbidden room) := by
  induction room with
  | zero => exact c.statement_of c.never fun _ => rfl
  | succ room ih =>
    exact c.statement_of (c.conditional_of (c.block_of ih fun _ => rfl)) fun _ => rfl

theorem statement :
    c.RelatesRules (Grammar.statement strategy tokens ctx)
      (Grammar.statement strategy tokens ctx) :=
  c.statement_within ctx.forbidden ctx.room

theorem block :
    c.RelatesRules (Grammar.block strategy tokens ctx) (Grammar.block strategy tokens ctx) :=
  c.block_of c.statement fun _ => rfl

theorem conditional :
    c.RelatesRules (Grammar.conditional strategy tokens ctx)
      (Grammar.conditional strategy tokens ctx) := by
  simp only [Grammar.conditional]
  split
  · exact c.never
  · exact c.conditional_of c.block

theorem body_part :
    c.RelatesRules (Grammar.bodyPart strategy tokens ctx)
      (Grammar.bodyPart strategy tokens ctx) :=
  fun pos => c.bind (c.as _ c.block pos) fun _ => c.bind (c.as _ c.label pos) fun _ => c.pure _

theorem body_parts (bound : Nat) :
    c.RelatesSteps (Grammar.bodyParts strategy tokens ctx bound)
      (Grammar.bodyParts strategy tokens ctx bound) := by
  induction bound with
  | zero => exact c.steps_pure []
  | succ bound ih =>
    refine c.steps_bind (c.perhaps c.body_part) ?_
    rintro (_ | part)
    · exact c.steps_pure []
    · exact c.steps_bind ih fun _ => c.steps_pure _

theorem document :
    c.RelatesRules (Grammar.document strategy tokens ctx)
      (Grammar.document strategy tokens ctx) :=
  c.rule <| c.steps_bind (c.take c.item_number) fun _ =>
    c.steps_bind (c.take c.object_class) fun _ => c.steps_bind (c.expect _) fun _ =>
      c.steps_bind (c.body_parts _) fun _ => c.steps_pure _

/-- What every single step keeps, every production keeps. -/
theorem production (p : Production) :
    c.RelatesRules (p.rule strategy tokens ctx) (p.rule strategy tokens ctx) := by
  cases p with
  | token kind => exact c.token kind
  | endOfStream => exact fun _ => c.pure _
  | identifier => exact c.identifier
  | constantValue => exact c.constant_value
  | verb => exact c.verb
  | itemNumber => exact c.item_number
  | objectClass => exact c.object_class
  | label => exact c.label
  | square => exact c.square
  | add => exact c.add
  | constant => exact c.constant
  | functionCall => exact c.function_call
  | «variable» => exact c.bare_variable
  | expression => exact c.expression
  | copula => exact c.copula
  | equality => exact c.equality
  | assignment => exact c.assignment
  | reverseAssignment => exact c.reverse_assignment
  | increment => exact c.increment
  | goto => exact c.goto
  | expressionStatement => exact c.expression_statement
  | comment => exact c.comment
  | invalid => exact c.invalid
  | conditional => exact c.conditional
  | statement => exact c.statement
  | block => exact c.block
  | bodyPart => exact c.body_part
  | document => exact c.document

end Correspondence

end Dossier
