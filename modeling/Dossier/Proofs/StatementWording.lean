import Dossier.Proofs.EqualityWording
import Dossier.Proofs.StatementForms

namespace Dossier

open Grammar

variable {tokens : List Token} {ctx : Context} {pos index next start room : Nat}
  {slots rest : List Slot}

/-- The kinds of token that an expression is worded with. -/
def expressionKinds : List Kind :=
  [.identifier, .add, .constant, .openParen, .closeParen, .and, .the, .square, .of]

mutual

theorem expression_kinds (e : Expression) :
    ∀ slot ∈ e.wording .full, slot.kind ∈ expressionKinds := by
  cases e with
  | «variable» name => simp [Expression.wording, Slot.kind, Token.kind, expressionKinds]
  | add left right =>
    have hleft : (Slot.fixed (.identifier left)).kind ∈ expressionKinds := by
      simp [Slot.kind, Token.kind, expressionKinds]
    have hplus : (Slot.fixed .add).kind ∈ expressionKinds := by decide
    exact List.forall_mem_cons.mpr
      ⟨hleft, List.forall_mem_cons.mpr ⟨hplus, expression_kinds right⟩⟩
  | constant n => simp [Expression.wording, Slot.kind, Token.kind, expressionKinds]
  | call name args =>
    have hopening : (Slot.fixed .openParen).kind ∈ expressionKinds := by decide
    have hname : (Slot.fixed (.identifier name)).kind ∈ expressionKinds := by
      simp [Slot.kind, Token.kind, expressionKinds]
    refine List.forall_mem_cons.mpr ⟨hopening, List.forall_mem_cons.mpr ⟨hname, ?_⟩⟩
    cases args with
    | nil => simp [Expression.argumentsWording, Slot.kind, Token.kind, expressionKinds]
    | cons e es =>
      exact List.forall_mem_append.mpr ⟨expression_kinds e, furtherWording_kinds es⟩
  | square name =>
    simp [Expression.wording, Style.optional, Slot.kind, Token.kind, expressionKinds]

theorem furtherWording_kinds (es : List Expression) :
    ∀ slot ∈ Expression.furtherWording .full es, slot.kind ∈ expressionKinds := by
  cases es with
  | nil => simp [Expression.furtherWording, Slot.kind, Token.kind, expressionKinds]
  | cons e es =>
    have hand : (Slot.fixed .and).kind ∈ expressionKinds := by decide
    exact List.forall_mem_cons.mpr
      ⟨hand, List.forall_mem_append.mpr ⟨expression_kinds e, furtherWording_kinds es⟩⟩

end

theorem Reads.sentence_free {e : Expression} {kind : Kind}
    (h : Reads tokens pos (e.wording .full ++ .fixed .period :: rest))
    (hkind : kind ∉ .period :: expressionKinds) :
    Free tokens kind pos (pos + (e.wording .full).length + 1) := by
  have hsplit : Reads tokens pos ((e.wording .full ++ [.fixed .period]) ++ rest) := by
    rwa [List.append_assoc]
  have hwords : ∀ slot ∈ e.wording .full ++ [.fixed .period], slot.kind ≠ kind := by
    intro slot hslot he
    subst he
    rcases List.mem_append.mp hslot with hslot | hslot
    · exact hkind (List.mem_cons_of_mem _ (expression_kinds e slot hslot))
    · cases List.mem_singleton.mp hslot
      exact hkind List.mem_cons_self
  have hfree := hsplit.free hwords
  rwa [List.length_append, ← Nat.add_assoc] at hfree

theorem run_assignment_of_reads {target : String} {n : Nat} (hclear : Clear tokens pos index)
    (hreads : Reads tokens index
      ((Statement.assignment target (.constant n)).wording .full ++ rest)) :
    Id.run (statement .exhaustive tokens ⟨none, room⟩ pos) =
      some ⟨.assignment target (.constant n), index, index + 4⟩ := by
  have hfree : Free tokens .period index (index + 3) := by
    have hsplit : Reads tokens index ([.fixed (.identifier target), .anyVerb,
        .fixed (.constant n)] ++ .fixed .period :: rest) := hreads
    exact hsplit.free (by simp [Slot.kind, Token.kind])
  obtain ⟨htarget, hreads⟩ := hreads.fixed
  obtain ⟨t, ht, haccept, hreads⟩ := hreads.cons
  obtain ⟨hvalue, hreads⟩ := hreads.fixed
  obtain ⟨hperiod, _⟩ := hreads.fixed
  refine statement_of_assignment hclear htarget ((hclear.free (by decide)).append hfree) ?_
  have hperiod : Id.run (token tokens ⟨none, room⟩ .period (index + 1 + 1 + 1)) =
      some ⟨.period, index + 1 + 1 + 1, index + 1 + 1 + 1 + 1⟩ := run_token_here hperiod rfl
  have hvalue : Id.run (constantValue tokens ⟨none, room⟩ (index + 1 + 1)) =
      some ⟨n, index + 1 + 1, index + 1 + 1 + 1⟩ := constantValue_at .here hvalue (by simp)
  have hverb : ∃ v, Id.run (verb tokens ⟨none, room⟩ (index + 1)) =
      some ⟨v, index + 1, index + 1 + 1⟩ := by
    cases t with
    | verb v => exact ⟨v, run_verb.mpr (run_token_here ht rfl)⟩
    | _ => cases haccept
  obtain ⟨v, hverb⟩ := hverb
  rw [run_assignment, identifier_at hclear htarget (by simp)]
  simp [hverb, hvalue, hperiod]

theorem run_increment_of_reads {target : String} (hclear : Clear tokens pos index)
    (hreads : Reads tokens index ((Statement.increment target).wording .full ++ rest)) :
    Id.run (statement .exhaustive tokens ⟨none, room⟩ pos) =
      some ⟨.increment target, index, index + 3⟩ := by
  have hperiodFree : Free tokens .period index (index + 2) := by
    have hsplit : Reads tokens index ([.fixed (.identifier target), .fixed .increment] ++
        .fixed .period :: rest) := hreads
    exact hsplit.free (by simp [Slot.kind, Token.kind])
  have hverbFree : Free tokens .verb index (index + 3) :=
    hreads.free (by simp [Statement.wording, Slot.kind, Token.kind])
  obtain ⟨htarget, hreads⟩ := hreads.fixed
  obtain ⟨hphrase, hreads⟩ := hreads.fixed
  obtain ⟨hperiod, _⟩ := hreads.fixed
  refine statement_of_increment hclear htarget ((hclear.free (by decide)).append hperiodFree)
    ((hclear.free (by decide)).append hverbFree) ?_
  have hphrase : Id.run (token tokens ⟨none, room⟩ .increment (index + 1)) =
      some ⟨.increment, index + 1, index + 1 + 1⟩ := run_token_here hphrase rfl
  have hperiod : Id.run (token tokens ⟨none, room⟩ .period (index + 1 + 1)) =
      some ⟨.period, index + 1 + 1, index + 1 + 1 + 1⟩ := run_token_here hperiod rfl
  rw [run_increment, identifier_at hclear htarget (by simp)]
  simp [hphrase, hperiod]

theorem run_label_of_reads {label : Label} (hclear : Clear tokens pos index)
    (ht : tokens[index]? = some label.token) (hctx : ctx.forbidden ≠ some .rule) :
    Id.run (Grammar.label tokens ctx pos) = some ⟨label, index, index + 1⟩ := by
  rw [run_label]
  cases label with
  | addendum number letter =>
    have hk : (Label.addendum number letter).token.kind = .addendum := rfl
    have hfound : Id.run (token tokens ctx .addendum pos) =
        some ⟨.addendum number letter, index, index + 1⟩ :=
      hclear.run_token ht hk (by decide) hctx
    rw [hfound]
    refine Candidate.chooseNearest_of_alone [] false [_] ?_
    simp only [List.nil_append, List.mem_singleton, forall_eq]
    intro q hq
    exact ((token_spans .description).opens.as fun _ => Label.description).later hclear ht
      (by decide) (by rw [hk]; decide) hq
  | description =>
    have hfound : Id.run (token tokens ctx .description pos) =
        some ⟨.description, index, index + 1⟩ := hclear.run_token ht rfl (by decide) hctx
    rw [hfound]
    refine Candidate.chooseNearest_of_alone [_] false [] ?_
    simp only [List.append_nil, List.mem_singleton, forall_eq]
    intro q hq
    obtain ⟨found, haddendum, hread⟩ := Option.bind_eq_some_iff.mp hq
    obtain ⟨value, _, rfl⟩ := Option.map_eq_some_iff.mp hread
    exact (token_spans .addendum).opens.later hclear ht (by decide) (by decide) haddendum

theorem run_goto_of_reads {label : Label} (hclear : Clear tokens pos index)
    (hreads : Reads tokens index ((Statement.goto label).wording .full ++ rest)) :
    Id.run (statement .exhaustive tokens ⟨none, room⟩ pos) =
      some ⟨.goto label, index, index + 3⟩ := by
  obtain ⟨hsee, hreads⟩ := hreads.fixed
  obtain ⟨hlabel, hreads⟩ := hreads.fixed
  obtain ⟨hperiod, _⟩ := hreads.fixed
  refine statement_of_goto hclear hsee ?_
  have hsee : Id.run (token tokens ⟨none, room⟩ .see pos) = some ⟨.see, index, index + 1⟩ :=
    hclear.run_token hsee rfl (by decide) (by simp)
  have hlabel : Id.run (Grammar.label tokens ⟨none, room⟩ (index + 1)) =
      some ⟨label, index + 1, index + 1 + 1⟩ := run_label_of_reads .here hlabel (by simp)
  have hperiod : Id.run (token tokens ⟨none, room⟩ .period (index + 1 + 1)) =
      some ⟨.period, index + 1 + 1, index + 1 + 1 + 1⟩ := run_token_here hperiod rfl
  rw [run_goto, hsee]
  simp [hlabel, hperiod]

theorem run_comment_of_reads (hclear : Clear tokens pos index)
    (hreads : Reads tokens index (Statement.comment.wording .full ++ rest)) :
    Id.run (statement .exhaustive tokens ⟨none, room⟩ pos) =
      some ⟨.comment, index, index + 2⟩ := by
  obtain ⟨hopening, hreads⟩ := hreads.fixed
  obtain ⟨hclosing, _⟩ := hreads.fixed
  refine statement_of_comment hclear hopening ?_
  have hopening : Id.run (token tokens ⟨none, room⟩ .commentStart pos) =
      some ⟨.commentStart, index, index + 1⟩ := hclear.run_token hopening rfl (by decide) (by simp)
  have hclosing : Id.run (token tokens ⟨none, room⟩ .commentEnd (index + 1)) =
      some ⟨.commentEnd, index + 1, index + 1 + 1⟩ := run_token_here hclosing rfl
  rw [run_comment, hopening]
  simp [hclosing]

theorem run_invalid_of_reads (hclear : Clear tokens pos index)
    (hreads : Reads tokens index (Statement.invalid.wording .full ++ rest)) :
    Id.run (statement .exhaustive tokens ⟨none, room⟩ pos) =
      some ⟨.invalid, index, index + 1⟩ := by
  obtain ⟨hperiod, _⟩ := hreads.fixed
  refine statement_of_invalid hclear hperiod ?_
  have hperiod : Id.run (token tokens ⟨none, room⟩ .period pos) =
      some ⟨.period, index, index + 1⟩ := hclear.run_token hperiod rfl (by decide) (by simp)
  rw [run_invalid, hperiod]
  rfl

/-- Neither a verb nor the phrase of an increment stands in the sentence, so whatever starts with
them ends behind it. -/
theorem statement_of_sentence {e : Expression} (hclear : Clear tokens pos index)
    (hreads : Reads tokens index (e.wording .full ++ .fixed .period :: rest))
    (hexpr : Id.run (expression tokens ⟨none, room⟩ pos) =
      some ⟨e, index, index + (e.wording .full).length⟩) :
    Id.run (statement .exhaustive tokens ⟨none, room⟩ pos) =
      some ⟨.expression e, index, index + (e.wording .full).length + 1⟩ := by
  have hverb : Free tokens .verb pos (index + (e.wording .full).length + 1) :=
    (hclear.free (by decide)).append (hreads.sentence_free (by decide))
  have hincrement : Free tokens .increment pos (index + (e.wording .full).length + 1) :=
    (hclear.free (by decide)).append (hreads.sentence_free (by decide))
  obtain ⟨hperiod, _⟩ := hreads.append.fixed
  have hperiod : Id.run (token tokens ⟨none, room⟩ .period (index + (e.wording .full).length)) =
      some ⟨.period, index + (e.wording .full).length, index + (e.wording .full).length + 1⟩ :=
    run_token_here hperiod rfl
  refine statement_of_expression hclear hverb hincrement ?_
  rw [run_expressionStatement, hexpr]
  simp [hperiod]

theorem endOfStream_eq_none {t : Token} (ht : tokens[pos]? = some t) :
    endOfStream tokens pos = none := by
  have hlt := (List.getElem?_eq_some_iff.mp ht).1
  rw [endOfStream, if_neg (by omega)]

theorem blockEnd_later {t : Token} {q : Parsed Unit} (ht : tokens[pos]? = some t)
    (hk : t.kind ≠ .rule) (h : Id.run (blockEnd tokens ctx pos) = some q) : pos < q.start := by
  rw [run_blockEnd, endOfStream_eq_none ht] at h
  obtain ⟨c, hc, hq⟩ := Candidate.mem_of_chooseNearest h
  simp only [List.mem_cons, List.not_mem_nil, or_false] at hc
  rcases hc with rfl | rfl
  · simp only [Outcome.as_eq_some_iff] at hq
    obtain ⟨found, hfound, rfl⟩ := hq
    obtain ⟨hfinds, _⟩ := run_token_eq_some_iff.mp hfound
    apply Nat.lt_of_le_of_ne hfinds.le
    intro he
    have hget := hfinds.at_index
    rw [← he, ht] at hget
    cases hget
    exact hk hfinds.kind_eq
  · cases hq

theorem blockEnd_at_rule (ht : tokens[pos]? = some .rule) :
    Id.run (blockEnd tokens ctx pos) = some ⟨(), pos, pos + 1⟩ := by
  have hrule : Id.run (token tokens ctx .rule pos) = some ⟨.rule, pos, pos + 1⟩ :=
    run_token_here ht rfl
  rw [run_blockEnd, endOfStream_eq_none ht, hrule]
  rfl

/-- Where a statement starts, it is the next step of its block. -/
theorem blockStep_of_statement {statement : Rule Id Statement} {s : Statement} {t : Token}
    (ht : tokens[pos]? = some t) (hk : t.kind ≠ .rule)
    (hs : Id.run (statement pos) = some ⟨s, pos, next⟩) :
    Id.run (blockStep .exhaustive tokens ctx statement pos) = some ⟨some s, pos, next⟩ := by
  rw [run_blockStep]
  have hnext : (if Strategy.exhaustive.tries (peek tokens statementStart pos)
      ((Id.run (blockEnd tokens ctx pos)).map Parsed.start) then Id.run (statement pos)
      else none) = some ⟨s, pos, next⟩ := hs
  dsimp only
  rw [hnext]
  refine Candidate.chooseNearest_of_alone [] false [_] ?_
  simp only [List.nil_append, List.mem_singleton, forall_eq, Outcome.as_eq_some_iff]
  rintro q ⟨stop, hstop, rfl⟩
  exact blockEnd_later ht hk hstop

/-- At a rule a block is at its end. -/
theorem blockStep_at_rule {statement : Rule Id Statement}
    (hopens : statement.OpensWith tokens statementStart) (ht : tokens[pos]? = some .rule) :
    Id.run (blockStep .exhaustive tokens ctx statement pos) = some ⟨none, pos, pos + 1⟩ := by
  rw [run_blockStep, blockEnd_at_rule ht]
  refine Candidate.chooseNearest_of_alone [_] false [] ?_
  simp only [List.append_nil, List.mem_singleton, forall_eq]
  intro q hq
  obtain ⟨found, hfound, rfl⟩ := Outcome.as_eq_some_iff.mp hq
  exact hopens.later .here ht (by decide) (by decide) hfound

theorem length_le_blockWording (style : Style) (block : Block) :
    block.length ≤ (Statement.blockWording style block).length := by
  induction block with
  | nil => exact Nat.le_refl 0
  | cons s ss ih =>
    have hpos : 0 < (s.wording style).length := by
      cases s with
      | conditional condition body =>
        obtain ⟨left, right⟩ := condition
        simp [Statement.wording]
      | _ => simp [Statement.wording]
    simp only [Statement.blockWording, List.length_cons, List.length_append]
    omega

theorem run_blockOf_some {statement : Rule Id Statement} {first : Parsed Statement}
    {others : List Statement} (hfirst : Id.run (statement pos) = some first)
    (hothers : Id.run (furtherStatements .exhaustive tokens ctx statement tokens.length
      ⟨some first.start, first.next⟩) = some (others, ⟨some first.start, next⟩)) :
    Id.run (blockOf .exhaustive tokens ctx statement pos) =
      some ⟨first.value :: others, first.start, next⟩ := by
  rw [run_blockOf]
  simp [hfirst, hothers]

theorem run_conditionalOf_some {body : Rule Id Block} {opening comma : Parsed Token}
    {condition : Parsed Equality} {block : Parsed Block}
    (hopening : Id.run (token tokens ctx .ifWord pos) = some opening)
    (hcondition : Id.run (equality tokens ctx opening.next) = some condition)
    (hcomma : Id.run (token tokens ctx .comma condition.next) = some comma)
    (hbody : Id.run (body comma.next) = some block) :
    Id.run (conditionalOf tokens ctx body pos) =
      some ⟨.conditional condition.value block.value, opening.start, block.next⟩ := by
  rw [run_conditionalOf]
  simp [hopening, hcondition, hcomma, hbody]

/-- Behind a conditional that comes last in its block stands the rule. -/
theorem rule_behind_conditional {s : Statement} {ss : List Statement}
    (hlast : (ss.isEmpty || !s.isConditional) = true) (hs : s.isConditional = true) :
    ∃ others, Statement.blockWording .full ss ++ .fixed .rule :: rest =
      .fixed .rule :: others := by
  have hempty : ss = [] := by simpa [hs] using hlast
  subst hempty
  exact ⟨rest, rfl⟩

theorem length_lt_of_reads {block : Block}
    (hreads : Reads tokens pos (Statement.blockWording .full block ++ .fixed .rule :: rest)) :
    block.length < tokens.length := by
  have hsplit : Reads tokens pos
      ((Statement.blockWording .full block ++ [.fixed .rule]) ++ rest) := by
    rwa [List.append_assoc]
  have hlen := hsplit.length_le
  have hwords := length_le_blockWording .full block
  simp only [List.length_append, List.length_singleton] at hlen
  omega

theorem Statement.wording_conditional (style : Style) (condition : Equality) (body : Block) :
    (Statement.conditional condition body).wording style =
      .fixed .ifWord :: (condition.wording style ++ .fixed .comma ::
        Statement.blockWording style body) := by
  obtain ⟨left, right⟩ := condition
  simp [Statement.wording, Equality.wording]

theorem Reads.conditional {condition : Equality} {body : Block}
    (h : Reads tokens pos ((Statement.conditional condition body).wording .full ++ rest)) :
    tokens[pos]? = some .ifWord ∧
      Reads tokens (pos + 1) (condition.wording .full ++
        .fixed .comma :: (Statement.blockWording .full body ++ rest)) := by
  rw [Statement.wording_conditional] at h
  obtain ⟨hif, hrest⟩ := h.fixed
  exact ⟨hif, hrest.assoc⟩

/-- A statement of the shape that reports have, with room for its nesting. -/
structure Statement.Regular (room : Nat) (s : Statement) : Prop where
  wellFormed : s.wellFormed = true
  conditionalsLast : s.conditionalsLast = true
  nesting : s.nesting ≤ room

/-- Statements of that shape, only the last of which may be a conditional. -/
structure Block.Regular (room : Nat) (block : Block) : Prop where
  wellFormed : Statement.blockWellFormed block = true
  conditionalsLast : Statement.blockConditionalsLast block = true
  nesting : Statement.blockNesting block ≤ room

theorem Block.Regular.cons {s : Statement} {ss : List Statement}
    (h : Block.Regular room (s :: ss)) :
    Statement.Regular room s ∧ (ss.isEmpty || !s.isConditional) = true ∧
      Block.Regular room ss := by
  obtain ⟨hwf, hlast, hnesting⟩ := h
  simp only [Statement.blockWellFormed, Bool.and_eq_true] at hwf
  simp only [Statement.blockConditionalsLast, Bool.and_eq_true] at hlast
  simp only [Statement.blockNesting] at hnesting
  exact ⟨⟨hwf.1, hlast.1.2, by omega⟩, hlast.1.1, hwf.2, hlast.2, by omega⟩

theorem Statement.Regular.parts {condition : Equality} {body : Block}
    (h : Statement.Regular room (.conditional condition body)) :
    ∃ inner, room = inner + 1 ∧ Equality.Regular inner condition ∧ (!body.isEmpty) = true ∧
      Block.Regular inner body := by
  obtain ⟨left, right⟩ := condition
  obtain ⟨hwf, hlast, hnesting⟩ := h
  simp only [Statement.wellFormed, Bool.and_eq_true] at hwf
  simp only [Statement.conditionalsLast] at hlast
  simp only [Statement.nesting] at hnesting
  obtain ⟨⟨⟨hleft, hright⟩, hsome⟩, hbody⟩ := hwf
  obtain ⟨inner, rfl⟩ : ∃ inner, room = inner + 1 := Nat.exists_eq_add_one.mpr (by omega)
  have hleftShape : Expression.Regular inner left := ⟨hleft, by omega⟩
  have hrightShape : Expression.Regular inner right := ⟨hright, by omega⟩
  exact ⟨inner, rfl, ⟨hleftShape, hrightShape⟩, hsome, hbody, hlast, by omega⟩

theorem Statement.legible_conditional (condition : Equality) (body : Block) :
    (Statement.conditional condition body).legible (room + 1) rest =
      (condition.legible room (.fixed .comma :: (Statement.blockWording .full body ++ rest)) &&
        Statement.blockLegible room rest body) := by
  obtain ⟨left, right⟩ := condition
  rfl

mutual

/-- A statement comes back from its own words if no variable in it is taken for a part of a sum.
Only a conditional needs a rule behind it, where its body ends. -/
theorem run_statement_of_reads (s : Statement) {room pos index : Nat} {rest : List Slot}
    (hregular : Statement.Regular room s) (hlegible : s.legible room rest = true)
    (hend : s.isConditional = true → ∃ others, rest = .fixed .rule :: others)
    (hclear : Clear tokens pos index) (hreads : Reads tokens index (s.wording .full ++ rest)) :
    Id.run (statement .exhaustive tokens ⟨none, room⟩ pos) =
      some ⟨s, index, index + (s.wording .full).length⟩ := by
  cases s with
  | assignment target value =>
    cases value with
    | constant n => exact run_assignment_of_reads hclear hreads
    | _ => cases hregular.wellFormed
  | increment target => exact run_increment_of_reads hclear hreads
  | goto label => exact run_goto_of_reads hclear hreads
  | conditional condition body =>
    obtain ⟨rest, rfl⟩ := hend rfl
    obtain ⟨inner, rfl, hshape, hsome, hbodyShape⟩ := hregular.parts
    rw [Statement.legible_conditional, Bool.and_eq_true] at hlegible
    obtain ⟨hlegible, hbodyLegible⟩ := hlegible
    obtain ⟨hif, hreads⟩ := hreads.conditional
    have hcondition : Id.run (equality tokens ⟨none, inner⟩ (index + 1)) =
        some ⟨condition, index + 1, index + 1 + (condition.wording .full).length⟩ :=
      run_equality_of_reads hshape hlegible .here hreads
    obtain ⟨hcomma, hreads⟩ := hreads.append.fixed
    have hbody := run_block_of_reads body hsome hbodyShape hbodyLegible .here hreads
    refine statement_of_conditional hclear hif ?_
    refine (run_conditionalOf_some (hclear.run_token hif rfl (by decide) (by simp)) hcondition
      (run_token_here hcomma rfl) hbody).trans ?_
    simp only [Statement.wording_conditional, List.length_cons, List.length_append,
      Option.some.injEq, Parsed.mk.injEq, true_and]
    omega
  | expression e =>
    have hshape : Expression.Regular room e := ⟨hregular.wellFormed, hregular.nesting⟩
    have hsentence : Reads tokens index (e.wording .full ++ .fixed .period :: rest) := by
      simpa [Statement.wording] using hreads
    have hexpr : Id.run (expression tokens ⟨none, room⟩ pos) =
        some ⟨e, index, index + (e.wording .full).length⟩ :=
      run_expression_of_reads e hshape hlegible hclear hsentence
    rw [statement_of_sentence hclear hsentence hexpr]
    simp [Statement.wording, Nat.add_assoc]
  | comment => exact run_comment_of_reads hclear hreads
  | invalid => exact run_invalid_of_reads hclear hreads

/-- A block comes back up to the rule behind it. -/
theorem run_block_of_reads (block : Block) {room pos index : Nat} {rest : List Slot}
    (hsome : (!block.isEmpty) = true) (hregular : Block.Regular room block)
    (hlegible : Statement.blockLegible room (.fixed .rule :: rest) block = true)
    (hclear : Clear tokens pos index)
    (hreads : Reads tokens index (Statement.blockWording .full block ++ .fixed .rule :: rest)) :
    Id.run (Grammar.block .exhaustive tokens ⟨none, room⟩ pos) =
      some ⟨block, index, index + (Statement.blockWording .full block).length⟩ := by
  cases block with
  | nil => cases hsome
  | cons first others =>
    obtain ⟨hfirst, hlast, hothers⟩ := hregular.cons
    simp only [Statement.blockLegible, Bool.and_eq_true] at hlegible
    have hreads : Reads tokens index (first.wording .full ++
        (Statement.blockWording .full others ++ .fixed .rule :: rest)) := hreads.assoc
    have hrun := run_statement_of_reads first hfirst hlegible.1 (rule_behind_conditional hlast)
      hclear hreads
    have hrest := run_furtherStatements_of_reads others index hothers hlegible.2
      (length_lt_of_reads hreads.append) hreads.append
    refine (run_blockOf_some hrun hrest).trans ?_
    simp only [Statement.blockWording, List.length_append, Option.some.injEq, Parsed.mk.injEq,
      true_and]
    omega

/-- So do the statements of a block behind the first one. -/
theorem run_furtherStatements_of_reads (ss : List Statement) (start : Nat) {room bound pos : Nat}
    {rest : List Slot} (hregular : Block.Regular room ss)
    (hlegible : Statement.blockLegible room (.fixed .rule :: rest) ss = true)
    (hbound : ss.length < bound)
    (hreads : Reads tokens pos (Statement.blockWording .full ss ++ .fixed .rule :: rest)) :
    Id.run (furtherStatements .exhaustive tokens ⟨none, room⟩
        (statement .exhaustive tokens ⟨none, room⟩) bound ⟨some start, pos⟩) =
      some (ss, ⟨some start, pos + (Statement.blockWording .full ss).length⟩) := by
  obtain ⟨bound, rfl⟩ : ∃ fewer, bound = fewer + 1 := Nat.exists_eq_add_one.mpr (by omega)
  cases ss with
  | nil =>
    obtain ⟨ht, _⟩ := hreads.fixed
    rw [run_furtherStatements, blockStep_at_rule statement_spans.opens ht]
    rfl
  | cons s ss =>
    obtain ⟨hfirst, hlast, hothers⟩ := hregular.cons
    simp only [Statement.blockLegible, Bool.and_eq_true] at hlegible
    have hreads : Reads tokens pos (s.wording .full ++ (Statement.blockWording .full ss ++
        .fixed .rule :: rest)) := hreads.assoc
    have hs := run_statement_of_reads s hfirst hlegible.1 (rule_behind_conditional hlast) .here
      hreads
    have hss := run_furtherStatements_of_reads ss start hothers hlegible.2
      (Nat.lt_of_succ_lt_succ hbound) hreads.append
    obtain ⟨_, t, ht, hmem⟩ := statement_spans.opens pos _ hs
    have hk : t.kind ≠ .rule := by
      intro he
      rw [he] at hmem
      exact absurd hmem (by decide)
    rw [run_furtherStatements, blockStep_of_statement ht hk hs]
    simp only [Option.bind_eq_bind, Option.bind_some, hss, Statement.blockWording,
      List.length_append, Option.pure_def, Option.some.injEq, Prod.mk.injEq, Sequence.mk.injEq,
      true_and]
    omega

end

mutual

/-- A statement that comes back from its own words had no variable taken for a part of a sum. -/
theorem legible_of_run_statement (hsums : SumsComplete tokens) (s : Statement)
    {room pos index : Nat} {rest : List Slot} {p : Parsed Statement}
    (hregular : Statement.Regular room s)
    (hend : s.isConditional = true → ∃ others, rest = .fixed .rule :: others)
    (hclear : Clear tokens pos index) (hreads : Reads tokens index (s.wording .full ++ rest))
    (h : Id.run (statement .exhaustive tokens ⟨none, room⟩ pos) = some p) (hvalue : p.value = s) :
    s.legible room rest = true := by
  cases s with
  | conditional condition body =>
    obtain ⟨rest, rfl⟩ := hend rfl
    obtain ⟨inner, rfl, hshape, _, hbodyShape⟩ := hregular.parts
    obtain ⟨hif, hreads⟩ := hreads.conditional
    have hcond : Id.run (conditionalOf tokens ⟨none, inner⟩
        (Grammar.block .exhaustive tokens ⟨none, inner⟩) pos) = some p :=
      conditional_of_statement h hvalue
    obtain ⟨left, link, right, comma, block, hparts, hother⟩ :=
      parts_of_conditionalOf (hclear.run_token hif rfl (by decide) (by simp)) hcond
    obtain ⟨rfl, hblock⟩ := Statement.conditional.inj (hvalue.symm.trans hother)
    have hlegible := legible_of_run_equality hsums hshape .here hreads hparts.equality rfl
    have hexact : Id.run (equality tokens ⟨none, inner⟩ (index + 1)) = some ⟨_, index + 1, _⟩ :=
      run_equality_of_reads hshape hlegible .here hreads
    obtain ⟨_, _, hstop⟩ := Parsed.mk.inj (Option.some.inj (hparts.equality.symm.trans hexact))
    obtain ⟨hcomma, hreads'⟩ := hreads.append.fixed
    have hcommaFound := hparts.comma_found
    rw [hstop] at hcommaFound
    cases hcommaFound.symm.trans (run_token_here hcomma rfl)
    have hbodyLegible := blockLegible_of_run_block hsums body hbodyShape .here hreads'
      hparts.block_found hblock.symm
    rw [Statement.legible_conditional, hlegible, hbodyLegible]
    rfl
  | expression e =>
    have hshape : Expression.Regular room e := ⟨hregular.wellFormed, hregular.nesting⟩
    have hsentence : Reads tokens index (e.wording .full ++ .fixed .period :: rest) := by
      simpa [Statement.wording] using hreads
    obtain ⟨q, hq, hother⟩ :=
      expression_of_expressionStatement (expressionStatement_of_statement h hvalue)
    have he : e = q.value := Statement.expression.inj (hvalue.symm.trans hother)
    exact legible_of_run_expression hsums e hshape hclear hsentence hq he.symm
  | _ => rfl

theorem blockLegible_of_run_block (hsums : SumsComplete tokens) (block : Block)
    {room pos index : Nat} {rest : List Slot} {p : Parsed Block}
    (hregular : Block.Regular room block) (hclear : Clear tokens pos index)
    (hreads : Reads tokens index (Statement.blockWording .full block ++ .fixed .rule :: rest))
    (h : Id.run (Grammar.block .exhaustive tokens ⟨none, room⟩ pos) = some p)
    (hvalue : p.value = block) :
    Statement.blockLegible room (.fixed .rule :: rest) block = true := by
  cases block with
  | nil => rfl
  | cons first others =>
    obtain ⟨hshape, hlast, hrest⟩ := hregular.cons
    have hreads : Reads tokens index (first.wording .full ++
        (Statement.blockWording .full others ++ .fixed .rule :: rest)) := hreads.assoc
    change Id.run (blockOf .exhaustive tokens ⟨none, room⟩ _ pos) = some p at h
    rw [run_blockOf] at h
    obtain ⟨found, hfound, h⟩ := Option.bind_eq_some_iff.mp h
    obtain ⟨⟨ss, seq⟩, hss, h⟩ := Option.bind_eq_some_iff.mp h
    cases h
    obtain ⟨hfirst, hothers⟩ : first = found.value ∧ others = ss := List.cons.inj hvalue.symm
    have hfirstLegible := legible_of_run_statement hsums first hshape
      (rule_behind_conditional hlast) hclear hreads hfound hfirst.symm
    have hexact := run_statement_of_reads first hshape hfirstLegible
      (rule_behind_conditional hlast) hclear hreads
    cases hfound.symm.trans hexact
    rw [← hothers] at hss
    have hothersLegible := blockLegible_of_run hsums others hrest hreads.append hss
    simp [Statement.blockLegible, hfirstLegible, hothersLegible]

theorem blockLegible_of_run (hsums : SumsComplete tokens) (ss : List Statement)
    {room bound start pos : Nat} {rest : List Slot} {seq : Sequence}
    (hregular : Block.Regular room ss)
    (hreads : Reads tokens pos (Statement.blockWording .full ss ++ .fixed .rule :: rest))
    (h : Id.run (furtherStatements .exhaustive tokens ⟨none, room⟩
      (statement .exhaustive tokens ⟨none, room⟩) bound ⟨some start, pos⟩) = some (ss, seq)) :
    Statement.blockLegible room (.fixed .rule :: rest) ss = true := by
  cases ss with
  | nil => rfl
  | cons s ss =>
    cases bound with
    | zero => cases h
    | succ bound =>
      obtain ⟨hshape, hlast, hrest⟩ := hregular.cons
      have hreads : Reads tokens pos (s.wording .full ++ (Statement.blockWording .full ss ++
          .fixed .rule :: rest)) := hreads.assoc
      rw [run_furtherStatements] at h
      obtain ⟨⟨step, stepStart, stepNext⟩, hstep, h⟩ := Option.bind_eq_some_iff.mp h
      cases step with
      | none => cases h
      | some found =>
        obtain ⟨⟨others, seq'⟩, hothers, h⟩ := Option.bind_eq_some_iff.mp h
        obtain ⟨hlist, rfl⟩ := Prod.mk.inj (Option.some.inj h)
        obtain ⟨hs, hss⟩ : s = found ∧ ss = others := List.cons.inj hlist.symm
        have hfound := run_blockStep_some hstep rfl
        have hlegible := legible_of_run_statement hsums s hshape (rule_behind_conditional hlast)
          .here hreads hfound hs.symm
        have hexact := run_statement_of_reads s hshape hlegible (rule_behind_conditional hlast)
          .here hreads
        obtain ⟨-, -, rfl⟩ : found = s ∧ stepStart = pos ∧
            stepNext = pos + (s.wording .full).length := by simpa using hfound.symm.trans hexact
        rw [← hss] at hothers
        have hothersLegible := blockLegible_of_run hsums ss hrest hreads.append hothers
        simp [Statement.blockLegible, hlegible, hothersLegible]

end

end Dossier
