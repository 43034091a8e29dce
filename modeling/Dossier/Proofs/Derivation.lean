import Dossier.Proofs.Choice
import Dossier.Proofs.Plain

namespace Dossier

/-- What the rules with parts of their own can find: expressions, the arguments of a call after the
first, statements, and the statements of a block after the first. -/
inductive Finding where
  | expression (ctx : Context) (pos : Nat) (p : Parsed Expression)
  | arguments (ctx : Context) (pos : Nat) (args : List Expression) (next : Nat)
  | statement (ctx : Context) (pos : Nat) (p : Parsed Statement)
  | statements (ctx : Context) (pos : Nat) (block : Block) (next : Nat)

namespace Grammar

variable (tokens : List Token)

/-- Each rule of the grammar as a rule of inference, without the competition between forms. -/
inductive Derives : Finding → Prop where
  | square {ctx pos p} :
    Id.run (square tokens (ctx.forbid .period) pos) = some p → Derives (.expression ctx pos p)
  | constant {ctx pos p} :
    Id.run (constantValue tokens (ctx.forbid .period) pos) = some p →
    Derives (.expression ctx pos ⟨.constant p.value, p.start, p.next⟩)
  | bare {ctx pos p} :
    Id.run (identifier tokens (ctx.forbid .period) pos) = some p →
    Derives (.expression ctx pos ⟨.variable p.value, p.start, p.next⟩)
  | add {ctx inner pos left plus right} :
    (ctx.forbid .period).nested? = some inner →
    Id.run (identifier tokens inner pos) = some left →
    Id.run (token tokens inner .add left.next) = some plus →
    Derives (.expression inner plus.next right) →
    Derives (.expression ctx pos ⟨.add left.value right.value, left.start, right.next⟩)
  | call {ctx inner pos opening name first others next} :
    (ctx.forbid .period).nested? = some inner →
    Id.run (token tokens inner .openParen pos) = some opening →
    Id.run (identifier tokens inner opening.next) = some name →
    Derives (.expression inner name.next first) →
    Derives (.arguments inner first.next others next) →
    Derives (.expression ctx pos
      ⟨.call name.value (first.value :: others), opening.start, next⟩)
  | close {ctx pos closing} :
    Id.run (token tokens ctx .closeParen pos) = some closing →
    Derives (.arguments ctx pos [] closing.next)
  | argument {ctx pos link first others next} :
    Id.run (token tokens ctx .and pos) = some link →
    Derives (.expression ctx link.next first) →
    Derives (.arguments ctx first.next others next) →
    Derives (.arguments ctx pos (first.value :: others) next)
  | assignment {ctx pos p} :
    Id.run (assignment tokens ctx pos) = some p → Derives (.statement ctx pos p)
  | increment {ctx pos p} :
    Id.run (increment tokens ctx pos) = some p → Derives (.statement ctx pos p)
  | goto {ctx pos p} :
    Id.run (goto tokens ctx pos) = some p → Derives (.statement ctx pos p)
  | expression {ctx pos e stop} :
    Derives (.expression ctx pos e) →
    Id.run (token tokens ctx .period e.next) = some stop →
    Derives (.statement ctx pos ⟨.expression e.value, e.start, stop.next⟩)
  | comment {ctx pos p} :
    Id.run (comment tokens ctx pos) = some p → Derives (.statement ctx pos p)
  | invalid {ctx pos p} :
    Id.run (invalid tokens ctx pos) = some p → Derives (.statement ctx pos p)
  | conditional {ctx inner pos opening left link right comma first others next} :
    ctx.nested? = some inner →
    Id.run (token tokens inner .ifWord pos) = some opening →
    Derives (.expression inner opening.next left) →
    Id.run (copula tokens inner left.next) = some link →
    Derives (.expression inner link.next right) →
    Id.run (token tokens inner .comma right.next) = some comma →
    Derives (.statement inner comma.next first) →
    Derives (.statements inner first.next others next) →
    Derives (.statement ctx pos
      ⟨.conditional ⟨left.value, right.value⟩ (first.value :: others), opening.start, next⟩)
  | stop {ctx pos} : Derives (.statements ctx pos [] pos)
  | more {ctx pos first others next} :
    Derives (.statement ctx pos first) →
    Derives (.statements ctx first.next others next) →
    Derives (.statements ctx pos (first.value :: others) next)

variable {tokens} {strategy : Strategy} {ctx : Context} {pos : Nat}

theorem run_add {p : Parsed Expression} :
    Id.run (add tokens ctx pos) = some p ↔ ∃ inner, ctx.nested? = some inner ∧
      Id.run (addOf tokens inner (Grammar.expression tokens inner) pos) = some p := by
  simp only [add]
  cases ctx.nested? <;> simp [Rule.never]

theorem run_functionCall {p : Parsed Expression} :
    Id.run (functionCall tokens ctx pos) = some p ↔ ∃ inner, ctx.nested? = some inner ∧
      Id.run (functionCallOf tokens inner (Grammar.expression tokens inner) pos) = some p := by
  simp only [functionCall]
  cases ctx.nested? <;> simp [Rule.never]

theorem run_separator {p : Parsed Separator}
    (h : Id.run (separator tokens ctx pos) = some p) :
    (∃ link, Id.run (token tokens ctx .and pos) = some link ∧
      p = ⟨.and, link.start, link.next⟩) ∨
    ∃ closing, Id.run (token tokens ctx .closeParen pos) = some closing ∧
      p = ⟨.close, closing.start, closing.next⟩ := by
  obtain ⟨c, hc, hp⟩ := Candidate.mem_of_chooseNearest h
  simp only [List.mem_cons, List.not_mem_nil, or_false] at hc
  rcases hc with rfl | rfl
  · exact .inl (Rule.run_as.mp hp)
  · exact .inr (Rule.run_as.mp hp)

theorem arguments_derive
    (hexpr : ∀ {pos p}, Id.run (Grammar.expression tokens ctx pos) = some p →
      Derives tokens (.expression ctx pos p)) (bound : Nat) :
    ∀ {start next : Nat} {args : List Expression} {seq : Sequence},
      Id.run (furtherArguments tokens ctx (Grammar.expression tokens ctx) bound
        ⟨some start, next⟩) = some (args, seq) →
      seq.start = some start ∧ Derives tokens (.arguments ctx next args seq.position) := by
  induction bound with
  | zero =>
    intro start next args seq h
    cases h
  | succ bound ih =>
    intro start next args seq h
    rw [run_furtherArguments] at h
    obtain ⟨sep, hsep, h⟩ := Option.bind_eq_some_iff.mp h
    rcases run_separator hsep with ⟨link, hlink, rfl⟩ | ⟨closing, hclose, rfl⟩
    · obtain ⟨first, hfirst, h⟩ := Option.bind_eq_some_iff.mp h
      obtain ⟨⟨others, seq'⟩, hothers, h⟩ := Option.bind_eq_some_iff.mp h
      cases h
      obtain ⟨hstart, hrest⟩ := ih hothers
      exact ⟨hstart, .argument hlink (hexpr hfirst) hrest⟩
    · cases h
      exact ⟨rfl, .close hclose⟩

theorem add_derives {inner : Context} {p : Parsed Expression}
    (hctx : (ctx.forbid .period).nested? = some inner)
    (hexpr : ∀ {pos p}, Id.run (Grammar.expression tokens inner pos) = some p →
      Derives tokens (.expression inner pos p))
    (h : Id.run (addOf tokens inner (Grammar.expression tokens inner) pos) = some p) :
    Derives tokens (.expression ctx pos p) := by
  rw [run_addOf] at h
  obtain ⟨left, hleft, h⟩ := Option.bind_eq_some_iff.mp h
  obtain ⟨plus, hplus, h⟩ := Option.bind_eq_some_iff.mp h
  obtain ⟨right, hright, h⟩ := Option.bind_eq_some_iff.mp h
  cases h
  exact .add hctx hleft hplus (hexpr hright)

theorem call_derives {inner : Context} {p : Parsed Expression}
    (hctx : (ctx.forbid .period).nested? = some inner)
    (hexpr : ∀ {pos p}, Id.run (Grammar.expression tokens inner pos) = some p →
      Derives tokens (.expression inner pos p))
    (h : Id.run (functionCallOf tokens inner (Grammar.expression tokens inner) pos) = some p) :
    Derives tokens (.expression ctx pos p) := by
  rw [run_functionCallOf] at h
  obtain ⟨opening, hopening, h⟩ := Option.bind_eq_some_iff.mp h
  obtain ⟨name, hname, h⟩ := Option.bind_eq_some_iff.mp h
  obtain ⟨first, hfirst, h⟩ := Option.bind_eq_some_iff.mp h
  obtain ⟨⟨others, seq⟩, hothers, h⟩ := Option.bind_eq_some_iff.mp h
  obtain ⟨hstart, hrest⟩ := arguments_derive hexpr _ hothers
  cases h
  simp only [Sequence.finish, hstart, Option.getD_some]
  exact .call hctx hopening hname (hexpr hfirst) hrest

theorem nested_room {inner : Context} (h : ctx.nested? = some inner) :
    ctx.room = inner.room + 1 := by
  obtain ⟨forbidden, _ | room⟩ := ctx
  · cases h
  · cases h
    rfl

/-- Whatever is found where an expression is looked for has a derivation. -/
theorem expression_derives {p : Parsed Expression}
    (h : Id.run (Grammar.expression tokens ctx pos) = some p) :
    Derives tokens (.expression ctx pos p) := by
  induction hroom : ctx.room using Nat.strongRecOn generalizing ctx pos p with
  | _ room ih =>
    have hinner : ∀ {inner : Context}, (ctx.forbid .period).nested? = some inner →
        ∀ {pos p}, Id.run (Grammar.expression tokens inner pos) = some p →
          Derives tokens (.expression inner pos p) := by
      intro inner hctx pos p hp
      have hlt : inner.room + 1 = ctx.room := (nested_room hctx).symm
      exact ih inner.room (by omega) hp rfl
    rw [run_expression] at h
    obtain ⟨c, hc, hp⟩ := Candidate.mem_of_chooseNearest h
    simp only [List.mem_cons, List.not_mem_nil, or_false] at hc
    rcases hc with rfl | rfl | rfl | rfl | rfl
    · exact .square hp
    · obtain ⟨inner, hctx, hadd⟩ := run_add.mp hp
      exact add_derives hctx (hinner hctx) hadd
    · obtain ⟨q, hq, rfl⟩ := Rule.run_as.mp hp
      exact .constant hq
    · obtain ⟨inner, hctx, hcall⟩ := run_functionCall.mp hp
      exact call_derives hctx (hinner hctx) hcall
    · obtain ⟨q, hq, rfl⟩ := Rule.run_as.mp hp
      exact .bare hq

theorem run_conditional {p : Parsed Statement} :
    Id.run (conditional strategy tokens ctx pos) = some p ↔ ∃ inner, ctx.nested? = some inner ∧
      Id.run (conditionalOf tokens inner (block strategy tokens inner) pos) = some p := by
  simp only [conditional]
  cases ctx.nested? <;> simp [Rule.never]

theorem expression_statement_derives {p : Parsed Statement}
    (h : Id.run (expressionStatement tokens ctx pos) = some p) :
    Derives tokens (.statement ctx pos p) := by
  rw [run_expressionStatement] at h
  obtain ⟨e, he, h⟩ := Option.bind_eq_some_iff.mp h
  obtain ⟨stop, hstop, h⟩ := Option.bind_eq_some_iff.mp h
  cases h
  exact .expression (expression_derives he) hstop

theorem simple_derives {p : Parsed Statement} (h : some p ∈ simpleOutcomes tokens ctx pos) :
    Derives tokens (.statement ctx pos p) := by
  simp only [simpleOutcomes, simpleForms, List.map_cons, List.map_nil, List.mem_cons,
    List.not_mem_nil, or_false] at h
  rcases h with h | h | h | h | h | h
  · exact .assignment h.symm
  · exact .increment h.symm
  · exact .goto h.symm
  · exact expression_statement_derives h.symm
  · exact .comment h.symm
  · exact .invalid h.symm

/-- A step that does not end the block takes what the statement rule finds. -/
theorem run_blockStep_some {statement : Rule Id Statement} {step : Parsed (Option Statement)}
    {s : Statement}
    (h : Id.run (blockStep strategy tokens ctx statement pos) = some step)
    (hs : step.value = some s) :
    Id.run (statement pos) = some ⟨s, step.start, step.next⟩ := by
  rw [run_blockStep] at h
  obtain ⟨c, hc, hp⟩ := Candidate.mem_of_chooseNearest h
  simp only [List.mem_cons, List.not_mem_nil, or_false] at hc
  rcases hc with rfl | rfl
  · obtain ⟨q, hq, rfl⟩ := Outcome.as_eq_some_iff.mp hp
    cases hs
    split at hq
    · exact hq
    · cases hq
  · simp only [Outcome.as_eq_some_iff] at hp
    obtain ⟨q, _, rfl⟩ := hp
    cases hs

theorem statements_derive {statement : Rule Id Statement}
    (hstmt : ∀ {pos p}, Id.run (statement pos) = some p →
      Derives tokens (.statement ctx pos p)) (bound : Nat) :
    ∀ {start next : Nat} {block : Block} {seq : Sequence},
      Id.run (furtherStatements strategy tokens ctx statement bound ⟨some start, next⟩) =
        some (block, seq) →
      seq.start = some start ∧
        Derives tokens (.statements ctx next block seq.position) := by
  induction bound with
  | zero =>
    intro start next block seq h
    cases h
  | succ bound ih =>
    intro start next block seq h
    rw [run_furtherStatements] at h
    obtain ⟨⟨_ | s, at_, next'⟩, hstep, h⟩ := Option.bind_eq_some_iff.mp h
    · cases h
      exact ⟨rfl, .stop⟩
    · obtain ⟨⟨others, seq'⟩, hothers, h⟩ := Option.bind_eq_some_iff.mp h
      cases h
      obtain ⟨hstart, hrest⟩ := ih hothers
      exact ⟨hstart, .more (hstmt (run_blockStep_some hstep rfl)) hrest⟩

/-- A block is a first statement and those behind it. -/
theorem block_derives {statement : Rule Id Statement}
    (hstmt : ∀ {pos p}, Id.run (statement pos) = some p →
      Derives tokens (.statement ctx pos p)) {p : Parsed Block}
    (h : Id.run (blockOf strategy tokens ctx statement pos) = some p) :
    ∃ first others, p = ⟨first.value :: others, first.start, p.next⟩ ∧
      Derives tokens (.statement ctx pos first) ∧
      Derives tokens (.statements ctx first.next others p.next) := by
  rw [run_blockOf] at h
  obtain ⟨first, hfirst, h⟩ := Option.bind_eq_some_iff.mp h
  obtain ⟨⟨others, seq⟩, hothers, h⟩ := Option.bind_eq_some_iff.mp h
  obtain ⟨hstart, hrest⟩ := statements_derive hstmt _ hothers
  cases h
  refine ⟨first, others, ?_, hstmt hfirst, hrest⟩
  simp only [Sequence.finish, hstart, Option.getD_some]

theorem conditional_derives {inner : Context} {statement : Rule Id Statement}
    (hctx : ctx.nested? = some inner)
    (hstmt : ∀ {pos p}, Id.run (statement pos) = some p →
      Derives tokens (.statement inner pos p)) {p : Parsed Statement}
    (h : Id.run (conditionalOf tokens inner (blockOf strategy tokens inner statement) pos) =
      some p) :
    Derives tokens (.statement ctx pos p) := by
  rw [run_conditionalOf] at h
  obtain ⟨opening, hopening, h⟩ := Option.bind_eq_some_iff.mp h
  obtain ⟨condition, hcondition, h⟩ := Option.bind_eq_some_iff.mp h
  obtain ⟨comma, hcomma, h⟩ := Option.bind_eq_some_iff.mp h
  obtain ⟨body, hbody, h⟩ := Option.bind_eq_some_iff.mp h
  rw [run_equality] at hcondition
  obtain ⟨left, hleft, hcondition⟩ := Option.bind_eq_some_iff.mp hcondition
  obtain ⟨link, hlink, hcondition⟩ := Option.bind_eq_some_iff.mp hcondition
  obtain ⟨right, hright, hcondition⟩ := Option.bind_eq_some_iff.mp hcondition
  obtain ⟨first, others, hb, hfirst, hothers⟩ := block_derives hstmt hbody
  cases hcondition
  cases h
  rw [hb]
  exact .conditional hctx hopening (expression_derives hleft) hlink (expression_derives hright)
    hcomma hfirst hothers

/-- Whatever is found where a statement is looked for has a derivation. -/
theorem statement_derives {p : Parsed Statement}
    (h : Id.run (statement strategy tokens ctx pos) = some p) :
    Derives tokens (.statement ctx pos p) := by
  induction hroom : ctx.room using Nat.strongRecOn generalizing ctx pos p with
  | _ room ih =>
    rw [statement_eq, run_statementOf] at h
    obtain ⟨c, hc, hp⟩ := Candidate.mem_of_chooseNearest h
    obtain ⟨outcome, hmem, rfl⟩ := List.mem_map.mp hc
    rcases List.mem_cons.mp hmem with rfl | hsimple
    · simp only at hp
      split at hp
      · obtain ⟨inner, hctx, hcond⟩ := run_conditional.mp hp
        have hlt : inner.room + 1 = ctx.room := (nested_room hctx).symm
        exact conditional_derives hctx (fun hq => ih inner.room (by omega) hq rfl) hcond
      · cases hp
    · simp only at hp
      subst hp
      exact simple_derives hsimple

theorem block_of_bodyPart {p : Parsed BodyPart} {b : Block}
    (h : Id.run (bodyPart strategy tokens ctx pos) = some p) (hvalue : p.value = .block b) :
    ∃ found, Id.run (block strategy tokens ctx pos) = some found ∧ found.value = b := by
  rw [run_bodyPart] at h
  obtain ⟨c, hc, hp⟩ := Candidate.mem_of_chooseNearest h
  simp only [List.mem_cons, List.not_mem_nil, or_false] at hc
  rcases hc with rfl | rfl
  · obtain ⟨q, hq, rfl⟩ := Outcome.as_eq_some_iff.mp hp
    cases hvalue
    exact ⟨q, hq, rfl⟩
  · obtain ⟨q, _, rfl⟩ := Outcome.as_eq_some_iff.mp hp
    cases hvalue

theorem blocks_of_bodyParts (bound : Nat) {start next : Nat} {parts : List BodyPart}
    {seq : Sequence}
    (h : Id.run (bodyParts strategy tokens ctx bound ⟨some start, next⟩) = some (parts, seq)) :
    ∀ b, .block b ∈ parts →
      ∃ pos found, Id.run (block strategy tokens ctx pos) = some found ∧ found.value = b := by
  induction bound generalizing next parts seq with
  | zero =>
    cases h
    intro b hmem
    cases hmem
  | succ bound ih =>
    rw [run_bodyParts] at h
    cases hpart : Id.run (bodyPart strategy tokens ctx next) with
    | none =>
      rw [hpart] at h
      cases h
      intro b hmem
      cases hmem
    | some part =>
      rw [hpart] at h
      obtain ⟨⟨others, seq'⟩, hothers, h⟩ := Option.map_eq_some_iff.mp h
      cases h
      intro b hmem
      rcases List.mem_cons.mp hmem with hvalue | hmem
      · exact ⟨next, block_of_bodyPart hpart hvalue.symm⟩
      · exact ih hothers b hmem

/-- The blocks of a document are what the block rule found in its context. -/
theorem blocks_of_document {p : Parsed Document}
    (h : Id.run (document strategy tokens ctx pos) = some p) :
    ∀ b, .block b ∈ p.value.parts →
      ∃ pos found, Id.run (block strategy tokens ctx pos) = some found ∧ found.value = b := by
  rw [run_document] at h
  obtain ⟨number, _, h⟩ := Option.bind_eq_some_iff.mp h
  obtain ⟨objectClass, _, h⟩ := Option.bind_eq_some_iff.mp h
  obtain ⟨heading, _, h⟩ := Option.bind_eq_some_iff.mp h
  obtain ⟨⟨parts, seq⟩, hparts, h⟩ := Option.bind_eq_some_iff.mp h
  cases h
  exact blocks_of_bodyParts _ hparts

end Grammar

end Dossier
