import Dossier.Proofs.Header
import Dossier.Proofs.Periods
import Dossier.Proofs.Room
import Dossier.Proofs.Shape

namespace Dossier

open Grammar

variable {tokens : List Token} {ctx ctx' : Context} {pos next room : Nat} {t : Token}

/-- A sentence is over at a period, and so is it where a comment begins that has an end. -/
def Breaks (tokens : List Token) (index : Nat) : Prop :=
  tokens[index]? = some .period ∨
    tokens[index]? = some .commentStart ∧ ∃ stop, index < stop ∧ tokens[stop]? = some .commentEnd

/-- Behind this position a rule stands before the sentence is over. -/
def RuleInSentence (tokens : List Token) (pos : Nat) : Prop :=
  ∃ stop, pos < stop ∧ tokens[stop]? = some .rule ∧
    ∀ index, pos < index → index < stop → ¬ Breaks tokens index

/-- Where a rule stands in a sentence behind a parenthesis, the room is enough for the levels of
that sentence, and where it stands behind an `If` it is enough for whatever follows. What counts is
how deep the search goes, and not how deep the tree is that it finds: an inner call that is tried
may use up what an outer one needs. -/
structure Roomy (tokens : List Token) : Prop where
  call : ∀ pos t, tokens[pos]? = some t → t.kind = .openParen → RuleInSentence tokens pos →
    levelsAt tokens pos ≤ Context.limit
  conditional : ∀ pos t, tokens[pos]? = some t → t.kind = .ifWord → RuleInSentence tokens pos →
    ∀ next, pos ≤ next → levelsAt tokens next ≤ Context.limit

/-- No rule stands in a sentence behind its `If` or behind a parenthesis that it opens. -/
def RulesApart (tokens : List Token) : Prop :=
  ∀ pos t, tokens[pos]? = some t → t.kind = .ifWord ∨ t.kind = .openParen →
    ¬ RuleInSentence tokens pos

theorem RulesApart.roomy (h : RulesApart tokens) : Roomy tokens where
  call pos t ht hkind hrule := absurd hrule (h pos t ht (.inr hkind))
  conditional pos t ht hkind hrule := absurd hrule (h pos t ht (.inl hkind))

/-- Where a period stands in front of every rule, none is in the sentence before. -/
theorem rulesApart_of_periods (h : ∀ stop, stop < tokens.length → tokens[stop]? = some .rule →
    0 < stop ∧ tokens[stop - 1]? = some .period) : RulesApart tokens := by
  intro pos t ht hkind ⟨stop, hlt, hrule, hwhole⟩
  obtain ⟨_, hperiod⟩ := h stop (List.getElem?_eq_some_iff.mp hrule).1 hrule
  by_cases hlast : pos = stop - 1
  · rw [hlast, hperiod] at ht
    cases ht
    rcases hkind with he | he <;> cases he
  · exact hwhole (stop - 1) (by omega) (by omega) (.inl hperiod)

theorem roomy_of_few_words (h : tokens.countP (fun t => t.kind.nests) ≤ Context.limit) :
    Roomy tokens where
  call pos _ _ _ _ := Nat.le_trans (levelsAt_le tokens pos) h
  conditional _ _ _ _ _ next _ := Nat.le_trans (levelsAt_le tokens next) h

/-- From the last rule on there is none in a sentence. -/
theorem RuleInSentence.lt_last (h : RuleInSentence tokens pos) {last : Nat}
    (hlast : .rule ∉ tokens.drop (last + 1)) : pos < last := by
  obtain ⟨stop, hlt, hrule, _⟩ := h
  apply Nat.lt_of_not_le
  intro hle
  have hbehind : (tokens.drop (last + 1))[stop - (last + 1)]? = some .rule := by
    rw [List.getElem?_drop, Nat.add_sub_of_le (by omega), hrule]
  exact hlast (List.mem_of_getElem? hbehind)

namespace Grammar

theorem statement_of_simple {q : Parsed Statement} (h : some q ∈ simpleOutcomes tokens ctx pos) :
    ∃ p, Id.run (statement .exhaustive tokens ctx pos) = some p ∧ p.start ≤ q.start := by
  rw [statement_eq, run_statementOf]
  exact Candidate.chooseNearest_of_mem
    (List.mem_map.mpr ⟨some q, List.mem_cons_of_mem _ h, rfl⟩) rfl

/-- Where a sentence breaks a statement starts at the latest. -/
theorem statement_of_breaks (hctx : ctx.forbidden = none) (hle : pos ≤ next)
    (h : Breaks tokens next) :
    ∃ p, Id.run (statement .exhaustive tokens ctx pos) = some p ∧ p.start ≤ next := by
  rcases h with hperiod | ⟨hopening, stop, hlt, hclosing⟩
  · obtain ⟨period, hfound, hnext⟩ : ∃ p, Id.run (token tokens ctx .period pos) = some p ∧
        p.next ≤ next + 1 := run_token_of_unforbidden hctx hle hperiod rfl
    have hstart := (run_token_eq_some_iff.mp hfound).2
    have hinvalid : Id.run (invalid tokens ctx pos) =
        some ⟨.invalid, period.start, period.next⟩ := by
      rw [run_invalid, hfound]
      rfl
    obtain ⟨p, hp, hpstart⟩ := statement_of_simple
      (show some _ ∈ simpleOutcomes tokens ctx pos by
        rw [← hinvalid]
        simp [simpleOutcomes, simpleForms])
    simp only at hpstart
    exact ⟨p, hp, by omega⟩
  · obtain ⟨opening, hfound, hnext⟩ : ∃ p, Id.run (token tokens ctx .commentStart pos) = some p ∧
        p.next ≤ next + 1 := run_token_of_unforbidden hctx hle hopening rfl
    have hstart := (run_token_eq_some_iff.mp hfound).2
    obtain ⟨closing, hend, _⟩ : ∃ p, Id.run (token tokens ctx .commentEnd opening.next) = some p ∧
        p.next ≤ stop + 1 :=
      run_token_of_unforbidden hctx (Nat.le_trans hnext hlt) hclosing rfl
    have hcomment : Id.run (comment tokens ctx pos) =
        some ⟨.comment, opening.start, closing.next⟩ := by
      rw [run_comment, hfound, Option.bind_eq_bind, Option.bind_some, hend]
      rfl
    obtain ⟨p, hp, hpstart⟩ := statement_of_simple
      (show some _ ∈ simpleOutcomes tokens ctx pos by
        rw [← hcomment]
        simp [simpleOutcomes, simpleForms])
    simp only at hpstart
    exact ⟨p, hp, by omega⟩

/-- An identifier is an expression at the least. -/
theorem expression_of_identifier {name : Parsed String}
    (h : Id.run (identifier tokens (ctx.forbid .period) pos) = some name) :
    ∃ e, Id.run (expression tokens ctx pos) = some e ∧ e.start ≤ name.start := by
  let found : Parsed Expression := ⟨.variable name.value, name.start, name.next⟩
  have hbare : Id.run (bareVariable tokens (ctx.forbid .period) pos) = some found :=
    Rule.run_as.mpr ⟨name, h, rfl⟩
  have hchosen : (Candidate.mk (some found) true).outcome = some found := rfl
  rw [run_expression, hbare]
  exact Candidate.chooseNearest_of_mem
    (List.mem_append_right [_, _, _, _] (List.mem_singleton_self _)) hchosen

/-- With less room an expression starts no later, if there is enough of it for calls. -/
theorem expression_of_other_room (hle : ctx'.room ≤ ctx.room) {e : Parsed Expression}
    (hcall : ∀ t, tokens[e.start]? = some t → t.kind = .openParen →
      levelsInSentence tokens e.start ≤ ctx'.room)
    (h : Id.run (expression tokens ctx pos) = some e) :
    ∃ e', Id.run (expression tokens ctx' pos) = some e' ∧ e'.start ≤ e.start := by
  rw [run_expression] at h
  obtain ⟨c, hc, hp⟩ := Candidate.mem_of_chooseNearest h
  simp only [List.mem_cons, List.not_mem_nil, or_false] at hc
  have hflat : (ctx'.forbid .period).forbidden = (ctx.forbid .period).forbidden := rfl
  rcases hc with rfl | rfl | rfl | rfl | rfl
  · rw [← square_of_forbidden hflat] at hp
    rw [run_expression]
    exact Candidate.chooseNearest_of_mem (by simp) hp
  · obtain ⟨inner, hinner, hadd⟩ := run_add.mp hp
    rw [run_addOf] at hadd
    obtain ⟨left, hleft, hadd⟩ := Option.bind_eq_some_iff.mp hadd
    obtain ⟨plus, _, hadd⟩ := Option.bind_eq_some_iff.mp hadd
    obtain ⟨right, _, hadd⟩ := Option.bind_eq_some_iff.mp hadd
    cases hadd
    -- Without room for the sum its left side is still a variable.
    have hinnerFlat : (ctx'.forbid .period).forbidden = inner.forbidden :=
      (nested_forbidden hinner).symm
    exact expression_of_identifier (by rw [identifier_of_forbidden hinnerFlat, hleft])
  · rw [← constant_of_forbidden hflat] at hp
    rw [run_expression]
    exact Candidate.chooseNearest_of_mem (by simp) hp
  · obtain ⟨t, ht, hkind⟩ := (functionCall_spans hp).opening
    have hroom' := hcall t ht (List.mem_singleton.mp hkind)
    have hroom : levelsInSentence tokens e.start ≤ ctx.room := Nat.le_trans hroom' hle
    have hsame : Id.run (functionCall tokens (ctx'.forbid .period) pos) = some e :=
      functionCall_of_room rfl hflat hroom' (expression_within
        (fun _ _ _ _ hinner hinner' => expression_of_room hinner hinner') hroom hroom') hp
    have hchosen : (Candidate.mk (some e) false).outcome = some e := rfl
    rw [run_expression, hsame]
    exact Candidate.chooseNearest_of_mem (by simp) hchosen
  · obtain ⟨name, hname, rfl⟩ := Rule.run_as.mp hp
    exact expression_of_identifier (by rw [identifier_of_forbidden hflat, hname])

theorem expressionStatement_of_other_room (hctx' : ctx'.forbidden = none)
    (hle : ctx'.room ≤ ctx.room) {q : Parsed Statement}
    (hcall : ∀ t, tokens[q.start]? = some t → t.kind = .openParen →
      levelsInSentence tokens q.start ≤ ctx'.room)
    (h : Id.run (expressionStatement tokens ctx pos) = some q) :
    ∃ q', Id.run (expressionStatement tokens ctx' pos) = some q' ∧ q'.start ≤ q.start := by
  rw [run_expressionStatement] at h
  obtain ⟨e, he, h⟩ := Option.bind_eq_some_iff.mp h
  obtain ⟨stop, hstop, h⟩ := Option.bind_eq_some_iff.mp h
  cases h
  obtain ⟨e', he', hstart⟩ := expression_of_other_room hle hcall he
  -- The period that ends the one expression lies behind the other as well.
  obtain ⟨hfinds, _⟩ := run_token_eq_some_iff.mp hstop
  have hpos := (expression_spans he).pos_lt
  have hafter := hfinds.le
  have hbehind : e'.next ≤ stop.start := by
    apply Nat.le_of_not_lt
    intro hlt
    exact expression_free he' stop.start stop.value (by omega) hlt hfinds.at_index hfinds.kind_eq
  obtain ⟨stop', hstop', _⟩ :=
    run_token_of_unforbidden hctx' hbehind hfinds.at_index hfinds.kind_eq
  refine ⟨⟨.expression e'.value, e'.start, stop'.next⟩, ?_, hstart⟩
  rw [run_expressionStatement, he', Option.bind_eq_bind, Option.bind_some, hstop']
  rfl

/-- With less room a statement starts no later, if there is enough of it for what it opens with. -/
theorem statement_of_other_room (hctx : ctx.forbidden = none) (hctx' : ctx'.forbidden = none)
    (hle : ctx'.room ≤ ctx.room) {q : Parsed Statement}
    (hcall : ∀ t, tokens[q.start]? = some t → t.kind = .openParen →
      levelsInSentence tokens q.start ≤ ctx'.room)
    (hconditional : ∀ t, tokens[q.start]? = some t → t.kind = .ifWord →
      Suffices tokens ctx'.room q.start)
    (h : Id.run (statement .exhaustive tokens ctx pos) = some q) :
    ∃ p, Id.run (statement .exhaustive tokens ctx' pos) = some p ∧ p.start ≤ q.start := by
  have hflat : ctx'.forbidden = ctx.forbidden := hctx'.trans hctx.symm
  rw [statement_eq, run_statementOf] at h
  obtain ⟨c, hc, hp⟩ := Candidate.mem_of_chooseNearest h
  obtain ⟨outcome, hmem, rfl⟩ := List.mem_map.mp hc
  simp only at hp
  subst hp
  rcases List.mem_cons.mp hmem with hbranch | hsimple
  · obtain ⟨t, ht, hkind⟩ := (conditional_spans hbranch.symm).opening
    have hif : t.kind = .ifWord := List.mem_singleton.mp hkind
    have hroom' := hconditional t ht hif
    have hroom := hroom'.mono hle
    have hsame : Id.run (conditional .exhaustive tokens ctx' pos) = some q :=
      conditional_of_room hflat hroom hroom' (statement_within
        (fun _ _ _ _ hflat hinner hinner' => statement_of_room hflat hinner hinner')
        hflat ht hif hroom hroom') hbranch.symm
    rw [statement_eq, run_statementOf, hsame]
    exact Candidate.chooseNearest_of_mem (List.mem_map.mpr ⟨_, List.mem_cons_self, rfl⟩) rfl
  · rw [simpleOutcomes_of_forbidden hflat.symm] at hsimple
    rcases List.mem_or_eq_of_mem_set hsimple with hsame | hexpression
    · exact statement_of_simple hsame
    · obtain ⟨q', hq', hstart⟩ := expressionStatement_of_other_room hctx' hle hcall hexpression.symm
      have hmem' : some q' ∈ simpleOutcomes tokens ctx' pos := by
        rw [← hq']
        simp [simpleOutcomes, simpleForms]
      obtain ⟨p, hp, hle'⟩ := statement_of_simple hmem'
      exact ⟨p, hp, Nat.le_trans hle' hstart⟩

/-- A block that has come to this position ends there. -/
def Stops (tokens : List Token) (ctx : Context) (pos : Nat) : Prop :=
  ∃ step, Id.run (blockStep .exhaustive tokens ctx (statement .exhaustive tokens ctx) pos) =
    some step ∧ step.value = none

theorem run_step (ctx : Context) (pos : Nat) :
    Id.run (blockStep .exhaustive tokens ctx (statement .exhaustive tokens ctx) pos) =
      Candidate.chooseNearest
        [⟨(Id.run (statement .exhaustive tokens ctx pos)).as some, false⟩,
          ⟨(Id.run (blockEnd tokens ctx pos)).as fun _ => none, false⟩] :=
  run_blockStep _

/-- At the end of the stream a block is at its end. -/
theorem step_at_end (hlength : tokens.length ≤ pos) :
    Id.run (blockStep .exhaustive tokens ctx (statement .exhaustive tokens ctx) pos) =
      some ⟨none, tokens.length, pos⟩ := by
  have hstatement : Id.run (statement .exhaustive tokens ctx pos) = none :=
    statement_spans.run_at_length hlength
  have hstop : Id.run (blockEnd tokens ctx pos) = some ⟨(), tokens.length, pos⟩ :=
    run_blockEnd_eq_some_iff.mpr (.inr ⟨hlength, rfl⟩)
  rw [run_step, hstatement, hstop]
  rfl

/-- Where its end does not lie ahead a block can only go on. -/
theorem step_of_endless (h : Id.run (blockEnd tokens ctx pos) = none) :
    Id.run (blockStep .exhaustive tokens ctx (statement .exhaustive tokens ctx) pos) =
      (Id.run (statement .exhaustive tokens ctx pos)).as some := by
  rw [run_step, h]
  cases Id.run (statement .exhaustive tokens ctx pos) <;> rfl

/-- A block ends where no statement starts before a rule or before the end of the stream. -/
theorem stops_iff :
    Stops tokens ctx pos ↔ tokens.length ≤ pos ∨
      ∃ rule, Id.run (token tokens ctx .rule pos) = some rule ∧
        ∀ p, Id.run (statement .exhaustive tokens ctx pos) = some p → rule.start < p.start := by
  constructor
  · rintro ⟨step, hstep, hnone⟩
    rw [run_step] at hstep
    have hnear : ∀ p, Id.run (statement .exhaustive tokens ctx pos) = some p →
        step.start ≤ p.start := by
      intro p hp
      have hcandidate : (Id.run (statement .exhaustive tokens ctx pos)).as some =
          some ⟨some p.value, p.start, p.next⟩ := by
        rw [hp]
        rfl
      exact Candidate.start_le_of_chooseNearest hstep List.mem_cons_self hcandidate
    obtain ⟨c, hc, hp⟩ := Candidate.mem_of_chooseNearest hstep
    simp only [List.mem_cons, List.not_mem_nil, or_false] at hc
    rcases hc with rfl | rfl
    · obtain ⟨q, _, rfl⟩ := Outcome.as_eq_some_iff.mp hp
      cases hnone
    · simp only [Outcome.as_eq_some_iff] at hp
      obtain ⟨stop, hstop, rfl⟩ := hp
      rcases run_blockEnd_eq_some_iff.mp hstop with ⟨rule, hrule, rfl⟩ | ⟨hlength, _⟩
      · refine .inr ⟨rule, hrule, fun p hp => Nat.lt_of_le_of_ne (hnear p hp) fun he => ?_⟩
        -- No statement starts at a rule.
        obtain ⟨t, ht, hkind⟩ := (statement_spans hp).opening
        have hfinds := (run_token_eq_some_iff.mp hrule).1
        rw [← he, hfinds.at_index] at ht
        cases ht
        rw [hfinds.kind_eq] at hkind
        exact absurd hkind (by decide)
      · exact .inl hlength
  · rintro (hlength | ⟨rule, hrule, hfirst⟩)
    · exact ⟨_, step_at_end hlength, rfl⟩
    · have hstop : Id.run (blockEnd tokens ctx pos) = some ⟨(), rule.start, rule.next⟩ :=
        run_blockEnd_eq_some_iff.mpr (.inl ⟨rule, hrule, rfl⟩)
      refine ⟨⟨none, rule.start, rule.next⟩, ?_, rfl⟩
      rw [run_step, hstop]
      refine Candidate.chooseNearest_of_alone [_] false [] ?_
      intro c hc q hq
      rw [List.append_nil, List.mem_singleton] at hc
      subst hc
      obtain ⟨p, hp, rfl⟩ := Outcome.as_eq_some_iff.mp hq
      exact hfirst p hp

/-- Where a body ends for want of a statement in its room, the block around it ends as well. As
many conditionals have begun as levels of the room are taken. -/
theorem Stops.around (hroomy : Roomy tokens)
    (hbegun : Context.limit ≤ room + conditionalsBefore tokens pos)
    (h : Stops tokens ⟨none, room⟩ pos) : Stops tokens ⟨none, room + 1⟩ pos := by
  rcases stops_iff.mp h with hlength | ⟨rule, hrule, hfirst⟩
  · exact stops_iff.mpr (.inl hlength)
  · have hflat : (token tokens ⟨none, room + 1⟩ : Kind → Rule Id Token) =
        token tokens ⟨none, room⟩ := token_of_forbidden rfl
    refine stops_iff.mpr (.inr ⟨rule, by rw [hflat, hrule], fun q hq => ?_⟩)
    apply Nat.lt_of_not_le
    intro hle
    obtain ⟨hfinds, _⟩ := run_token_eq_some_iff.mp hrule
    have hvalue : rule.value = .rule := Token.eq_of_kind (by rw [hfinds.kind_eq]; rfl)
    have hstarts := (statement_spans hq).le
    have hwhole : ∀ index, q.start < index → index < rule.start → ¬ Breaks tokens index := by
      intro index hafter hbefore hbreaks
      obtain ⟨p, hp, hstart⟩ : ∃ p, Id.run (statement .exhaustive tokens ⟨none, room⟩ pos) =
          some p ∧ p.start ≤ index := statement_of_breaks rfl (by omega) hbreaks
      have hbehind := hfirst p hp
      omega
    have hopens : ∀ t, tokens[q.start]? = some t → t.kind ≠ .rule →
        RuleInSentence tokens q.start := by
      intro t ht hkind
      have hne : q.start ≠ rule.start := by
        intro he
        rw [he, hfinds.at_index] at ht
        cases ht
        exact hkind hfinds.kind_eq
      exact ⟨rule.start, Nat.lt_of_le_of_ne hle hne, hvalue ▸ hfinds.at_index, hwhole⟩
    have hmono : conditionalsBefore tokens pos ≤ conditionalsBefore tokens q.start :=
      conditionalsBefore_mono hstarts
    have hcall : ∀ t, tokens[q.start]? = some t → t.kind = .openParen →
        levelsInSentence tokens q.start ≤ room := by
      intro t ht hkind
      have hlevels := hroomy.call q.start t ht hkind (hopens t ht (by simp [hkind]))
      rw [levelsAt] at hlevels
      omega
    have hconditional : ∀ t, tokens[q.start]? = some t → t.kind = .ifWord →
        Suffices tokens room q.start := by
      intro t ht hkind next hnext
      have hrule := hopens t ht (by simp [hkind])
      have hlevels := hroomy.conditional q.start t ht hkind hrule next hnext
      omega
    obtain ⟨p, hp, hstart⟩ : ∃ p, Id.run (statement .exhaustive tokens ⟨none, room⟩ pos) = some p ∧
        p.start ≤ q.start :=
      statement_of_other_room rfl rfl (Nat.le_succ room) hcall hconditional hq
    have hbehind := hfirst p hp
    omega

/-- In it conditionals come last, and if it is one itself the block around it ends with it. -/
def EndsBlock (tokens : List Token) (ctx : Context) (p : Parsed Statement) : Prop :=
  p.value.conditionalsLast = true ∧ (p.value.isConditional = true → Stops tokens ctx p.next)

theorem EndsBlock.of_other {p : Parsed Statement} (h : p.value.isConditional = false) :
    EndsBlock tokens ctx p := by
  obtain ⟨value, start, next⟩ := p
  cases value with
  | conditional => cases h
  | _ => exact ⟨rfl, nofun⟩

theorem EndsBlock.cons {first : Parsed Statement} {others : Block}
    (h : EndsBlock tokens ctx first) (hothers : Statement.blockConditionalsLast others = true)
    (hempty : Stops tokens ctx first.next → others = []) :
    Statement.blockConditionalsLast (first.value :: others) = true := by
  obtain ⟨hlast, hends⟩ := h
  have hfirst : (others.isEmpty || !first.value.isConditional) = true := by
    cases hconditional : first.value.isConditional with
    | false => exact Bool.or_true _
    | true =>
      rw [hempty (hends hconditional)]
      rfl
  rw [Statement.blockConditionalsLast, hfirst, hlast, hothers]
  rfl

theorem furtherStatements_last (hstatement : ∀ next p, pos ≤ next →
      Id.run (statement .exhaustive tokens ctx next) = some p → EndsBlock tokens ctx p)
    (bound : Nat) {start : Nat} {others : Block} {after : Sequence} (hle : pos ≤ next)
    (h : Id.run (furtherStatements .exhaustive tokens ctx (statement .exhaustive tokens ctx) bound
      ⟨some start, next⟩) = some (others, after)) :
    Statement.blockConditionalsLast others = true ∧ (Stops tokens ctx next → others = []) ∧
      Stops tokens ctx after.position := by
  induction bound generalizing next others after with
  | zero => cases h
  | succ bound ih =>
    rw [run_furtherStatements] at h
    obtain ⟨⟨value, start', next'⟩, hstep, h⟩ := Option.bind_eq_some_iff.mp h
    cases value with
    | none =>
      cases h
      exact ⟨rfl, fun _ => rfl, _, hstep, rfl⟩
    | some first =>
      obtain ⟨⟨rest, after'⟩, hrest, h⟩ := Option.bind_eq_some_iff.mp h
      cases h
      have hfirst := run_blockStep_some hstep rfl
      have hlt := (statement_spans hfirst).pos_lt
      obtain ⟨hrestLast, hempty, hstops⟩ := ih (Nat.le_trans hle (Nat.le_of_lt hlt)) hrest
      refine ⟨(hstatement next _ hle hfirst).cons hrestLast hempty, ?_, hstops⟩
      rintro ⟨step, hstep', hnone⟩
      rw [hstep] at hstep'
      cases hstep'
      cases hnone

/-- A block holds what its statements promise, and it has come to its end. -/
theorem block_last (hstatement : ∀ next p, pos ≤ next →
      Id.run (statement .exhaustive tokens ctx next) = some p → EndsBlock tokens ctx p)
    {p : Parsed Block} (h : Id.run (block .exhaustive tokens ctx pos) = some p) :
    Statement.blockConditionalsLast p.value = true ∧ Stops tokens ctx p.next := by
  rw [block, run_blockOf] at h
  obtain ⟨first, hfirst, h⟩ := Option.bind_eq_some_iff.mp h
  obtain ⟨⟨others, after⟩, hothers, h⟩ := Option.bind_eq_some_iff.mp h
  cases h
  have hlt := (statement_spans hfirst).pos_lt
  obtain ⟨hothersLast, hempty, hstops⟩ :=
    furtherStatements_last hstatement _ (Nat.le_of_lt hlt) hothers
  exact ⟨(hstatement pos first (Nat.le_refl pos) hfirst).cons hothersLast hempty, hstops⟩

theorem conditional_last {p : Parsed Statement} (hroomy : Roomy tokens)
    (hbegun : Context.limit ≤ room + 1 + conditionalsBefore tokens pos)
    (hstatement : ∀ next p, Context.limit ≤ room + conditionalsBefore tokens next →
      Id.run (statement .exhaustive tokens ⟨none, room⟩ next) = some p →
        EndsBlock tokens ⟨none, room⟩ p)
    (h : Id.run (conditional .exhaustive tokens ⟨none, room + 1⟩ pos) = some p) :
    EndsBlock tokens ⟨none, room + 1⟩ p := by
  obtain ⟨inner, hinner, h⟩ := run_conditional.mp h
  cases hinner
  rw [run_conditionalOf] at h
  obtain ⟨opening, hopening, h⟩ := Option.bind_eq_some_iff.mp h
  obtain ⟨condition, hcondition, h⟩ := Option.bind_eq_some_iff.mp h
  obtain ⟨comma, hcomma, h⟩ := Option.bind_eq_some_iff.mp h
  obtain ⟨body, hbody, h⟩ := Option.bind_eq_some_iff.mp h
  cases h
  have hconditionLt := (equality_spans hcondition).pos_lt
  have hcommaLt := (token_spans .comma hcomma).pos_lt
  have hbodyLt := (block_spans hbody).pos_lt
  obtain ⟨hfinds, hnext⟩ := run_token_eq_some_iff.mp hopening
  have hahead : conditionalsBefore tokens pos ≤ conditionalsBefore tokens opening.start :=
    conditionalsBefore_mono hfinds.le
  have hlater : ∀ next, comma.next ≤ next →
      Context.limit ≤ room + conditionalsBefore tokens next := by
    intro next hle
    have hlt := conditionalsBefore_lt hfinds.at_index hfinds.kind_eq
      (show opening.start < next by omega)
    omega
  obtain ⟨hlast, hstops⟩ :=
    block_last (fun next q hle hq => hstatement next q (hlater next hle) hq) hbody
  exact ⟨hlast, fun _ => hstops.around hroomy (hlater body.next (Nat.le_of_lt hbodyLt))⟩

/-- Every conditional that is found ends the block around it. -/
theorem statement_last (room : Nat) {p : Parsed Statement} (hroomy : Roomy tokens)
    (hbegun : Context.limit ≤ room + conditionalsBefore tokens pos)
    (h : Id.run (statement .exhaustive tokens ⟨none, room⟩ pos) = some p) :
    EndsBlock tokens ⟨none, room⟩ p := by
  induction room generalizing pos p with
  | zero =>
    cases hvalue : p.value with
    | conditional condition body =>
      obtain ⟨inner, hinner, _⟩ := run_conditional.mp (conditional_of_statement h hvalue)
      cases hinner
    | _ => exact .of_other (by rw [hvalue]; rfl)
  | succ room ih =>
    cases hvalue : p.value with
    | conditional condition body =>
      exact conditional_last hroomy hbegun (fun _ _ hnext hq => ih hnext hq)
        (conditional_of_statement h hvalue)
    | _ => exact .of_other (by rw [hvalue]; rfl)

end Grammar

namespace Document

theorem conditionalsLast_iff {doc : Document} :
    doc.conditionalsLast = true ↔
      ∀ block, .block block ∈ doc.parts → Statement.blockConditionalsLast block = true := by
  rw [conditionalsLast, List.all_eq_true]
  exact forall_congr' fun block => imp_congr_left mem_blocks

/-- A conditional owns all that is left of its block, unless two things come together: a rule in a
sentence that an `If` or a parenthesis opens, and more levels than there is room for. Without
either, conditionals come last in every block of a document. -/
theorem conditionals_last (tokens : List Token) (doc : Document) (h : ofTokens tokens = .ok doc)
    (hroomy : Roomy tokens) : doc.conditionalsLast = true := by
  rw [ofTokens, ofTokensBy_pruned] at h
  obtain ⟨found, hfound, rfl⟩ := ofTokensBy_eq_ok_iff.mp h
  refine conditionalsLast_iff.mpr fun block hmem => ?_
  obtain ⟨pos, body, hbody, rfl⟩ := blocks_of_document hfound block hmem
  exact (block_last (fun next _ _ hq =>
    statement_last Context.limit hroomy (Nat.le_add_right _ _) hq) hbody).1

/-- What the outcome satisfies is satisfied by a document that the tokens are read as. -/
theorem exists_ofTokens {holds : Document → Bool}
    (h : (Id.run (document .pruned tokens .root 0)).any (fun p => holds p.value) = true) :
    ∃ doc, ofTokens tokens = .ok doc ∧ holds doc = true := by
  obtain ⟨p, hp, hholds⟩ := (Option.any_eq_true _ _).mp h
  exact ⟨p.value, ofTokensBy_eq_ok_iff.mpr ⟨p, hp, rfl⟩, hholds⟩

/-- A conditional in the body of another and a block of its own behind the rule; a report with more
words that nest than there is room for, but no rule among them; and a call with a rule behind its
parenthesis that needs all the room there is. -/
theorem conditionals_last_of_three_reports :
    let front : List Token := [.itemNumber 173, .objectClass .euclid, .procedures, .ifWord,
      .identifier "x", .verb .is, .constant 1, .comma, .identifier "x", .increment, .period]
    let few : List Token := List.flatten [front,
      [.ifWord, .identifier "y", .verb .is, .constant 2, .comma, .period, .rule, .period]]
    let apart : List Token := List.flatten [front, List.replicate 65 .add,
      [.period, .rule, .period]]
    let full : List Token := List.flatten [front, [.openParen, .rule, .identifier "f"],
      List.flatten (List.replicate 62 [.openParen, .identifier "f"]), [.constant 1],
      List.replicate 63 .closeParen,
      [.period, .openParen, .identifier "f", .constant 1, .closeParen, .period]]
    (∃ doc, ofTokens few = .ok doc ∧ Roomy few ∧ doc.blocks.map List.length = [1, 1] ∧
        doc.conditionalsLast = true) ∧
      (∃ doc, ofTokens apart = .ok doc ∧ Roomy apart ∧ Context.limit < levelsAt apart 11 ∧
        doc.blocks.map List.length = [1, 1] ∧ doc.conditionalsLast = true) ∧
      ∃ doc, ofTokens full = .ok doc ∧ Roomy full ∧ RuleInSentence full 11 ∧
        levelsAt full 11 = Context.limit ∧ doc.conditionalsLast = true := by
  intro front few apart full
  have hfew : Roomy few := roomy_of_few_words (by decide)
  have hapart : Roomy apart := (rulesApart_of_periods (by decide +kernel)).roomy
  have hfull : Roomy full := by
    have hfront : ∀ pos, RuleInSentence full pos → pos < 12 :=
      fun _ h => h.lt_last (by decide +kernel)
    have hlevels : ∀ pos < 12, levelsAt full pos ≤ Context.limit := by decide +kernel
    have hifs : ∀ pos < 12, ∀ t ∈ full[pos]?, t.kind = .ifWord → pos = 3 := by decide +kernel
    have hrules : ∀ stop ≤ 10, full[stop]? ≠ some .rule := by decide +kernel
    refine ⟨fun pos _ _ _ h => hlevels pos (hfront pos h), fun pos t ht hkind h => ?_⟩
    obtain rfl : pos = 3 := hifs pos (hfront pos h) t ht hkind
    obtain ⟨stop, _, hrule, hwhole⟩ := h
    have hbehind : 10 < stop := Nat.lt_of_not_le fun hle => hrules stop hle hrule
    exact absurd (.inl rfl) (hwhole 10 (by decide) hbehind)
  obtain ⟨doc, hdoc, hblocks⟩ :
      ∃ doc, ofTokens few = .ok doc ∧ (doc.blocks.map List.length == [1, 1]) = true :=
    exists_ofTokens (by decide +kernel)
  obtain ⟨doc', hdoc', hblocks'⟩ :
      ∃ doc, ofTokens apart = .ok doc ∧ (doc.blocks.map List.length == [1, 1]) = true :=
    exists_ofTokens (by decide +kernel)
  obtain ⟨parts, hparts⟩ : ∃ parts, ofTokens full = .ok ⟨173, .euclid, parts⟩ :=
    ofTokens_of_header (.here rfl rfl) (.here rfl rfl) (.here rfl rfl)
  refine ⟨⟨doc, hdoc, hfew, beq_iff_eq.mp hblocks, conditionals_last few doc hdoc hfew⟩,
    ⟨doc', hdoc', hapart, by decide +kernel, beq_iff_eq.mp hblocks',
      conditionals_last apart doc' hdoc' hapart⟩,
    ⟨_, hparts, hfull, ⟨12, by decide, rfl, fun _ _ _ => by omega⟩, by decide +kernel,
      conditionals_last full _ hparts hfull⟩⟩

/-- Where both come together a conditional need not come last. The call behind this one needs all
the room there is, so the body ends at the rule that the call has behind its parenthesis; the block
around the body has one level more, finds the call and goes on. -/
theorem conditionals_not_last_at_limit :
    let tokens : List Token := [.itemNumber 1, .objectClass .safe, .procedures,
      .ifWord, .identifier "x", .verb .is, .constant 1, .comma, .identifier "x", .increment,
      .period, .openParen, .rule, .identifier "f"] ++
        (List.replicate 63 [.openParen, .the, .identifier "f"]).flatten ++ [.constant 1] ++
        List.replicate 64 .closeParen ++ [.square, .identifier "y", .period]
    ∃ doc, ofTokens tokens = .ok doc ∧ doc.conditionalsLast = false := by
  intro tokens
  obtain ⟨doc, hdoc, hlast⟩ :
      ∃ doc, ofTokens tokens = .ok doc ∧ (!doc.conditionalsLast) = true :=
    exists_ofTokens (by decide +kernel)
  exact ⟨doc, hdoc, (Bool.not_eq_true' _).mp hlast⟩

end Document

end Dossier
