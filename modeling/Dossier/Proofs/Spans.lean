import Dossier.Grammar.Edges
import Dossier.Proofs.Derivation
import Dossier.Proofs.Search

namespace Dossier

variable {tokens : List Token} {first last kinds : List Kind} {α β : Type}

/-- A stretch of tokens ahead of a position, with the kinds that its first and last token can be
of. -/
structure Spans (tokens : List Token) (first last : List Kind) (pos start next : Nat) : Prop where
  le : pos ≤ start
  lt : start < next
  opening : ∃ t, tokens[start]? = some t ∧ t.kind ∈ first
  closing : ∃ t, tokens[next - 1]? = some t ∧ t.kind ∈ last

namespace Spans

variable {pos start next : Nat}

theorem pos_lt (h : Spans tokens first last pos start next) : pos < next :=
  Nat.lt_of_le_of_lt h.le h.lt

theorem next_le (h : Spans tokens first last pos start next) : next ≤ tokens.length := by
  obtain ⟨t, ht, _⟩ := h.closing
  have hlt := (List.getElem?_eq_some_iff.mp ht).1
  omega

/-- Behind the stretch fewer tokens are left than there are. -/
theorem rest_lt (h : Spans tokens first last pos start next) :
    tokens.length - next < tokens.length := by
  have hlt := h.pos_lt
  have hle := h.next_le
  omega

theorem mono {first' last' : List Kind} (h : Spans tokens first last pos start next)
    (hfirst : first ⊆ first') (hlast : last ⊆ last') :
    Spans tokens first' last' pos start next := by
  obtain ⟨t, ht, hopen⟩ := h.opening
  obtain ⟨u, hu, hclose⟩ := h.closing
  exact ⟨h.le, h.lt, ⟨t, ht, hfirst hopen⟩, ⟨u, hu, hlast hclose⟩⟩

/-- What was found from a later position was there for an earlier one. -/
theorem earlier {pos' : Nat} (h : Spans tokens first last pos start next) (hle : pos' ≤ pos) :
    Spans tokens first last pos' start next :=
  ⟨Nat.le_trans hle h.le, h.lt, h.opening, h.closing⟩

/-- Two stretches in a row, the second looked for where the first ends. -/
theorem append {start' next' : Nat} {mid mid' : List Kind}
    (h : Spans tokens first mid pos start next) (h' : Spans tokens mid' last next start' next') :
    Spans tokens first last pos start next' :=
  ⟨h.le, Nat.lt_trans h.lt h'.pos_lt, h.opening, h'.closing⟩

end Spans

/-- Whatever the rule finds spans tokens, from one of the first kinds to one of the last. -/
def Rule.Spans (rule : Rule Id α) (tokens : List Token) (first last : List Kind) : Prop :=
  ∀ ⦃pos p⦄, Id.run (rule pos) = some p → Dossier.Spans tokens first last pos p.start p.next

namespace Rule.Spans

variable {rule : Rule Id α}

theorem mono {first' last' : List Kind} (h : rule.Spans tokens first last)
    (hfirst : first ⊆ first') (hlast : last ⊆ last') : rule.Spans tokens first' last' :=
  fun _ _ hp => (h hp).mono hfirst hlast

theorem as (f : α → β) (h : rule.Spans tokens first last) :
    (rule.as f).Spans tokens first last := by
  intro pos p hp
  obtain ⟨q, hq, rfl⟩ := Rule.run_as.mp hp
  exact h hq

/-- At its end a stream has nothing more to find. -/
theorem run_at_length (h : rule.Spans tokens first last) {pos : Nat} (hle : tokens.length ≤ pos) :
    Id.run (rule pos) = none := by
  cases hfound : Id.run (rule pos) with
  | none => rfl
  | some p =>
    have hlt := (h hfound).pos_lt
    have hnext := (h hfound).next_le
    omega

end Rule.Spans

namespace Grammar

variable {strategy : Strategy} {ctx : Context}

theorem token_spans (kind : Kind) : (token tokens ctx kind).Spans tokens [kind] [kind] := by
  intro pos p hp
  obtain ⟨h, hnext⟩ := run_token_eq_some_iff.mp hp
  refine ⟨h.le, by omega, ⟨p.value, h.at_index, by simp [h.kind_eq]⟩, p.value, ?_, by
    simp [h.kind_eq]⟩
  rw [hnext]
  exact h.at_index

theorem identifier_spans : (identifier tokens ctx).Spans tokens [.identifier] [.identifier] :=
  fun _ _ hp => token_spans .identifier (run_identifier.mp hp)

theorem constantValue_spans : (constantValue tokens ctx).Spans tokens [.constant] [.constant] :=
  fun _ _ hp => token_spans .constant (run_constantValue.mp hp)

theorem verb_spans : (verb tokens ctx).Spans tokens [.verb] [.verb] :=
  fun _ _ hp => token_spans .verb (run_verb.mp hp)

theorem copula_spans : (copula tokens ctx).Spans tokens [.verb] [.verb] :=
  fun _ _ hp => verb_spans (run_copula.mp hp).2

theorem itemNumber_spans : (itemNumber tokens ctx).Spans tokens [.itemNumber] [.itemNumber] :=
  fun _ _ hp => token_spans .itemNumber (run_itemNumber.mp hp)

theorem objectClass_spans : (objectClass tokens ctx).Spans tokens [.objectClass] [.objectClass] :=
  fun _ _ hp => token_spans .objectClass (run_objectClass.mp hp)

theorem label_spans : (label tokens ctx).Spans tokens labelKinds labelKinds := by
  intro pos p hp
  rw [run_label] at hp
  obtain ⟨c, hc, hp⟩ := Candidate.mem_of_chooseNearest hp
  simp only [List.mem_cons, List.not_mem_nil, or_false] at hc
  rcases hc with rfl | rfl
  · obtain ⟨q, hq, hread⟩ := Option.bind_eq_some_iff.mp hp
    obtain ⟨value, _, rfl⟩ := Option.map_eq_some_iff.mp hread
    exact (token_spans .addendum hq).mono (by simp [labelKinds]) (by simp [labelKinds])
  · simp only [Outcome.as_eq_some_iff] at hp
    obtain ⟨q, hq, rfl⟩ := hp
    exact (token_spans .description hq).mono (by simp [labelKinds]) (by simp [labelKinds])

theorem separator_spans :
    (separator tokens ctx).Spans tokens [.and, .closeParen] [.and, .closeParen] := by
  intro pos p hp
  rcases run_separator hp with ⟨link, hlink, rfl⟩ | ⟨closing, hclosing, rfl⟩
  · exact (token_spans .and hlink).mono (by simp) (by simp)
  · exact (token_spans .closeParen hclosing).mono (by simp) (by simp)

theorem square_spans : (square tokens ctx).Spans tokens [.the, .square] [.identifier] := by
  intro pos p hp
  rw [run_square] at hp
  obtain ⟨phrase, hphrase, hp⟩ := Option.bind_eq_some_iff.mp hp
  obtain ⟨name, hname, hp⟩ := Option.bind_eq_some_iff.mp hp
  cases hp
  have hname : Spans tokens [.identifier] [.identifier] phrase.next name.start name.next := by
    cases hof : Id.run (token tokens ctx .of phrase.next) with
    | none =>
      rw [hof] at hname
      exact identifier_spans hname
    | some of =>
      rw [hof] at hname
      exact (identifier_spans hname).earlier (Nat.le_of_lt (token_spans .of hof).pos_lt)
  cases hthe : Id.run (token tokens ctx .the pos) with
  | none =>
    rw [hthe] at hphrase
    exact ((token_spans .square hphrase).append hname).mono (by simp) (by simp)
  | some article =>
    rw [hthe] at hphrase
    have hphrase := token_spans .square hphrase
    exact (((token_spans .the hthe).append hphrase).append hname).mono (by simp) (by simp)

end Grammar

/-- What a finding spans. A block may go on with no statement at all. -/
def Finding.Spanned (tokens : List Token) : Finding → Prop
  | expression _ pos p =>
    Spans tokens Grammar.expressionStart Grammar.expressionEnd pos p.start p.next
  | arguments _ pos _ next =>
    ∃ start, Spans tokens [.and, .closeParen] [.closeParen] pos start next
  | statement _ pos p =>
    Spans tokens Grammar.statementStart Grammar.statementEnd pos p.start p.next
  | statements _ pos _ next =>
    pos = next ∨ ∃ start, Spans tokens Grammar.statementStart Grammar.statementEnd pos start next

namespace Grammar

variable {strategy : Strategy} {ctx : Context}

theorem assignment_spans : (assignment tokens ctx).Spans tokens [.identifier] [.period] := by
  intro pos p hp
  rw [run_assignment] at hp
  obtain ⟨target, htarget, hp⟩ := Option.bind_eq_some_iff.mp hp
  obtain ⟨verb, hverb, hp⟩ := Option.bind_eq_some_iff.mp hp
  obtain ⟨value, hvalue, hp⟩ := Option.bind_eq_some_iff.mp hp
  obtain ⟨stop, hstop, hp⟩ := Option.bind_eq_some_iff.mp hp
  cases hp
  exact (((identifier_spans htarget).append (verb_spans hverb)).append
    (constantValue_spans hvalue)).append (token_spans .period hstop)

theorem increment_spans : (increment tokens ctx).Spans tokens [.identifier] [.period] := by
  intro pos p hp
  rw [run_increment] at hp
  obtain ⟨target, htarget, hp⟩ := Option.bind_eq_some_iff.mp hp
  obtain ⟨phrase, hphrase, hp⟩ := Option.bind_eq_some_iff.mp hp
  obtain ⟨stop, hstop, hp⟩ := Option.bind_eq_some_iff.mp hp
  cases hp
  exact ((identifier_spans htarget).append (token_spans .increment hphrase)).append
    (token_spans .period hstop)

theorem goto_spans : (goto tokens ctx).Spans tokens [.see] [.period] := by
  intro pos p hp
  rw [run_goto] at hp
  obtain ⟨see, hsee, hp⟩ := Option.bind_eq_some_iff.mp hp
  obtain ⟨label, hlabel, hp⟩ := Option.bind_eq_some_iff.mp hp
  obtain ⟨stop, hstop, hp⟩ := Option.bind_eq_some_iff.mp hp
  cases hp
  exact ((token_spans .see hsee).append (label_spans hlabel)).append (token_spans .period hstop)

theorem comment_spans : (comment tokens ctx).Spans tokens [.commentStart] [.commentEnd] := by
  intro pos p hp
  rw [run_comment] at hp
  obtain ⟨opening, hopening, hp⟩ := Option.bind_eq_some_iff.mp hp
  obtain ⟨closing, hclosing, hp⟩ := Option.bind_eq_some_iff.mp hp
  cases hp
  exact (token_spans .commentStart hopening).append (token_spans .commentEnd hclosing)

theorem invalid_spans : (invalid tokens ctx).Spans tokens [.period] [.period] := by
  intro pos p hp
  rw [run_invalid] at hp
  obtain ⟨stop, hstop, hp⟩ := Option.bind_eq_some_iff.mp hp
  cases hp
  exact token_spans .period hstop

/-- Every rule of the grammar spans tokens if its parts do. -/
theorem Derives.spanned {finding : Finding} (h : Derives tokens finding) :
    finding.Spanned tokens := by
  induction h with
  | square hp =>
    exact (square_spans hp).mono (by simp [expressionStart]) (by simp [expressionEnd])
  | constant hp =>
    exact (constantValue_spans hp).mono (by simp [expressionStart]) (by simp [expressionEnd])
  | bare hp =>
    exact (identifier_spans hp).mono (by simp [expressionStart]) (by simp [expressionEnd])
  | add _ hleft hplus _ hright =>
    have hsum := ((identifier_spans hleft).append (token_spans .add hplus)).append hright
    exact hsum.mono (by simp [expressionStart]) (by simp)
  | call _ hopening hname _ _ hfirst hothers =>
    obtain ⟨_, hothers⟩ := hothers
    have hname := (token_spans .openParen hopening).append (identifier_spans hname)
    exact ((hname.append hfirst).append hothers).mono (by simp [expressionStart])
      (by simp [expressionEnd])
  | close hclosing => exact ⟨_, (token_spans .closeParen hclosing).mono (by simp) (by simp)⟩
  | argument hlink _ _ hfirst hothers =>
    obtain ⟨_, hothers⟩ := hothers
    have hargument := (token_spans .and hlink).append hfirst
    exact ⟨_, (hargument.append hothers).mono (by simp) (by simp)⟩
  | assignment hp =>
    exact (assignment_spans hp).mono (by simp [statementStart]) (by simp [statementEnd])
  | increment hp =>
    exact (increment_spans hp).mono (by simp [statementStart]) (by simp [statementEnd])
  | goto hp => exact (goto_spans hp).mono (by simp [statementStart]) (by simp [statementEnd])
  | expression _ hstop he =>
    have hsentence := he.append (token_spans .period hstop)
    exact hsentence.mono (by simp [expressionStart, statementStart]) (by simp [statementEnd])
  | comment hp =>
    exact (comment_spans hp).mono (by simp [statementStart]) (by simp [statementEnd])
  | invalid hp =>
    exact (invalid_spans hp).mono (by simp [statementStart]) (by simp [statementEnd])
  | conditional _ hopening _ hlink _ hcomma _ _ hleft hright hfirst hothers =>
    have hcondition := (hleft.append (copula_spans hlink)).append hright
    have hbranch := ((token_spans .ifWord hopening).append hcondition).append
      (token_spans .comma hcomma)
    rcases hothers with rfl | ⟨_, hothers⟩
    · exact (hbranch.append hfirst).mono (by simp [statementStart]) (by simp)
    · exact ((hbranch.append hfirst).append hothers).mono (by simp [statementStart]) (by simp)
  | stop => exact .inl rfl
  | more _ _ hfirst hothers =>
    rcases hothers with rfl | ⟨_, hothers⟩
    · exact .inr ⟨_, hfirst⟩
    · exact .inr ⟨_, hfirst.append hothers⟩

theorem expression_spans :
    (Grammar.expression tokens ctx).Spans tokens expressionStart expressionEnd :=
  fun _ _ hp => (expression_derives hp).spanned

theorem constant_spans : (constant tokens ctx).Spans tokens [.constant] [.constant] :=
  constantValue_spans.as Expression.constant

theorem bareVariable_spans :
    (bareVariable tokens ctx).Spans tokens [.identifier] [.identifier] :=
  identifier_spans.as Expression.variable

theorem add_spans : (add tokens ctx).Spans tokens [.identifier] expressionEnd := by
  intro pos p hp
  obtain ⟨inner, _, hp⟩ := run_add.mp hp
  rw [run_addOf] at hp
  obtain ⟨left, hleft, hp⟩ := Option.bind_eq_some_iff.mp hp
  obtain ⟨plus, hplus, hp⟩ := Option.bind_eq_some_iff.mp hp
  obtain ⟨right, hright, hp⟩ := Option.bind_eq_some_iff.mp hp
  cases hp
  have hright := expression_spans hright
  exact ((identifier_spans hleft).append (token_spans .add hplus)).append hright

theorem functionCall_spans : (functionCall tokens ctx).Spans tokens [.openParen] [.closeParen] := by
  intro pos p hp
  obtain ⟨inner, _, hp⟩ := run_functionCall.mp hp
  rw [run_functionCallOf] at hp
  obtain ⟨opening, hopening, hp⟩ := Option.bind_eq_some_iff.mp hp
  obtain ⟨name, hname, hp⟩ := Option.bind_eq_some_iff.mp hp
  obtain ⟨first, hfirst, hp⟩ := Option.bind_eq_some_iff.mp hp
  obtain ⟨⟨others, seq⟩, hothers, hp⟩ := Option.bind_eq_some_iff.mp hp
  obtain ⟨hstart, hrest⟩ := arguments_derive expression_derives _ hothers
  obtain ⟨_, hrest⟩ := hrest.spanned
  cases hp
  simp only [Sequence.finish, hstart, Option.getD_some]
  exact (((token_spans .openParen hopening).append (identifier_spans hname)).append
    (expression_spans hfirst)).append hrest

theorem equality_spans : (equality tokens ctx).Spans tokens expressionStart expressionEnd := by
  intro pos p hp
  rw [run_equality] at hp
  obtain ⟨left, hleft, hp⟩ := Option.bind_eq_some_iff.mp hp
  obtain ⟨link, hlink, hp⟩ := Option.bind_eq_some_iff.mp hp
  obtain ⟨right, hright, hp⟩ := Option.bind_eq_some_iff.mp hp
  cases hp
  exact ((expression_spans hleft).append (copula_spans hlink)).append (expression_spans hright)

theorem reverseAssignment_spans :
    (reverseAssignment tokens ctx).Spans tokens expressionStart [.period] := by
  intro pos p hp
  rw [run_reverseAssignment] at hp
  obtain ⟨value, hvalue, hp⟩ := Option.bind_eq_some_iff.mp hp
  obtain ⟨verb, hverb, hp⟩ := Option.bind_eq_some_iff.mp hp
  obtain ⟨target, htarget, hp⟩ := Option.bind_eq_some_iff.mp hp
  obtain ⟨stop, hstop, hp⟩ := Option.bind_eq_some_iff.mp hp
  cases hp
  exact (((expression_spans hvalue).append (verb_spans hverb)).append
    (identifier_spans htarget)).append (token_spans .period hstop)

theorem expressionStatement_spans :
    (expressionStatement tokens ctx).Spans tokens expressionStart [.period] := by
  intro pos p hp
  rw [run_expressionStatement] at hp
  obtain ⟨expression, hexpression, hp⟩ := Option.bind_eq_some_iff.mp hp
  obtain ⟨stop, hstop, hp⟩ := Option.bind_eq_some_iff.mp hp
  cases hp
  exact (expression_spans hexpression).append (token_spans .period hstop)

theorem statement_spans :
    (statement strategy tokens ctx).Spans tokens statementStart statementEnd :=
  fun _ _ hp => (statement_derives hp).spanned

theorem block_spans : (block strategy tokens ctx).Spans tokens statementStart statementEnd := by
  intro pos p hp
  obtain ⟨first, others, hp, hfirst, hothers⟩ := block_derives statement_derives hp
  rw [hp]
  rcases hothers.spanned with hnext | ⟨_, hothers⟩
  · dsimp only
    rw [← hnext]
    exact hfirst.spanned
  · exact hfirst.spanned.append hothers

theorem conditional_spans :
    (conditional strategy tokens ctx).Spans tokens [.ifWord] statementEnd := by
  intro pos p hp
  obtain ⟨inner, _, hp⟩ := run_conditional.mp hp
  rw [run_conditionalOf] at hp
  obtain ⟨opening, hopening, hp⟩ := Option.bind_eq_some_iff.mp hp
  obtain ⟨condition, hcondition, hp⟩ := Option.bind_eq_some_iff.mp hp
  obtain ⟨comma, hcomma, hp⟩ := Option.bind_eq_some_iff.mp hp
  obtain ⟨body, hbody, hp⟩ := Option.bind_eq_some_iff.mp hp
  cases hp
  have hbody := block_spans hbody
  exact (((token_spans .ifWord hopening).append (equality_spans hcondition)).append
    (token_spans .comma hcomma)).append hbody

theorem bodyPart_spans : (bodyPart strategy tokens ctx).Spans tokens
    (statementStart ++ labelKinds) (statementEnd ++ labelKinds) := by
  intro pos p hp
  rw [run_bodyPart] at hp
  obtain ⟨c, hc, hp⟩ := Candidate.mem_of_chooseNearest hp
  simp only [List.mem_cons, List.not_mem_nil, or_false] at hc
  rcases hc with rfl | rfl
  · exact (block_spans.as BodyPart.block).mono (by simp) (by simp) hp
  · exact (label_spans.as BodyPart.label).mono (by simp) (by simp) hp

theorem bodyParts_spans (bound : Nat) {start next : Nat} {parts : List BodyPart} {seq : Sequence}
    (h : Id.run (bodyParts strategy tokens ctx bound ⟨some start, next⟩) = some (parts, seq)) :
    seq.start = some start ∧ (seq.position = next ∨ ∃ first, Spans tokens
      (statementStart ++ labelKinds) (statementEnd ++ labelKinds) next first seq.position) := by
  induction bound generalizing next parts seq with
  | zero =>
    cases h
    exact ⟨rfl, .inl rfl⟩
  | succ bound ih =>
    rw [run_bodyParts] at h
    cases hpart : Id.run (bodyPart strategy tokens ctx next) with
    | none =>
      rw [hpart] at h
      cases h
      exact ⟨rfl, .inl rfl⟩
    | some part =>
      rw [hpart] at h
      obtain ⟨⟨others, seq'⟩, hothers, h⟩ := Option.map_eq_some_iff.mp h
      cases h
      obtain ⟨hstart, hnext | ⟨first, hspan⟩⟩ := ih hothers
      · rw [hnext]
        exact ⟨hstart, .inr ⟨_, bodyPart_spans hpart⟩⟩
      · exact ⟨hstart, .inr ⟨_, (bodyPart_spans hpart).append hspan⟩⟩

theorem document_spans : (document strategy tokens ctx).Spans tokens [.itemNumber]
    (.procedures :: (statementEnd ++ labelKinds)) := by
  intro pos p hp
  rw [run_document] at hp
  obtain ⟨number, hnumber, hp⟩ := Option.bind_eq_some_iff.mp hp
  obtain ⟨objectClass, hclass, hp⟩ := Option.bind_eq_some_iff.mp hp
  obtain ⟨heading, hheading, hp⟩ := Option.bind_eq_some_iff.mp hp
  obtain ⟨⟨parts, seq⟩, hparts, hp⟩ := Option.bind_eq_some_iff.mp hp
  cases hp
  have hheader := ((itemNumber_spans hnumber).append (objectClass_spans hclass)).append
    (token_spans .procedures hheading)
  obtain ⟨hstart, hnext | ⟨first, hspan⟩⟩ := bodyParts_spans _ hparts
  · simp only [Sequence.finish, hstart, Option.getD_some, hnext]
    exact hheader.mono (by simp) (by simp)
  · simp only [Sequence.finish, hstart, Option.getD_some]
    exact (hheader.append hspan).mono (by simp) (by simp)

end Grammar

open Grammar in
/-- Whatever a production finds lies ahead within the stream, over at least one token, from one of
its opening kinds to one of its closing kinds. Only the end of the stream has no tokens. -/
theorem Production.rule_spans {strategy : Strategy} {ctx : Context} (p : Production)
    (hp : p ≠ .endOfStream) :
    Rule.Spans (p.rule strategy tokens ctx) tokens p.openings p.closings := by
  cases p with
  | token kind => exact token_spans kind
  | endOfStream => exact absurd rfl hp
  | identifier => exact identifier_spans
  | constantValue => exact constantValue_spans
  | verb => exact verb_spans
  | itemNumber => exact itemNumber_spans
  | objectClass => exact objectClass_spans
  | label => exact label_spans
  | square => exact square_spans
  | add => exact add_spans
  | constant => exact constant_spans
  | functionCall => exact functionCall_spans
  | «variable» => exact bareVariable_spans
  | expression => exact expression_spans
  | copula => exact copula_spans
  | equality => exact equality_spans
  | assignment => exact assignment_spans
  | reverseAssignment => exact reverseAssignment_spans
  | increment => exact increment_spans
  | goto => exact goto_spans
  | expressionStatement => exact expressionStatement_spans
  | comment => exact comment_spans
  | invalid => exact invalid_spans
  | conditional => exact conditional_spans
  | statement => exact statement_spans
  | block => exact block_spans
  | bodyPart => exact bodyPart_spans
  | document => exact document_spans

end Dossier
