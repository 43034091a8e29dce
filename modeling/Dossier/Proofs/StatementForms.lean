import Dossier.Proofs.Places
import Dossier.Proofs.Yield

namespace Dossier.Grammar

variable {tokens : List Token} {ctx : Context} {pos index next stop : Nat} {t : Token}
  {s : Statement} {e : Expression} {p : Parsed Statement} {strategy : Strategy}

theorem assignment_reaches (h : Id.run (assignment tokens ctx pos) = some p) :
    (Free tokens .period pos stop → stop < p.next) ∧
      (Free tokens .verb pos stop → stop < p.next) := by
  rw [run_assignment] at h
  obtain ⟨target, htarget, h⟩ := Option.bind_eq_some_iff.mp h
  obtain ⟨verb, hverb, h⟩ := Option.bind_eq_some_iff.mp h
  obtain ⟨value, hvalue, h⟩ := Option.bind_eq_some_iff.mp h
  obtain ⟨period, hperiod, h⟩ := Option.bind_eq_some_iff.mp h
  cases h
  have htarget := (identifier_covers htarget).le
  have hverb := run_verb.mp hverb
  obtain ⟨hverbFinds, hverbNext⟩ := run_token_eq_some_iff.mp hverb
  have hverbLe := hverbFinds.le
  have hvalue := (constantValue_covers hvalue).le
  obtain ⟨hperiodFinds, hperiodNext⟩ := run_token_eq_some_iff.mp hperiod
  have hperiodLe := hperiodFinds.le
  simp only at hverbNext hverbLe ⊢
  constructor
  · intro hfree
    have hle := hfree.le_start (by omega) hperiod
    omega
  · intro hfree
    have hle := hfree.le_start (by omega) hverb
    simp only at hle
    omega

theorem increment_reaches (h : Id.run (increment tokens ctx pos) = some p) :
    (Free tokens .period pos stop → stop < p.next) ∧
      (Free tokens .increment pos stop → stop < p.next) := by
  rw [run_increment] at h
  obtain ⟨target, htarget, h⟩ := Option.bind_eq_some_iff.mp h
  obtain ⟨phrase, hphrase, h⟩ := Option.bind_eq_some_iff.mp h
  obtain ⟨period, hperiod, h⟩ := Option.bind_eq_some_iff.mp h
  cases h
  have htarget := (identifier_covers htarget).le
  obtain ⟨hphraseFinds, hphraseNext⟩ := run_token_eq_some_iff.mp hphrase
  have hphraseLe := hphraseFinds.le
  obtain ⟨hperiodFinds, hperiodNext⟩ := run_token_eq_some_iff.mp hperiod
  have hperiodLe := hperiodFinds.le
  constructor
  · intro hfree
    have hle := hfree.le_start (by omega) hperiod
    simp only
    omega
  · intro hfree
    have hle := hfree.le_start (by omega) hphrase
    simp only
    omega

theorem expressionStatement_reaches (h : Id.run (expressionStatement tokens ctx pos) = some p)
    (hfree : Free tokens .period pos stop) : stop < p.next := by
  rw [run_expressionStatement] at h
  obtain ⟨found, hfound, h⟩ := Option.bind_eq_some_iff.mp h
  obtain ⟨period, hperiod, h⟩ := Option.bind_eq_some_iff.mp h
  cases h
  have hfound : Covers tokens pos (found.value.wording .bare) found.next :=
    (expression_derives hfound).covered
  have hle := hfree.le_start hfound.le hperiod
  obtain ⟨_, hperiodNext⟩ := run_token_eq_some_iff.mp hperiod
  simp only
  omega

theorem run_statement_exhaustive :
    Id.run (statement .exhaustive tokens ctx pos) = Candidate.chooseNearest
      [⟨Id.run (conditional .exhaustive tokens ctx pos), false⟩,
        ⟨Id.run (assignment tokens ctx pos), false⟩, ⟨Id.run (increment tokens ctx pos), false⟩,
        ⟨Id.run (goto tokens ctx pos), false⟩, ⟨Id.run (expressionStatement tokens ctx pos), false⟩,
        ⟨Id.run (comment tokens ctx pos), false⟩, ⟨Id.run (invalid tokens ctx pos), false⟩] := by
  rw [statement_eq, run_statementOf]
  rfl

/-- An assignment wins whose period is the first one ahead, if no other form without a statement in
it can start before it and a conditional starts only behind it. -/
theorem statement_of_first_assignment {name : String}
    (hfirst : ∀ kind ∈ statementStart, kind ≠ .ifWord → Free tokens kind pos index)
    (hbranch : ∀ q, Id.run (conditional .exhaustive tokens ctx pos) = some q → index < q.start)
    (ht : tokens[index]? = some (.identifier name)) (hfree : Free tokens .period pos stop)
    (hp : Id.run (assignment tokens ctx pos) = some ⟨s, index, stop + 1⟩) :
    Id.run (statement .exhaustive tokens ctx pos) = some ⟨s, index, stop + 1⟩ := by
  have hk : (Token.identifier name).kind = .identifier := rfl
  have hpassed : ∀ kinds : List Kind, (∀ kind ∈ kinds, kind ∈ statementStart ∧ kind ≠ .ifWord) →
      ∀ kind ∈ kinds, Free tokens kind pos index :=
    fun kinds h kind hmem => hfirst kind (h kind hmem).1 (h kind hmem).2
  rw [run_statement_exhaustive, hp]
  refine Candidate.chooseNearest_of_wins [_] false [_, _, _, _, _] ?_ ?_
  · simp only [List.mem_singleton, forall_eq]
    intro q hq
    exact .inl (hbranch q hq)
  · simp only [List.mem_cons, List.not_mem_nil, or_false, forall_eq_or_imp, forall_eq]
    refine ⟨?_, ?_, ?_, ?_, ?_⟩
    · intro q hq
      have hreach := (increment_reaches hq).1 hfree
      exact Candidate.loses_of_behind
        (increment_spans.opens.le_start_of_free (hpassed _ (by decide)) hq) hreach
    · intro q hq
      exact .inl (goto_spans.opens.later_of_free (hpassed _ (by decide)) ht (by rw [hk]; decide) hq)
    · intro q hq
      have hreach := expressionStatement_reaches hq hfree
      exact Candidate.loses_of_behind
        (expressionStatement_spans.opens.le_start_of_free (hpassed _ (by decide)) hq) hreach
    · intro q hq
      exact .inl
        (comment_spans.opens.later_of_free (hpassed _ (by decide)) ht (by rw [hk]; decide) hq)
    · intro q hq
      exact .inl
        (invalid_spans.opens.later_of_free (hpassed _ (by decide)) ht (by rw [hk]; decide) hq)

/-- At an identifier an assignment wins whose period is the first one behind it. -/
theorem statement_of_assignment {name : String} (hclear : Clear tokens pos index)
    (ht : tokens[index]? = some (.identifier name)) (hfree : Free tokens .period pos stop)
    (hp : Id.run (assignment tokens ctx pos) = some ⟨s, index, stop + 1⟩) :
    Id.run (statement .exhaustive tokens ctx pos) = some ⟨s, index, stop + 1⟩ := by
  have hk : (Token.identifier name).kind = .identifier := rfl
  refine statement_of_first_assignment (fun kind hmem _ => hclear.free ?_) (fun q hq => ?_) ht hfree
    hp
  · exact ne_of_mem_of_not_mem hmem (by decide)
  · exact conditional_spans.opens.later hclear ht (by decide) (by rw [hk]; decide) hq

/-- At an identifier an increment wins that ends before the next verb and at the first period. -/
theorem statement_of_increment {name : String} (hclear : Clear tokens pos index)
    (ht : tokens[index]? = some (.identifier name)) (hfree : Free tokens .period pos stop)
    (hverb : Free tokens .verb pos (stop + 1))
    (hp : Id.run (increment tokens ctx pos) = some ⟨s, index, stop + 1⟩) :
    Id.run (statement .exhaustive tokens ctx pos) = some ⟨s, index, stop + 1⟩ := by
  have hk : (Token.identifier name).kind = .identifier := rfl
  rw [run_statement_exhaustive, hp]
  refine Candidate.chooseNearest_of_wins [_, _] false [_, _, _, _] ?_ ?_
  · simp only [List.mem_cons, List.not_mem_nil, or_false, forall_eq_or_imp, forall_eq]
    refine ⟨?_, ?_⟩
    · intro q hq
      exact .inl (conditional_spans.opens.later hclear ht (by decide) (by rw [hk]; decide) hq)
    · intro q hq
      have hreach := (assignment_reaches hq).2 hverb
      exact Candidate.beaten_of_behind
        (assignment_spans.opens.le_start hclear (by decide) hq) hreach
  · simp only [List.mem_cons, List.not_mem_nil, or_false, forall_eq_or_imp, forall_eq]
    refine ⟨?_, ?_, ?_, ?_⟩
    · intro q hq
      exact .inl (goto_spans.opens.later hclear ht (by decide) (by rw [hk]; decide) hq)
    · intro q hq
      have hreach := expressionStatement_reaches hq hfree
      exact Candidate.loses_of_behind
        (expressionStatement_spans.opens.le_start hclear (by decide) hq) hreach
    · intro q hq
      exact .inl (comment_spans.opens.later hclear ht (by decide) (by rw [hk]; decide) hq)
    · intro q hq
      exact .inl (invalid_spans.opens.later hclear ht (by decide) (by rw [hk]; decide) hq)

/-- An expression statement wins that ends before the next verb and the next `will generate a new
instance`. -/
theorem statement_of_expression (hclear : Clear tokens pos index)
    (hverb : Free tokens .verb pos next) (hincrement : Free tokens .increment pos next)
    (hp : Id.run (expressionStatement tokens ctx pos) = some ⟨s, index, next⟩) :
    Id.run (statement .exhaustive tokens ctx pos) = some ⟨s, index, next⟩ := by
  obtain ⟨_, t, ht, hmem⟩ := expressionStatement_spans.opens pos _ hp
  have hkind : ∀ kinds : List Kind, (∀ k ∈ expressionStart, k ∉ kinds) → t.kind ∉ kinds :=
    fun kinds h => h t.kind hmem
  rw [run_statement_exhaustive, hp]
  refine Candidate.chooseNearest_of_wins [_, _, _, _] false [_, _] ?_ ?_
  · simp only [List.mem_cons, List.not_mem_nil, or_false, forall_eq_or_imp, forall_eq]
    refine ⟨?_, ?_, ?_, ?_⟩
    · intro q hq
      exact .inl (conditional_spans.opens.later hclear ht (by decide) (hkind _ (by decide)) hq)
    · intro q hq
      have hreach := (assignment_reaches hq).2 hverb
      exact Candidate.beaten_of_behind
        (assignment_spans.opens.le_start hclear (by decide) hq) hreach
    · intro q hq
      have hreach := (increment_reaches hq).2 hincrement
      exact Candidate.beaten_of_behind (increment_spans.opens.le_start hclear (by decide) hq) hreach
    · intro q hq
      exact .inl (goto_spans.opens.later hclear ht (by decide) (hkind _ (by decide)) hq)
  · simp only [List.mem_cons, List.not_mem_nil, or_false, forall_eq_or_imp, forall_eq]
    refine ⟨?_, ?_⟩
    · intro q hq
      exact .inl (comment_spans.opens.later hclear ht (by decide) (hkind _ (by decide)) hq)
    · intro q hq
      exact .inl (invalid_spans.opens.later hclear ht (by decide) (hkind _ (by decide)) hq)

/-- The forms of statement in the order in which they are listed. -/
def statementForms (tokens : List Token) (ctx : Context) : List (Alternative tokens Statement) :=
  [⟨conditional .exhaustive tokens ctx, [.ifWord], false, conditional_spans.opens⟩,
    ⟨assignment tokens ctx, [.identifier], false, assignment_spans.opens⟩,
    ⟨increment tokens ctx, [.identifier], false, increment_spans.opens⟩,
    ⟨goto tokens ctx, [.see], false, goto_spans.opens⟩,
    ⟨expressionStatement tokens ctx, expressionStart, false, expressionStatement_spans.opens⟩,
    ⟨comment tokens ctx, [.commentStart], false, comment_spans.opens⟩,
    ⟨invalid tokens ctx, [.period], false, invalid_spans.opens⟩]

theorem run_statement_forms :
    Id.run (statement .exhaustive tokens ctx pos) =
      Candidate.chooseNearest ((statementForms tokens ctx).map (Alternative.candidate pos)) :=
  run_statement_exhaustive

/-- At an `If` only a conditional can start. -/
theorem statement_of_conditional (hclear : Clear tokens pos index)
    (ht : tokens[index]? = some .ifWord)
    (hp : Id.run (conditional .exhaustive tokens ctx pos) = some ⟨s, index, next⟩) :
    Id.run (statement .exhaustive tokens ctx pos) = some ⟨s, index, next⟩ :=
  run_statement_forms.trans <| Alternative.chosen_of_only [] [_, _, _, _, _, _] hclear ht
    (by simp [Token.kind, expressionStart]) hp

/-- At a `See` only a jump can start. -/
theorem statement_of_goto (hclear : Clear tokens pos index) (ht : tokens[index]? = some .see)
    (hp : Id.run (goto tokens ctx pos) = some ⟨s, index, next⟩) :
    Id.run (statement .exhaustive tokens ctx pos) = some ⟨s, index, next⟩ :=
  run_statement_forms.trans <| Alternative.chosen_of_only [_, _, _] [_, _, _] hclear ht
    (by simp [Token.kind, expressionStart]) hp

/-- At the start of a comment only a comment can start. -/
theorem statement_of_comment (hclear : Clear tokens pos index)
    (ht : tokens[index]? = some .commentStart)
    (hp : Id.run (comment tokens ctx pos) = some ⟨s, index, next⟩) :
    Id.run (statement .exhaustive tokens ctx pos) = some ⟨s, index, next⟩ :=
  run_statement_forms.trans <| Alternative.chosen_of_only [_, _, _, _, _] [_] hclear ht
    (by simp [Token.kind, expressionStart]) hp

/-- At a period only the statement that means nothing can start. -/
theorem statement_of_invalid (hclear : Clear tokens pos index)
    (ht : tokens[index]? = some .period)
    (hp : Id.run (invalid tokens ctx pos) = some ⟨s, index, next⟩) :
    Id.run (statement .exhaustive tokens ctx pos) = some ⟨s, index, next⟩ :=
  run_statement_forms.trans <| Alternative.chosen_of_only [_, _, _, _, _, _] [] hclear ht
    (by simp [Token.kind, expressionStart]) hp

theorem assignment_value (h : Id.run (assignment tokens ctx pos) = some p) :
    ∃ target value, p.value = .assignment target value := by
  rw [run_assignment] at h
  obtain ⟨target, _, h⟩ := Option.bind_eq_some_iff.mp h
  obtain ⟨verb, _, h⟩ := Option.bind_eq_some_iff.mp h
  obtain ⟨value, _, h⟩ := Option.bind_eq_some_iff.mp h
  obtain ⟨stop, _, h⟩ := Option.bind_eq_some_iff.mp h
  cases h
  exact ⟨target.value, .constant value.value, rfl⟩

theorem increment_value (h : Id.run (increment tokens ctx pos) = some p) :
    ∃ target, p.value = .increment target := by
  rw [run_increment] at h
  obtain ⟨target, _, h⟩ := Option.bind_eq_some_iff.mp h
  obtain ⟨phrase, _, h⟩ := Option.bind_eq_some_iff.mp h
  obtain ⟨stop, _, h⟩ := Option.bind_eq_some_iff.mp h
  cases h
  exact ⟨target.value, rfl⟩

theorem goto_value (h : Id.run (goto tokens ctx pos) = some p) :
    ∃ label, p.value = .goto label := by
  rw [run_goto] at h
  obtain ⟨see, _, h⟩ := Option.bind_eq_some_iff.mp h
  obtain ⟨label, _, h⟩ := Option.bind_eq_some_iff.mp h
  obtain ⟨stop, _, h⟩ := Option.bind_eq_some_iff.mp h
  cases h
  exact ⟨label.value, rfl⟩

theorem expression_of_expressionStatement
    (h : Id.run (expressionStatement tokens ctx pos) = some p) :
    ∃ q, Id.run (expression tokens ctx pos) = some q ∧ p.value = .expression q.value := by
  rw [run_expressionStatement] at h
  obtain ⟨q, hq, h⟩ := Option.bind_eq_some_iff.mp h
  obtain ⟨stop, _, h⟩ := Option.bind_eq_some_iff.mp h
  cases h
  exact ⟨q, hq, rfl⟩

theorem comment_value (h : Id.run (comment tokens ctx pos) = some p) : p.value = .comment := by
  rw [run_comment] at h
  obtain ⟨opening, _, h⟩ := Option.bind_eq_some_iff.mp h
  obtain ⟨closing, _, h⟩ := Option.bind_eq_some_iff.mp h
  cases h
  rfl

theorem invalid_value (h : Id.run (invalid tokens ctx pos) = some p) : p.value = .invalid := by
  rw [run_invalid] at h
  obtain ⟨stop, _, h⟩ := Option.bind_eq_some_iff.mp h
  cases h
  rfl

/-- The parts of a conditional, found one behind the other from behind its `If`. -/
structure ConditionalParts (tokens : List Token) (ctx : Context) (body : Rule Id Block) (pos : Nat)
    (left : Parsed Expression) (link : Parsed Verb) (right : Parsed Expression)
    (comma : Parsed Token) (block : Parsed Block) : Prop where
  left_found : Id.run (expression tokens ctx pos) = some left
  link_found : Id.run (copula tokens ctx left.next) = some link
  right_found : Id.run (expression tokens ctx link.next) = some right
  comma_found : Id.run (token tokens ctx .comma right.next) = some comma
  block_found : Id.run (body comma.next) = some block

theorem ConditionalParts.equality {body : Rule Id Block} {left right : Parsed Expression}
    {link : Parsed Verb} {comma : Parsed Token} {block : Parsed Block}
    (h : ConditionalParts tokens ctx body pos left link right comma block) :
    Id.run (equality tokens ctx pos) =
      some ⟨⟨left.value, right.value⟩, left.start, right.next⟩ := by
  rw [run_equality]
  simp [h.left_found, h.link_found, h.right_found]

theorem parts_of_conditionalOf {body : Rule Id Block} {opening : Parsed Token}
    (hopening : Id.run (token tokens ctx .ifWord pos) = some opening)
    (h : Id.run (conditionalOf tokens ctx body pos) = some p) :
    ∃ left link right comma block,
      ConditionalParts tokens ctx body opening.next left link right comma block ∧
        p.value = .conditional ⟨left.value, right.value⟩ block.value := by
  rw [run_conditionalOf, hopening] at h
  simp only [Option.bind_eq_bind, Option.bind_some] at h
  obtain ⟨condition, hcondition, h⟩ := Option.bind_eq_some_iff.mp h
  obtain ⟨comma, hcomma, h⟩ := Option.bind_eq_some_iff.mp h
  obtain ⟨block, hblock, h⟩ := Option.bind_eq_some_iff.mp h
  rw [run_equality] at hcondition
  obtain ⟨left, hleft, hcondition⟩ := Option.bind_eq_some_iff.mp hcondition
  obtain ⟨link, hlink, hcondition⟩ := Option.bind_eq_some_iff.mp hcondition
  obtain ⟨right, hright, hcondition⟩ := Option.bind_eq_some_iff.mp hcondition
  cases hcondition
  cases h
  exact ⟨left, link, right, comma, block, ⟨hleft, hlink, hright, hcomma, hblock⟩, rfl⟩

theorem conditional_value (h : Id.run (conditional strategy tokens ctx pos) = some p) :
    ∃ condition body, p.value = .conditional condition body := by
  obtain ⟨inner, _, h⟩ := run_conditional.mp h
  rw [run_conditionalOf] at h
  obtain ⟨opening, _, h⟩ := Option.bind_eq_some_iff.mp h
  obtain ⟨condition, _, h⟩ := Option.bind_eq_some_iff.mp h
  obtain ⟨comma, _, h⟩ := Option.bind_eq_some_iff.mp h
  obtain ⟨block, _, h⟩ := Option.bind_eq_some_iff.mp h
  cases h
  exact ⟨condition.value, block.value, rfl⟩

/-- What is read as an expression statement was found as one. -/
theorem expressionStatement_of_statement
    (h : Id.run (statement .exhaustive tokens ctx pos) = some p)
    (hvalue : p.value = .expression e) :
    Id.run (expressionStatement tokens ctx pos) = some p := by
  rw [run_statement_exhaustive] at h
  obtain ⟨c, hc, hp⟩ := Candidate.mem_of_chooseNearest h
  simp only [List.mem_cons, List.not_mem_nil, or_false] at hc
  rcases hc with rfl | rfl | rfl | rfl | rfl | rfl | rfl
  · obtain ⟨_, _, hother⟩ := conditional_value hp
    cases hvalue.symm.trans hother
  · obtain ⟨_, _, hother⟩ := assignment_value hp
    cases hvalue.symm.trans hother
  · obtain ⟨_, hother⟩ := increment_value hp
    cases hvalue.symm.trans hother
  · obtain ⟨_, hother⟩ := goto_value hp
    cases hvalue.symm.trans hother
  · exact hp
  · cases hvalue.symm.trans (comment_value hp)
  · cases hvalue.symm.trans (invalid_value hp)

/-- What is read as a conditional was found as one. -/
theorem conditional_of_statement {condition : Equality} {body : Block}
    (h : Id.run (statement .exhaustive tokens ctx pos) = some p)
    (hvalue : p.value = .conditional condition body) :
    Id.run (conditional .exhaustive tokens ctx pos) = some p := by
  rw [run_statement_exhaustive] at h
  obtain ⟨c, hc, hp⟩ := Candidate.mem_of_chooseNearest h
  simp only [List.mem_cons, List.not_mem_nil, or_false] at hc
  rcases hc with rfl | rfl | rfl | rfl | rfl | rfl | rfl
  · exact hp
  · obtain ⟨_, _, hother⟩ := assignment_value hp
    cases hvalue.symm.trans hother
  · obtain ⟨_, hother⟩ := increment_value hp
    cases hvalue.symm.trans hother
  · obtain ⟨_, hother⟩ := goto_value hp
    cases hvalue.symm.trans hother
  · obtain ⟨_, _, hother⟩ := expression_of_expressionStatement hp
    cases hvalue.symm.trans hother
  · cases hvalue.symm.trans (comment_value hp)
  · cases hvalue.symm.trans (invalid_value hp)

end Dossier.Grammar
