import Mathlib.Data.List.Forall2
import Dossier.Parse
import Dossier.Proofs.Derivation
import Dossier.Proofs.Memory
import Dossier.Proofs.Search
import Dossier.Wording

namespace Dossier

variable {tokens : List Token} {ctx : Context} {strategy : Strategy}

/-- The places are filled, in their order, by tokens that stand at or after one position and before
another. -/
inductive Covers (tokens : List Token) : Nat → List Slot → Nat → Prop where
  | nil {pos next} : pos ≤ next → Covers tokens pos [] next
  | cons {pos index slot slots next t} : pos ≤ index → tokens[index]? = some t → slot.Accepts t →
    Covers tokens (index + 1) slots next → Covers tokens pos (slot :: slots) next

namespace Covers

variable {pos pos' next next' : Nat} {slots others : List Slot}

theorem earlier (h : Covers tokens pos slots next) (hle : pos' ≤ pos) :
    Covers tokens pos' slots next := by
  cases h with
  | nil hpos => exact .nil (Nat.le_trans hle hpos)
  | cons hpos hget hslot hrest => exact .cons (Nat.le_trans hle hpos) hget hslot hrest

theorem le (h : Covers tokens pos slots next) : pos ≤ next := by
  induction h with
  | nil hpos => exact hpos
  | cons hpos _ _ _ ih => omega

theorem append (h : Covers tokens pos slots next) (h' : Covers tokens next others next') :
    Covers tokens pos (slots ++ others) next' := by
  induction h with
  | nil hpos => exact h'.earlier hpos
  | cons hpos hget hslot _ ih => exact .cons hpos hget hslot (ih h')

/-- Tokens that fill places make up a part of the stream. -/
theorem sublist (h : Covers tokens pos slots next) :
    ∃ words, List.Forall₂ Slot.Accepts slots words ∧ words.Sublist (tokens.drop pos) := by
  induction h with
  | nil _ => exact ⟨[], .nil, List.nil_sublist _⟩
  | @cons pos index slot slots next t hpos hget hslot _ ih =>
    obtain ⟨words, hwords, hsub⟩ := ih
    exact ⟨t :: words, .cons hslot hwords, cons_sublist_drop hget hpos hsub⟩

/-- A token that was searched for fills its place. -/
theorem token {kind : Kind} {p : Parsed Token} {slot : Slot}
    (h : Id.run (Grammar.token tokens ctx kind pos) = some p) (hslot : slot.Accepts p.value) :
    Covers tokens pos [slot] p.next := by
  obtain ⟨hfinds, hnext⟩ := run_token_eq_some_iff.mp h
  exact .cons hfinds.le hfinds.at_index hslot (.nil (Nat.le_of_eq hnext.symm))

end Covers

namespace Grammar

variable {pos : Nat}

theorem identifier_covers {p : Parsed String} (h : Id.run (identifier tokens ctx pos) = some p) :
    Covers tokens pos [.fixed (.identifier p.value)] p.next :=
  .token (run_identifier.mp h) rfl

theorem constantValue_covers {p : Parsed Nat}
    (h : Id.run (constantValue tokens ctx pos) = some p) :
    Covers tokens pos [.fixed (.constant p.value)] p.next :=
  .token (run_constantValue.mp h) rfl

theorem token_covers {kind : Kind} {p : Parsed Token} {t : Token}
    (h : Id.run (token tokens ctx kind pos) = some p) (ht : kind.token? = some t) :
    Covers tokens pos [.fixed t] p.next := by
  obtain ⟨hfinds, _⟩ := run_token_eq_some_iff.mp h
  refine .token h (Token.eq_of_kind ?_)
  rw [hfinds.kind_eq, ht]

/-- A token that may be left out moves the search on or leaves it where it is. -/
theorem le_nextOr (kind : Kind) : pos ≤ (Id.run (token tokens ctx kind pos)).nextOr pos := by
  cases h : Id.run (token tokens ctx kind pos) with
  | none => exact Nat.le_refl pos
  | some p =>
    obtain ⟨hfinds, hnext⟩ := run_token_eq_some_iff.mp h
    have hle := hfinds.le
    change pos ≤ p.next
    omega

theorem label_covers {p : Parsed Label} (h : Id.run (label tokens ctx pos) = some p) :
    Covers tokens pos [.fixed p.value.token] p.next := by
  rw [run_label] at h
  obtain ⟨c, hc, hp⟩ := Candidate.mem_of_chooseNearest h
  simp only [List.mem_cons, List.not_mem_nil, or_false] at hc
  rcases hc with rfl | rfl
  · obtain ⟨q, hq, hread⟩ := Option.bind_eq_some_iff.mp hp
    obtain ⟨value, hvalue, rfl⟩ := Option.map_eq_some_iff.mp hread
    refine .token hq ?_
    obtain ⟨t, start, next⟩ := q
    cases t <;> cases hvalue
    rfl
  · simp only [Outcome.as_eq_some_iff] at hp
    obtain ⟨q, hq, rfl⟩ := hp
    exact token_covers hq rfl

theorem square_covers {p : Parsed Expression} (h : Id.run (square tokens ctx pos) = some p) :
    Covers tokens pos (p.value.wording .bare) p.next := by
  rw [run_square] at h
  obtain ⟨phrase, hphrase, h⟩ := Option.bind_eq_some_iff.mp h
  obtain ⟨name, hname, h⟩ := Option.bind_eq_some_iff.mp h
  cases h
  have hopening := token_covers hphrase rfl
  have hclosing := (identifier_covers hname).earlier (le_nextOr .of)
  exact (hopening.earlier (le_nextOr .the)).append hclosing

theorem assignment_covers {p : Parsed Statement}
    (h : Id.run (assignment tokens ctx pos) = some p) :
    Covers tokens pos (p.value.wording .bare) p.next := by
  rw [run_assignment] at h
  obtain ⟨target, htarget, h⟩ := Option.bind_eq_some_iff.mp h
  obtain ⟨verb, hverb, h⟩ := Option.bind_eq_some_iff.mp h
  obtain ⟨value, hvalue, h⟩ := Option.bind_eq_some_iff.mp h
  obtain ⟨stop, hstop, h⟩ := Option.bind_eq_some_iff.mp h
  cases h
  have hverb : Covers tokens target.next [.anyVerb] verb.next := .token (run_verb.mp hverb) rfl
  have hstop := token_covers hstop rfl
  exact (identifier_covers htarget).append
    (hverb.append ((constantValue_covers hvalue).append hstop))

theorem increment_covers {p : Parsed Statement} (h : Id.run (increment tokens ctx pos) = some p) :
    Covers tokens pos (p.value.wording .bare) p.next := by
  rw [run_increment] at h
  obtain ⟨target, htarget, h⟩ := Option.bind_eq_some_iff.mp h
  obtain ⟨phrase, hphrase, h⟩ := Option.bind_eq_some_iff.mp h
  obtain ⟨stop, hstop, h⟩ := Option.bind_eq_some_iff.mp h
  cases h
  have hphrase := token_covers hphrase rfl
  have hstop := token_covers hstop rfl
  exact (identifier_covers htarget).append (hphrase.append hstop)

theorem goto_covers {p : Parsed Statement} (h : Id.run (goto tokens ctx pos) = some p) :
    Covers tokens pos (p.value.wording .bare) p.next := by
  rw [run_goto] at h
  obtain ⟨see, hsee, h⟩ := Option.bind_eq_some_iff.mp h
  obtain ⟨label, hlabel, h⟩ := Option.bind_eq_some_iff.mp h
  obtain ⟨stop, hstop, h⟩ := Option.bind_eq_some_iff.mp h
  cases h
  have hsee := token_covers hsee rfl
  have hstop := token_covers hstop rfl
  exact hsee.append ((label_covers hlabel).append hstop)

theorem comment_covers {p : Parsed Statement} (h : Id.run (comment tokens ctx pos) = some p) :
    Covers tokens pos (p.value.wording .bare) p.next := by
  rw [run_comment] at h
  obtain ⟨opening, hopening, h⟩ := Option.bind_eq_some_iff.mp h
  obtain ⟨closing, hclosing, h⟩ := Option.bind_eq_some_iff.mp h
  cases h
  have hopening := token_covers hopening rfl
  have hclosing := token_covers hclosing rfl
  exact hopening.append hclosing

theorem invalid_covers {p : Parsed Statement} (h : Id.run (invalid tokens ctx pos) = some p) :
    Covers tokens pos (p.value.wording .bare) p.next := by
  rw [run_invalid] at h
  obtain ⟨stop, hstop, h⟩ := Option.bind_eq_some_iff.mp h
  cases h
  exact token_covers hstop rfl

end Grammar

/-- The words of what was found stand between where it was looked for and where it ends. -/
def Finding.Covered (tokens : List Token) : Finding → Prop
  | expression _ pos p => Covers tokens pos (p.value.wording .bare) p.next
  | arguments _ pos args next => Covers tokens pos (Expression.furtherWording .bare args) next
  | statement _ pos p => Covers tokens pos (p.value.wording .bare) p.next
  | statements _ pos block next => Covers tokens pos (Statement.blockWording .bare block) next

namespace Grammar

/-- Every rule of the grammar puts the words of its parts in a row. -/
theorem Derives.covered {finding : Finding} (h : Derives tokens finding) :
    finding.Covered tokens := by
  induction h with
  | square hp => exact square_covers hp
  | constant hp => exact constantValue_covers hp
  | bare hp => exact identifier_covers hp
  | add _ hleft hplus _ hright =>
    have hplus := token_covers hplus rfl
    exact (identifier_covers hleft).append (hplus.append hright)
  | call _ hopening hname _ _ hfirst hothers =>
    have hopening := token_covers hopening rfl
    exact hopening.append ((identifier_covers hname).append (hfirst.append hothers))
  | close hclosing => exact token_covers hclosing rfl
  | argument hlink _ _ hfirst hothers =>
    have hlink := token_covers hlink rfl
    exact hlink.append (hfirst.append hothers)
  | assignment hp => exact assignment_covers hp
  | increment hp => exact increment_covers hp
  | goto hp => exact goto_covers hp
  | expression _ hstop he =>
    have hstop := token_covers hstop rfl
    exact he.append hstop
  | comment hp => exact comment_covers hp
  | invalid hp => exact invalid_covers hp
  | @conditional _ _ _ _ left link _ _ _ _ _ _ hopening _ hlink _ hcomma _ _ hleft hright hfirst
      hothers =>
    have hopening := token_covers hopening rfl
    have hcomma := token_covers hcomma rfl
    obtain ⟨his, hverb⟩ := run_copula.mp hlink
    have hlink : Covers tokens left.next [.fixed (.verb .is)] link.next :=
      .token (run_verb.mp hverb) (by rw [his]; rfl)
    exact hopening.append (hleft.append (hlink.append (hright.append (hcomma.append
      (hfirst.append hothers)))))
  | stop => exact .nil (Nat.le_refl _)
  | more _ _ hfirst hothers => exact hfirst.append hothers

variable {pos : Nat}

theorem block_covers {p : Parsed Block} (h : Id.run (block strategy tokens ctx pos) = some p) :
    Covers tokens pos (Statement.blockWording .bare p.value) p.next := by
  obtain ⟨first, others, hp, hfirst, hothers⟩ := block_derives statement_derives h
  rw [hp]
  exact hfirst.covered.append hothers.covered

theorem bodyPart_covers {p : Parsed BodyPart}
    (h : Id.run (bodyPart strategy tokens ctx pos) = some p) :
    Covers tokens pos (p.value.wording .bare) p.next := by
  rw [run_bodyPart] at h
  obtain ⟨c, hc, hp⟩ := Candidate.mem_of_chooseNearest h
  simp only [List.mem_cons, List.not_mem_nil, or_false] at hc
  rcases hc with rfl | rfl
  · obtain ⟨q, hq, rfl⟩ := Outcome.as_eq_some_iff.mp hp
    simpa [BodyPart.wording, Style.optional] using block_covers hq
  · obtain ⟨q, hq, rfl⟩ := Outcome.as_eq_some_iff.mp hp
    exact label_covers hq

theorem bodyParts_covers (bound : Nat) {start next : Nat} {parts : List BodyPart} {seq : Sequence}
    (h : Id.run (bodyParts strategy tokens ctx bound ⟨some start, next⟩) = some (parts, seq)) :
    Covers tokens next (Document.bodyWording .bare parts) seq.position := by
  induction bound generalizing next parts seq with
  | zero =>
    cases h
    exact .nil (Nat.le_refl _)
  | succ bound ih =>
    rw [run_bodyParts] at h
    cases hpart : Id.run (bodyPart strategy tokens ctx next) with
    | none =>
      rw [hpart] at h
      cases h
      exact .nil (Nat.le_refl _)
    | some part =>
      rw [hpart] at h
      obtain ⟨⟨others, seq'⟩, hothers, h⟩ := Option.map_eq_some_iff.mp h
      cases h
      exact (bodyPart_covers hpart).append (ih hothers)

theorem document_covers {p : Parsed Document}
    (h : Id.run (document strategy tokens ctx pos) = some p) :
    Covers tokens pos (p.value.wording .bare) p.next := by
  rw [run_document] at h
  obtain ⟨number, hnumber, h⟩ := Option.bind_eq_some_iff.mp h
  obtain ⟨objectClass, hclass, h⟩ := Option.bind_eq_some_iff.mp h
  obtain ⟨heading, hheading, h⟩ := Option.bind_eq_some_iff.mp h
  obtain ⟨⟨parts, seq⟩, hparts, h⟩ := Option.bind_eq_some_iff.mp h
  cases h
  have hnumber : Covers tokens pos [.fixed (.itemNumber number.value)] number.next :=
    .token (run_itemNumber.mp hnumber) rfl
  have hclass : Covers tokens number.next [.fixed (.objectClass objectClass.value)]
      objectClass.next := .token (run_objectClass.mp hclass) rfl
  have hheading := token_covers hheading rfl
  exact hnumber.append (hclass.append (hheading.append (bodyParts_covers _ hparts)))

end Grammar

namespace Document

/-- Whatever document is found, its words are among the tokens, in the order of the document and at
increasing positions. -/
theorem wording_sublist (tokens : List Token) (doc : Document) (h : ofTokens tokens = .ok doc) :
    ∃ words, List.Forall₂ Slot.Accepts (doc.wording .bare) words ∧ words.Sublist tokens := by
  obtain ⟨found, hfound, rfl⟩ := ofTokensBy_eq_ok_iff.mp h
  exact (Grammar.document_covers hfound).sublist

theorem ofTokens_comment :
    ofTokens [.itemNumber 7, .objectClass .safe, .procedures, .tildes, .commentStart, .tildes,
        .commentEnd, .rule, .description] =
      .ok ⟨7, .safe, [.block [.comment], .label .description]⟩ := by
  refine ofTokensBy_eq_ok_iff.mpr
    ⟨⟨⟨7, .safe, [.block [.comment], .label .description]⟩, 0, 9⟩, ?_, rfl⟩
  cbv

/-- A comment and a label, with tokens around them that mean nothing. -/
theorem wording_sublist_of_comment :
    ∃ words, List.Forall₂ Slot.Accepts
        ((⟨7, .safe, [.block [.comment], .label .description]⟩ : Document).wording .bare) words ∧
      words.Sublist [.itemNumber 7, .objectClass .safe, .procedures, .tildes, .commentStart,
        .tildes, .commentEnd, .rule, .description] :=
  wording_sublist _ _ ofTokens_comment

end Document

end Dossier
