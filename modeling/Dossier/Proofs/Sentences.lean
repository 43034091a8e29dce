import Dossier.Proofs.Branches

namespace Dossier

open Grammar

variable {tokens others : List Token} {ctx inner : Context} {kind : Kind} {pos next stop : Nat}

/-- Two streams with the same tokens from a position up to a period, the period included. -/
structure SameSentence (tokens others : List Token) (pos stop : Nat) : Prop where
  le : pos ≤ stop
  period : tokens[stop]? = some .period
  same : ∀ i, pos ≤ i → i ≤ stop → others[i]? = tokens[i]?

namespace SameSentence

theorem symm (h : SameSentence tokens others pos stop) : SameSentence others tokens pos stop where
  le := h.le
  period := (h.same stop h.le (Nat.le_refl stop)).trans h.period
  same i hle hstop := (h.same i hle hstop).symm

theorem le_length (h : SameSentence tokens others pos stop) : pos ≤ tokens.length :=
  Nat.le_trans h.le (Nat.le_of_lt (List.getElem?_eq_some_iff.mp h.period).1)

/-- The rest of the sentence is the same behind anything without a period in it. -/
theorem behind (h : SameSentence tokens others pos stop) (hle : pos ≤ next)
    (hfree : Free tokens .period pos next) : SameSentence tokens others next stop where
  le := Nat.le_of_not_lt fun hlt => hfree stop .period h.le hlt h.period rfl
  period := h.period
  same i hi hstop := h.same i (Nat.le_trans hle hi) hstop

/-- A search that may not pass over the period has found all it finds by then. -/
theorem finds {index : Nat} {t : Token} (h : SameSentence tokens others pos stop)
    (hctx : ctx.forbidden = some .period) (hfinds : Finds tokens ctx kind pos index t) :
    Finds others ctx kind pos index t := by
  have hbefore : index ≤ stop := by
    apply Nat.le_of_not_lt
    intro hlt
    exact (hfinds.passes stop .period h.le hlt h.period).2 hctx
  refine ⟨hfinds.le, ?_, hfinds.kind_eq, fun i u hle hlt hu => ?_⟩
  · rw [h.same index hfinds.le hbefore]
    exact hfinds.at_index
  · rw [h.same i hle (by omega)] at hu
    exact hfinds.passes i u hle hlt hu

theorem run_token (h : SameSentence tokens others pos stop) (hctx : ctx.forbidden = some .period) :
    Id.run (token others ctx kind pos) = Id.run (token tokens ctx kind pos) := by
  refine Option.ext fun p => ?_
  rw [run_token_eq_some_iff, run_token_eq_some_iff]
  exact and_congr_left fun _ => ⟨h.symm.finds hctx, h.finds hctx⟩

theorem run_identifier (h : SameSentence tokens others pos stop)
    (hctx : ctx.forbidden = some .period) :
    Id.run (identifier others ctx pos) = Id.run (identifier tokens ctx pos) := by
  simp only [identifier, Rule.read, Id.run_bind, h.run_token hctx]

theorem run_constant (h : SameSentence tokens others pos stop)
    (hctx : ctx.forbidden = some .period) :
    Id.run (constant others ctx pos) = Id.run (constant tokens ctx pos) := by
  simp only [constant, constantValue, Rule.as, Rule.read, Id.run_bind, h.run_token hctx]

theorem run_bareVariable (h : SameSentence tokens others pos stop)
    (hctx : ctx.forbidden = some .period) :
    Id.run (bareVariable others ctx pos) = Id.run (bareVariable tokens ctx pos) := by
  simp only [bareVariable, Rule.as, Id.run_bind, h.run_identifier hctx]

theorem run_separator (h : SameSentence tokens others pos stop)
    (hctx : ctx.forbidden = some .period) :
    Id.run (separator others ctx pos) = Id.run (separator tokens ctx pos) := by
  simp only [separator, Rule.as, Id.run_bind, h.run_token hctx]

/-- Behind what was found the same sentence goes on. -/
theorem behind_token {p : Parsed Token} (h : SameSentence tokens others pos stop)
    (hctx : ctx.forbidden = some .period) (hkind : kind ≠ .period)
    (hp : Id.run (token tokens ctx kind pos) = some p) :
    SameSentence tokens others p.next stop :=
  h.behind (Nat.le_of_lt (token_spans kind hp).pos_lt) (free_of_run_token hctx hkind hp)

theorem behind_identifier {p : Parsed String} (h : SameSentence tokens others pos stop)
    (hctx : ctx.forbidden = some .period) (hp : Id.run (identifier tokens ctx pos) = some p) :
    SameSentence tokens others p.next stop :=
  h.behind (Nat.le_of_lt (identifier_spans hp).pos_lt) (identifier_free hctx hp)

theorem behind_expression {p : Parsed Expression} (h : SameSentence tokens others pos stop)
    (hp : Id.run (expression tokens ctx pos) = some p) :
    SameSentence tokens others p.next stop :=
  h.behind (Nat.le_of_lt (expression_spans hp).pos_lt) (expression_free hp)

/-- So it does behind a word that may be left out. -/
theorem behind_allowed (h : SameSentence tokens others pos stop)
    (hctx : ctx.forbidden = some .period) (hkind : kind ≠ .period) :
    SameSentence tokens others ((Id.run (token tokens ctx kind pos)).nextOr pos) stop :=
  h.behind (le_nextOr kind) (nextOr_free hctx hkind)

theorem run_square (h : SameSentence tokens others pos stop)
    (hctx : ctx.forbidden = some .period) :
    Id.run (square others ctx pos) = Id.run (square tokens ctx pos) := by
  have hphrase := h.behind_allowed hctx (show Kind.the ≠ .period by decide)
  rw [Grammar.run_square, Grammar.run_square, h.run_token hctx]
  dsimp only
  rw [hphrase.run_token hctx]
  refine Option.bind_congr fun phrase hfound => ?_
  have hof := hphrase.behind_token hctx (by decide) hfound
  have hname := hof.behind_allowed hctx (show Kind.of ≠ .period by decide)
  rw [hof.run_token hctx, hname.run_identifier hctx]

theorem run_furtherArguments (hctx : ctx.forbidden = some .period)
    (hargument : ∀ next, SameSentence tokens others next stop →
      Id.run (expression others ctx next) = Id.run (expression tokens ctx next))
    (bound start : Nat) (h : SameSentence tokens others pos stop) :
    Id.run (furtherArguments others ctx (expression others ctx) bound ⟨some start, pos⟩) =
      Id.run (furtherArguments tokens ctx (expression tokens ctx) bound ⟨some start, pos⟩) := by
  induction bound generalizing pos with
  | zero => rfl
  | succ bound ih =>
    rw [Grammar.run_furtherArguments, Grammar.run_furtherArguments, h.run_separator hctx]
    refine Option.bind_congr fun sep hsep => ?_
    rcases Grammar.run_separator hsep with ⟨link, hlink, rfl⟩ | ⟨closing, hclosing, rfl⟩
    · have hfirst := h.behind_token hctx (by decide) hlink
      simp only
      rw [hargument link.next hfirst]
      refine Option.bind_congr fun first hfound => ?_
      rw [ih (hfirst.behind_expression hfound)]
    · rfl

section Nested

variable (h : SameSentence tokens others pos stop) (hctx : ctx.forbidden = some .period)
  (hinner : ∀ inner next, ctx.nested? = some inner → SameSentence tokens others next stop →
    Id.run (expression others inner next) = Id.run (expression tokens inner next))
include h hctx hinner

theorem run_add : Id.run (add others ctx pos) = Id.run (add tokens ctx pos) := by
  simp only [add]
  cases hnested : ctx.nested? with
  | none => rfl
  | some inner =>
    have hinnerCtx := (nested_forbidden hnested).trans hctx
    simp only
    rw [run_addOf, run_addOf, h.run_identifier hinnerCtx]
    refine Option.bind_congr fun left hleft => ?_
    have hplus := h.behind_identifier hinnerCtx hleft
    rw [hplus.run_token hinnerCtx]
    refine Option.bind_congr fun plus hfound => ?_
    rw [hinner inner plus.next hnested (hplus.behind_token hinnerCtx (by decide) hfound)]

theorem run_functionCall :
    Id.run (functionCall others ctx pos) = Id.run (functionCall tokens ctx pos) := by
  simp only [functionCall]
  cases hnested : ctx.nested? with
  | none => rfl
  | some inner =>
    have hinnerCtx := (nested_forbidden hnested).trans hctx
    simp only
    rw [run_functionCallOf, run_functionCallOf, h.run_token hinnerCtx]
    refine Option.bind_congr fun opening hopening => ?_
    have hname := h.behind_token hinnerCtx (by decide) hopening
    rw [hname.run_identifier hinnerCtx]
    refine Option.bind_congr fun name hfound => ?_
    have hfirst := hname.behind_identifier hinnerCtx hfound
    rw [hinner inner name.next hnested hfirst]
    refine Option.bind_congr fun first hargument => ?_
    have hothers := hfirst.behind_expression hargument
    have hpos : 0 < first.next := Nat.zero_lt_of_lt (expression_spans hargument).pos_lt
    -- The two streams differ in length, and with it in the bound on the number of arguments.
    have hends : EndsByItself tokens (furtherArguments tokens inner (expression tokens inner)) :=
      arguments_loop.ends_by_itself
    have hends' : EndsByItself others (furtherArguments others inner (expression others inner)) :=
      arguments_loop.ends_by_itself
    let after : Sequence := ⟨some opening.start, first.next⟩
    rw [← hends (tokens.length + others.length) after (Nat.le_add_right _ _) hpos
        hothers.le_length,
      ← hends' (tokens.length + others.length) after (Nat.le_add_left _ _) hpos
        hothers.symm.le_length,
      run_furtherArguments hinnerCtx (fun next hnext => hinner inner next hnested hnext) _ _
        hothers]

end Nested

/-- An expression is the same in every stream that has its sentence. -/
theorem run_expression (h : SameSentence tokens others pos stop) :
    Id.run (expression others ctx pos) = Id.run (expression tokens ctx pos) := by
  induction hroom : ctx.room using Nat.strongRecOn generalizing ctx pos with
  | _ room ih =>
    have hinner : ∀ inner next, (ctx.forbid .period).nested? = some inner →
        SameSentence tokens others next stop →
          Id.run (expression others inner next) = Id.run (expression tokens inner next) := by
      intro inner next hnested hnext
      have hdeeper : (ctx.forbid .period).room = inner.room + 1 := nested_room hnested
      change ctx.room = inner.room + 1 at hdeeper
      exact ih inner.room (by omega) hnext rfl
    rw [Grammar.run_expression, Grammar.run_expression, h.run_square rfl, h.run_add rfl hinner,
      h.run_constant rfl, h.run_functionCall rfl hinner, h.run_bareVariable rfl]

end SameSentence

theorem Token.exists_identifier {t : Token} (h : t.kind = .identifier) :
    ∃ name, t = .identifier name := by
  cases t <;> cases h
  exact ⟨_, rfl⟩

theorem Token.exists_constant {t : Token} (h : t.kind = .constant) :
    ∃ value, t = .constant value := by
  cases t <;> cases h
  exact ⟨_, rfl⟩

/-- An identifier or a constant lies ahead in the same sentence. -/
def TermAhead (tokens : List Token) (pos : Nat) : Prop :=
  ∃ i t, pos ≤ i ∧ tokens[i]? = some t ∧ (t.kind = .identifier ∨ t.kind = .constant) ∧
    Free tokens .period pos i

theorem TermAhead.of_within {index : Nat} {t : Token} (hfree : Free tokens .period pos next)
    (hle : pos ≤ index) (hlt : index < next) (ht : tokens[index]? = some t)
    (hkind : t.kind = .identifier ∨ t.kind = .constant) : TermAhead tokens pos :=
  ⟨index, t, hle, ht, hkind, fun i u hi hbefore => hfree i u hi (Nat.lt_trans hbefore hlt)⟩

namespace Grammar

theorem expression_of_constantValue {value : Parsed Nat}
    (h : Id.run (constantValue tokens (ctx.forbid .period) pos) = some value) :
    ∃ e, Id.run (expression tokens ctx pos) = some e ∧ e.start ≤ value.start := by
  let found : Parsed Expression := ⟨.constant value.value, value.start, value.next⟩
  have hconstant : Id.run (constant tokens (ctx.forbid .period) pos) = some found :=
    Rule.run_as.mpr ⟨value, h, rfl⟩
  have hchosen : (Candidate.mk (some found) false).outcome = some found := rfl
  rw [run_expression, hconstant]
  exact Candidate.chooseNearest_of_mem (by simp) hchosen

/-- Each form of expression has an identifier or a constant in it. -/
theorem termAhead_of_expression {p : Parsed Expression}
    (h : Id.run (expression tokens ctx pos) = some p) : TermAhead tokens pos := by
  have hfree := expression_free h
  rw [run_expression] at h
  obtain ⟨c, hc, hp⟩ := Candidate.mem_of_chooseNearest h
  simp only [List.mem_cons, List.not_mem_nil, or_false] at hc
  rcases hc with rfl | rfl | rfl | rfl | rfl
  · have hspan := square_spans hp
    obtain ⟨t, ht, hkind⟩ := hspan.closing
    have hle := hspan.le
    have hlt := hspan.lt
    exact .of_within hfree (by omega) (by omega) ht (.inl (List.mem_singleton.mp hkind))
  · have hspan := add_spans hp
    obtain ⟨t, ht, hkind⟩ := hspan.opening
    exact .of_within hfree hspan.le hspan.lt ht (.inl (List.mem_singleton.mp hkind))
  · have hspan := constant_spans hp
    obtain ⟨t, ht, hkind⟩ := hspan.opening
    exact .of_within hfree hspan.le hspan.lt ht (.inr (List.mem_singleton.mp hkind))
  · obtain ⟨inner, hinner, hp⟩ := run_functionCall.mp hp
    have hctx : inner.forbidden = some .period := nested_forbidden hinner
    rw [run_functionCallOf] at hp
    obtain ⟨opening, hopening, hp⟩ := Option.bind_eq_some_iff.mp hp
    obtain ⟨name, hname, _⟩ := Option.bind_eq_some_iff.mp hp
    have hspan := (token_spans .openParen hopening).append (identifier_spans hname)
    have hnameFree := (free_of_run_token hctx (by decide) hopening).append
      (identifier_free hctx hname)
    obtain ⟨t, ht, hkind⟩ := hspan.closing
    have hle := hspan.le
    have hlt := hspan.lt
    exact .of_within hnameFree (by omega) (by omega) ht (.inl (List.mem_singleton.mp hkind))
  · have hspan := bareVariable_spans hp
    obtain ⟨t, ht, hkind⟩ := hspan.opening
    exact .of_within hfree hspan.le hspan.lt ht (.inl (List.mem_singleton.mp hkind))

/-- The bare variable and the constant are always there to fall back on. -/
theorem expression_of_termAhead (h : TermAhead tokens pos) :
    ∃ p, Id.run (expression tokens ctx pos) = some p := by
  obtain ⟨i, t, hle, ht, hkind, hfree⟩ := h
  have hpass : ∀ j u, pos ≤ j → j < i → tokens[j]? = some u →
      (ctx.forbid .period).forbidden ≠ some u.kind :=
    fun j u hj hbefore hu he => hfree j u hj hbefore hu (Option.some.inj he).symm
  rcases hkind with hkind | hkind
  · obtain ⟨⟨u, start, next⟩, hq, _⟩ := run_token_of_unbarred hle ht hkind hpass
    obtain ⟨name, rfl⟩ := Token.exists_identifier (run_token_eq_some_iff.mp hq).1.kind_eq
    obtain ⟨p, hp, _⟩ := expression_of_identifier
      (show Id.run (identifier tokens _ pos) = some ⟨name, start, next⟩ from run_identifier.mpr hq)
    exact ⟨p, hp⟩
  · obtain ⟨⟨u, start, next⟩, hq, _⟩ := run_token_of_unbarred hle ht hkind hpass
    obtain ⟨value, rfl⟩ := Token.exists_constant (run_token_eq_some_iff.mp hq).1.kind_eq
    obtain ⟨p, hp, _⟩ := expression_of_constantValue
      (show Id.run (constantValue tokens _ pos) = some ⟨value, start, next⟩ from
        run_constantValue.mpr hq)
    exact ⟨p, hp⟩

end Grammar

/-- The period is a barrier. Whatever the context, an expression has no period in it or before it,
it is the same in every stream with the same tokens up to and including the period, and there is one
exactly if an identifier or a constant lies ahead before the period. -/
theorem Production.expression_outcome_in_sentence (tokens : List Token) (ctx : Context)
    (pos : Nat) :
    (∀ found, Production.expression.outcome tokens ctx pos = some found →
      Free tokens .period pos found.next) ∧
    (∀ others stop, pos ≤ stop → tokens[stop]? = some .period →
      (∀ i, pos ≤ i → i ≤ stop → others[i]? = tokens[i]?) →
        Production.expression.outcome others ctx pos =
          Production.expression.outcome tokens ctx pos) ∧
    ((Production.expression.outcome tokens ctx pos).isSome ↔
      ∃ i t, pos ≤ i ∧ tokens[i]? = some t ∧ (t.kind = .identifier ∨ t.kind = .constant) ∧
        Free tokens .period pos i) := by
  refine ⟨fun found hfound => ?_, fun others stop hle hperiod hsame => ?_, ?_⟩
  · rw [outcome_eq_run] at hfound
    exact expression_free hfound
  · rw [outcome_eq_run, outcome_eq_run]
    exact SameSentence.run_expression ⟨hle, hperiod, hsame⟩
  · rw [outcome_eq_run, Option.isSome_iff_exists]
    exact ⟨fun ⟨_, hp⟩ => termAhead_of_expression hp, expression_of_termAhead⟩

/-- A call that is cut off by the period, before two different sentences, comes to its name. -/
theorem Production.expression_outcome_of_open_call :
    let tokens : List Token := [.openParen, .identifier "f", .constant 2, .period, .closeParen]
    let others : List Token := [.openParen, .identifier "f", .constant 2, .period, .identifier "x",
      .add, .constant 1]
    Production.expression.outcome tokens ⟨some .rule, 3⟩ 0 = some ⟨.variable "f", 1, 2⟩ ∧
      Production.expression.outcome others ⟨some .rule, 3⟩ 0 = some ⟨.variable "f", 1, 2⟩ ∧
      Free tokens .period 0 2 := by
  intro tokens others
  have hfound : Production.expression.outcome tokens ⟨some .rule, 3⟩ 0 =
      some ⟨.variable "f", 1, 2⟩ := by
    rw [outcome_eq_run]
    rfl
  obtain ⟨hfree, hlocal, _⟩ := Production.expression_outcome_in_sentence tokens ⟨some .rule, 3⟩ 0
  refine ⟨hfound, ?_, hfree _ hfound⟩
  rw [hlocal others 3 (by decide) rfl (by decide), hfound]

end Dossier
