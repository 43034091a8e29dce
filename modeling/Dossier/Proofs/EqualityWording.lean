import Dossier.Proofs.Memory
import Dossier.Proofs.Shape
import Dossier.Proofs.SumWording

namespace Dossier

open Grammar

variable {tokens : List Token} {ctx : Context} {pos index room : Nat} {rest : List Slot}
  {e : Equality}

theorem copula_of_reads (ht : tokens[pos]? = some (.verb .is)) :
    Id.run (copula tokens ctx pos) = some ⟨.is, pos, pos + 1⟩ :=
  run_copula.mpr ⟨rfl, run_verb.mpr (run_token_here ht rfl)⟩

/-- Two sides of the shape that reports have, with room for their nesting. -/
structure Equality.Regular (room : Nat) (e : Equality) : Prop where
  left : Expression.Regular room e.left
  right : Expression.Regular room e.right

theorem Equality.regular_iff :
    Equality.Regular room e ↔ e.wellFormed = true ∧ e.nesting ≤ room := by
  rw [wellFormed, nesting, Bool.and_eq_true, Nat.max_le]
  constructor
  · intro h
    exact ⟨⟨h.left.wellFormed, h.right.wellFormed⟩, h.left.nesting, h.right.nesting⟩
  · intro h
    exact ⟨⟨h.1.1, h.2.1⟩, h.1.2, h.2.2⟩

theorem Reads.sides (h : Reads tokens pos (e.wording .full ++ rest)) :
    Reads tokens pos
      (e.left.wording .full ++ .fixed (.verb .is) :: (e.right.wording .full ++ rest)) := by
  simpa [Equality.wording] using h

/-- An equality comes back from its own words if no variable in it is taken for a part of a sum. -/
theorem run_equality_of_reads (hregular : Equality.Regular ctx.room e)
    (hlegible : e.legible ctx.room rest = true) (hclear : Clear tokens pos index)
    (hreads : Reads tokens index (e.wording .full ++ rest)) :
    Id.run (equality tokens ctx pos) = some ⟨e, index, index + (e.wording .full).length⟩ := by
  obtain ⟨hleftLegible, hrightLegible⟩ := Bool.and_eq_true_iff.mp hlegible
  have hleft := run_expression_of_reads e.left hregular.left hleftLegible hclear hreads.sides
  obtain ⟨his, hreads⟩ := hreads.sides.append.fixed
  have hright := run_expression_of_reads e.right hregular.right hrightLegible .here hreads
  rw [run_equality, hleft]
  simp only [Option.bind_eq_bind, Option.bind_some, copula_of_reads his, hright, Option.pure_def,
    Equality.wording, List.length_append, List.length_cons, Option.some.injEq, Parsed.mk.injEq,
    true_and]
  omega

/-- An equality that comes back from its own words had no variable taken for a part of a sum. -/
theorem legible_of_run_equality (hsums : SumsComplete tokens) {p : Parsed Equality}
    (hregular : Equality.Regular ctx.room e) (hclear : Clear tokens pos index)
    (hreads : Reads tokens index (e.wording .full ++ rest))
    (h : Id.run (equality tokens ctx pos) = some p) (hvalue : p.value = e) :
    e.legible ctx.room rest = true := by
  rw [run_equality] at h
  obtain ⟨left, hleft, h⟩ := Option.bind_eq_some_iff.mp h
  obtain ⟨link, hlink, h⟩ := Option.bind_eq_some_iff.mp h
  obtain ⟨right, hright, h⟩ := Option.bind_eq_some_iff.mp h
  cases h
  subst hvalue
  have hleftLegible := legible_of_run_expression hsums left.value hregular.left hclear
    hreads.sides hleft rfl
  have hexact := run_expression_of_reads left.value hregular.left hleftLegible hclear hreads.sides
  -- The right side is looked for where its words start.
  obtain ⟨his, hreads⟩ := hreads.sides.append.fixed
  have hend : left.next = index + (left.value.wording .full).length :=
    congrArg Parsed.next (Option.some.inj (hleft.symm.trans hexact))
  rw [hend] at hlink
  cases hlink.symm.trans (copula_of_reads his)
  have hrightLegible := legible_of_run_expression hsums right.value hregular.right .here hreads
    hright rfl
  exact Bool.and_eq_true_iff.mpr ⟨hleftLegible, hrightLegible⟩

/-- What an equality finds keeps to the shape. -/
theorem Grammar.equality_regular {p : Parsed Equality}
    (h : Id.run (equality tokens ctx pos) = some p) : Equality.Regular ctx.room p.value := by
  rw [run_equality] at h
  obtain ⟨left, hleft, h⟩ := Option.bind_eq_some_iff.mp h
  obtain ⟨link, _, h⟩ := Option.bind_eq_some_iff.mp h
  obtain ⟨right, hright, h⟩ := Option.bind_eq_some_iff.mp h
  cases h
  obtain ⟨hleftWf, hleftNesting⟩ := (expression_derives hleft).shaped
  obtain ⟨hrightWf, hrightNesting⟩ := (expression_derives hright).shaped
  exact ⟨⟨hleftWf, hleftNesting⟩, ⟨hrightWf, hrightNesting⟩⟩

theorem sumsNamed_equality (e : Equality) (h : sumsNamed rest = true) :
    sumsNamed (e.wording .full ++ rest) = true := by
  have hright := sumsNamed_cons (by decide : (Slot.fixed (.verb .is)).kind ≠ .add)
    (sumsNamed_expression e.right h)
  have hleft := sumsNamed_expression e.left hright
  simpa [Equality.wording] using hleft

namespace Production

/-- An equality that comes back fits the room that there is, and none of its variables was taken
for a part of a sum. -/
theorem legible_of_equality_outcome {p : Parsed Equality}
    (hreads : Reads tokens 0 (e.wording .full ++ [.fixed .comma]))
    (h : Production.equality.outcome tokens .root 0 = some p) (hvalue : p.value = e) :
    e.nesting ≤ Context.limit ∧ e.legible Context.limit [.fixed .comma] = true := by
  rw [outcome_eq_run] at h
  have hregular : Equality.Regular Context.root.room e := hvalue ▸ equality_regular h
  have hsums : SumsComplete tokens := sumsComplete_of_named hreads (sumsNamed_equality e rfl)
  constructor
  · exact (Equality.regular_iff.mp hregular).2
  · exact legible_of_run_equality hsums hregular .here hreads h hvalue

/-- Reading undoes the wording of an equality in front of a comma exactly if there is room for its
nesting and none of its variables is taken for a part of a sum. -/
theorem equality_outcome_wording_iff (e : Equality) (tokens : List Token)
    (hwf : e.wellFormed = true)
    (hwords : List.Forall₂ Slot.Accepts (e.wording .full ++ [.fixed .comma]) tokens) :
    Production.equality.outcome tokens .root 0 = some ⟨e, 0, tokens.length - 1⟩ ↔
      e.nesting ≤ Context.limit ∧ e.legible Context.limit [.fixed .comma] = true := by
  have hreads : Reads tokens 0 (e.wording .full ++ [.fixed .comma]) := hwords
  constructor
  · intro h
    exact legible_of_equality_outcome hreads h rfl
  · intro h
    have hregular : Equality.Regular Context.root.room e := Equality.regular_iff.mpr ⟨hwf, h.1⟩
    have hstop : tokens.length - 1 = 0 + (e.wording .full).length := by
      rw [← hwords.length_eq, List.length_append, List.length_singleton]
      omega
    rw [outcome_eq_run, hstop]
    exact run_equality_of_reads hregular h.2 .here hreads

/-- A variable and a call come back. -/
theorem equality_outcome_wording_of_call :
    Production.equality.outcome [.identifier "x", .verb .is, .openParen, .identifier "f",
        .constant 1, .and, .identifier "y", .closeParen, .comma] .root 0 =
      some ⟨⟨.variable "x", .call "f" [.constant 1, .variable "y"]⟩, 0, 8⟩ :=
  (equality_outcome_wording_iff _ _ rfl (by decide)).mpr ⟨by decide, rfl⟩

/-- A variable on the left is lost if the right side is a sum, however little they are nested. -/
theorem equality_outcome_wording_not_all :
    ¬ ∀ (e : Equality) (tokens : List Token), e.wellFormed = true → e.nesting < Context.limit →
      List.Forall₂ Slot.Accepts (e.wording .full ++ [.fixed .comma]) tokens →
      Production.equality.outcome tokens .root 0 = some ⟨e, 0, tokens.length - 1⟩ := by
  intro hall
  have hwords : List.Forall₂ Slot.Accepts
      (Equality.wording .full ⟨.variable "x", .add "y" (.constant 1)⟩ ++ [.fixed .comma])
      [.identifier "x", .verb .is, .identifier "y", .add, .constant 1, .comma] := by
    decide
  obtain ⟨_, hlegible⟩ :=
    legible_of_equality_outcome hwords (hall _ _ rfl (by decide) hwords) rfl
  cases hlegible

end Production

end Dossier
