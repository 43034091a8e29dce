import Mathlib.Data.List.Forall2
import Dossier.Legible
import Dossier.Proofs.Openings

namespace Dossier

variable {tokens : List Token} {ctx : Context} {kind : Kind} {pos index stop : Nat} {t : Token}
  {slot : Slot} {slots others : List Slot} {α : Type}

/-- From this position to the end the tokens fill these places, one for one. -/
def Reads (tokens : List Token) (pos : Nat) (slots : List Slot) : Prop :=
  List.Forall₂ Slot.Accepts slots (tokens.drop pos)

theorem reads_fixed (tokens : List Token) : Reads tokens 0 (tokens.map .fixed) := by
  rw [Reads, List.drop_zero, List.forall₂_map_left_iff, List.forall₂_same]
  exact fun _ _ => rfl

theorem Reads.cons (h : Reads tokens pos (slot :: slots)) :
    ∃ t, tokens[pos]? = some t ∧ slot.Accepts t ∧ Reads tokens (pos + 1) slots := by
  obtain ⟨t, rest, haccept, hrest, hdrop⟩ := List.forall₂_cons_left_iff.mp h
  refine ⟨t, ?_, haccept, ?_⟩
  · rw [← Nat.add_zero pos, ← List.getElem?_drop, hdrop]
    rfl
  · rw [Reads, ← List.drop_drop, hdrop]
    exact hrest

theorem Reads.fixed {u : Token} (h : Reads tokens pos (.fixed u :: slots)) :
    tokens[pos]? = some u ∧ Reads tokens (pos + 1) slots := by
  obtain ⟨t, ht, rfl, hrest⟩ := h.cons
  exact ⟨ht, hrest⟩

theorem Reads.at_end (h : Reads tokens pos []) : tokens.length ≤ pos :=
  List.drop_eq_nil_iff.mp (List.forall₂_nil_left_iff.mp h)

theorem Reads.append (h : Reads tokens pos (slots ++ others)) :
    Reads tokens (pos + slots.length) others := by
  induction slots generalizing pos with
  | nil => exact h
  | cons slot slots ih =>
    obtain ⟨t, _, _, hrest⟩ := h.cons
    have hothers := ih hrest
    rwa [Nat.add_assoc, Nat.add_comm 1] at hothers

theorem Reads.assoc {rest : List Slot} (h : Reads tokens pos (slots ++ others ++ rest)) :
    Reads tokens pos (slots ++ (others ++ rest)) := by
  rwa [List.append_assoc] at h

theorem Reads.length_le (h : Reads tokens pos (slots ++ others)) :
    slots.length ≤ tokens.length := by
  have hlen := List.Forall₂.length_eq h
  simp only [List.length_append, List.length_drop] at hlen
  omega

/-- What stands in the stream stands in its wording. -/
theorem Reads.slot_at (h : Reads tokens pos slots) (hle : pos ≤ index)
    (ht : tokens[index]? = some t) :
    ∃ slot, slots[index - pos]? = some slot ∧ slot.Accepts t := by
  induction slots generalizing pos with
  | nil =>
    have hlen := h.at_end
    have hlt := (List.getElem?_eq_some_iff.mp ht).1
    omega
  | cons slot slots ih =>
    obtain ⟨u, hu, haccept, hrest⟩ := h.cons
    by_cases he : pos = index
    · subst he
      obtain rfl : t = u := by rw [ht] at hu; exact Option.some.inj hu
      exact ⟨slot, by simp, haccept⟩
    · obtain ⟨found, hfound, hslot⟩ := ih hrest (by omega)
      refine ⟨found, ?_, hslot⟩
      rw [show index - pos = index - (pos + 1) + 1 by omega]
      exact hfound

/-- No token of this kind stands from one position up to another. -/
def Free (tokens : List Token) (kind : Kind) (pos stop : Nat) : Prop :=
  ∀ i t, pos ≤ i → i < stop → tokens[i]? = some t → t.kind ≠ kind

theorem Free.append (h : Free tokens kind pos index) (h' : Free tokens kind index stop) :
    Free tokens kind pos stop := by
  intro i t hle hlt ht
  by_cases hi : i < index
  · exact h i t hle hi ht
  · exact h' i t (by omega) hlt ht

theorem Reads.free (h : Reads tokens pos (slots ++ others))
    (hkind : ∀ slot ∈ slots, slot.kind ≠ kind) :
    Free tokens kind pos (pos + slots.length) := by
  intro i t hle hlt ht
  obtain ⟨slot, hslot, haccept⟩ := h.slot_at hle ht
  rw [List.getElem?_append_left (by omega)] at hslot
  rw [haccept.kind_eq]
  exact hkind slot (List.mem_of_getElem? hslot)

/-- What stands in none of the places does not stand in the stream. -/
theorem Reads.free_ahead (h : Reads tokens pos slots) (hkind : ∀ slot ∈ slots, slot.kind ≠ kind) :
    Free tokens kind pos stop := by
  intro i t hle _ ht
  obtain ⟨slot, hslot, haccept⟩ := h.slot_at hle ht
  rw [haccept.kind_eq]
  exact hkind slot (List.mem_of_getElem? hslot)

/-- A search that nothing bars finds what stands behind such a stretch. -/
theorem Free.run_token (h : Free tokens kind pos index) (hle : pos ≤ index)
    (ht : tokens[index]? = some t) (hk : t.kind = kind) (hctx : ctx.forbidden = none) :
    Id.run (Grammar.token tokens ctx kind pos) = some ⟨t, index, index + 1⟩ :=
  run_token_eq_some_iff.mpr
    ⟨⟨hle, ht, hk, fun i u hle hlt hu => ⟨h i u hle hlt hu, by simp [hctx]⟩⟩, rfl⟩

/-- Where a search for a kind ends lies behind every stretch without it. -/
theorem Free.le_start (h : Free tokens kind pos stop) {origin : Nat} {p : Parsed Token}
    (hle : pos ≤ origin) (hp : Id.run (Grammar.token tokens ctx kind origin) = some p) :
    stop ≤ p.start := by
  obtain ⟨hfinds, _⟩ := run_token_eq_some_iff.mp hp
  apply Nat.le_of_not_lt
  intro hlt
  exact h p.start p.value (Nat.le_trans hle hfinds.le) hlt hfinds.at_index hfinds.kind_eq

/-- From one position up to another there are only rules, if anything. -/
structure Clear (tokens : List Token) (pos index : Nat) : Prop where
  le : pos ≤ index
  only : ∀ i t, pos ≤ i → i < index → tokens[i]? = some t → t.kind = .rule

theorem Clear.here : Clear tokens pos pos :=
  ⟨Nat.le_refl pos, fun _ _ hle hlt => by omega⟩

theorem Clear.past_rule (ht : tokens[pos]? = some .rule) : Clear tokens pos (pos + 1) := by
  refine ⟨Nat.le_succ pos, ?_⟩
  intro i t hle hlt hi
  obtain rfl : i = pos := by omega
  rw [ht] at hi
  cases hi
  rfl

theorem Clear.free (h : Clear tokens pos index) (hkind : kind ≠ .rule) :
    Free tokens kind pos index := by
  intro i t hle hlt ht he
  exact hkind (he.symm.trans (h.only i t hle hlt ht))

/-- A search that does not stop at rules finds what stands behind them. -/
theorem Clear.run_token (h : Clear tokens pos index) (ht : tokens[index]? = some t)
    (hk : t.kind = kind) (hkind : kind ≠ .rule) (hctx : ctx.forbidden ≠ some .rule) :
    Id.run (Grammar.token tokens ctx kind pos) = some ⟨t, index, index + 1⟩ := by
  refine run_token_eq_some_iff.mpr ⟨⟨h.le, ht, hk, ?_⟩, rfl⟩
  intro i u hle hlt hu
  have hrule := h.only i u hle hlt hu
  rw [hrule]
  exact ⟨hkind.symm, hctx⟩

/-- Nothing starts where no token stands that it opens with. -/
theorem Rule.OpensWith.le_start_of_free {rule : Rule Id α} {kinds : List Kind} {p : Parsed α}
    (h : rule.OpensWith tokens kinds) (hfree : ∀ kind ∈ kinds, Free tokens kind pos index)
    (hp : Id.run (rule pos) = some p) : index ≤ p.start := by
  obtain ⟨hle, u, hu, hmem⟩ := h pos p hp
  apply Nat.le_of_not_lt
  intro hlt
  exact hfree u.kind hmem p.start u hle hlt hu rfl

/-- Whatever can start neither on the way nor here starts later. -/
theorem Rule.OpensWith.later_of_free {rule : Rule Id α} {kinds : List Kind} {p : Parsed α}
    (h : rule.OpensWith tokens kinds) (hfree : ∀ kind ∈ kinds, Free tokens kind pos index)
    (ht : tokens[index]? = some t) (hkind : t.kind ∉ kinds) (hp : Id.run (rule pos) = some p) :
    index < p.start := by
  have hle := h.le_start_of_free hfree hp
  apply Nat.lt_of_le_of_ne hle
  intro he
  obtain ⟨_, u, hu, hmem⟩ := h pos p hp
  rw [← he, ht] at hu
  cases hu
  exact hkind hmem

/-- Nothing starts at a rule, except what opens with one. -/
theorem Rule.OpensWith.le_start {rule : Rule Id α} {kinds : List Kind} {p : Parsed α}
    (h : rule.OpensWith tokens kinds) (hclear : Clear tokens pos index) (hrule : .rule ∉ kinds)
    (hp : Id.run (rule pos) = some p) : index ≤ p.start :=
  h.le_start_of_free (fun _ hmem => hclear.free (ne_of_mem_of_not_mem hmem hrule)) hp

/-- Whatever cannot start here starts later. -/
theorem Rule.OpensWith.later {rule : Rule Id α} {kinds : List Kind} {p : Parsed α}
    (h : rule.OpensWith tokens kinds) (hclear : Clear tokens pos index)
    (ht : tokens[index]? = some t) (hrule : .rule ∉ kinds) (hkind : t.kind ∉ kinds)
    (hp : Id.run (rule pos) = some p) : index < p.start :=
  h.later_of_free (fun _ hmem => hclear.free (ne_of_mem_of_not_mem hmem hrule)) ht hkind hp

/-- An alternative of a choice with the kinds of token that it opens with. -/
structure Alternative (tokens : List Token) (α : Type) where
  rule : Rule Id α
  kinds : List Kind
  deprioritized : Bool
  opens : rule.OpensWith tokens kinds

namespace Alternative

def candidate (pos : Nat) (alternative : Alternative tokens α) : Candidate α :=
  ⟨Id.run (alternative.rule pos), alternative.deprioritized⟩

/-- An alternative wins at a token that no other one opens with. -/
theorem chosen_of_only {alternative : Alternative tokens α} {a : α} {next : Nat}
    (before after : List (Alternative tokens α)) (hclear : Clear tokens pos index)
    (ht : tokens[index]? = some t)
    (hothers : ∀ other ∈ before ++ after, .rule ∉ other.kinds ∧ t.kind ∉ other.kinds)
    (hp : Id.run (alternative.rule pos) = some ⟨a, index, next⟩) :
    Candidate.chooseNearest ((before ++ alternative :: after).map (candidate pos)) =
      some ⟨a, index, next⟩ := by
  rw [List.map_append, List.map_cons, candidate, hp]
  refine Candidate.chooseNearest_of_alone _ _ _ fun c hc q hq => ?_
  rw [← List.map_append] at hc
  obtain ⟨other, hmem, rfl⟩ := List.mem_map.mp hc
  obtain ⟨hrule, hkind⟩ := hothers other hmem
  exact other.opens.later hclear ht hrule hkind hq

end Alternative

end Dossier
