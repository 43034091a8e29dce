import Mathlib.Data.List.MinMax
import Mathlib.Order.Nat
import Dossier.Parse
import Dossier.Proofs.Derivation
import Dossier.Proofs.Memory
import Dossier.Tree.Shape

namespace Dossier

open Grammar

variable {tokens : List Token} {ctx : Context} {strategy : Strategy} {pos : Nat}

/-- What was found has a statement in each body, an argument in each call and a constant in each
assignment, and it keeps to the room that was left for nesting. -/
def Finding.Shaped : Finding → Prop
  | expression ctx _ p => p.value.wellFormed = true ∧ p.value.nesting ≤ ctx.room
  | arguments ctx _ args _ =>
    Expression.argumentsWellFormed args = true ∧ Expression.argumentsNesting args ≤ ctx.room
  | statement ctx _ p => p.value.wellFormed = true ∧ p.value.nesting ≤ ctx.room
  | statements ctx _ block _ =>
    Statement.blockWellFormed block = true ∧ Statement.blockNesting block ≤ ctx.room

/-- A block with a statement that keeps to the shape. -/
structure Block.Shaped (room : Nat) (block : Block) : Prop where
  nonempty : (!block.isEmpty) = true
  wellFormed : Statement.blockWellFormed block = true
  nesting : Statement.blockNesting block ≤ room

namespace Grammar

theorem square_shaped {p : Parsed Expression} (h : Id.run (square tokens ctx pos) = some p) :
    p.value.wellFormed = true ∧ p.value.nesting = 0 := by
  rw [run_square] at h
  obtain ⟨phrase, _, h⟩ := Option.bind_eq_some_iff.mp h
  obtain ⟨name, _, h⟩ := Option.bind_eq_some_iff.mp h
  cases h
  exact ⟨rfl, rfl⟩

theorem assignment_shaped {p : Parsed Statement}
    (h : Id.run (assignment tokens ctx pos) = some p) :
    p.value.wellFormed = true ∧ p.value.nesting = 0 := by
  rw [run_assignment] at h
  obtain ⟨target, _, h⟩ := Option.bind_eq_some_iff.mp h
  obtain ⟨verb, _, h⟩ := Option.bind_eq_some_iff.mp h
  obtain ⟨value, _, h⟩ := Option.bind_eq_some_iff.mp h
  obtain ⟨stop, _, h⟩ := Option.bind_eq_some_iff.mp h
  cases h
  exact ⟨rfl, rfl⟩

theorem increment_shaped {p : Parsed Statement}
    (h : Id.run (increment tokens ctx pos) = some p) :
    p.value.wellFormed = true ∧ p.value.nesting = 0 := by
  rw [run_increment] at h
  obtain ⟨target, _, h⟩ := Option.bind_eq_some_iff.mp h
  obtain ⟨phrase, _, h⟩ := Option.bind_eq_some_iff.mp h
  obtain ⟨stop, _, h⟩ := Option.bind_eq_some_iff.mp h
  cases h
  exact ⟨rfl, rfl⟩

theorem goto_shaped {p : Parsed Statement} (h : Id.run (goto tokens ctx pos) = some p) :
    p.value.wellFormed = true ∧ p.value.nesting = 0 := by
  rw [run_goto] at h
  obtain ⟨see, _, h⟩ := Option.bind_eq_some_iff.mp h
  obtain ⟨label, _, h⟩ := Option.bind_eq_some_iff.mp h
  obtain ⟨stop, _, h⟩ := Option.bind_eq_some_iff.mp h
  cases h
  exact ⟨rfl, rfl⟩

theorem comment_shaped {p : Parsed Statement} (h : Id.run (comment tokens ctx pos) = some p) :
    p.value.wellFormed = true ∧ p.value.nesting = 0 := by
  rw [run_comment] at h
  obtain ⟨opening, _, h⟩ := Option.bind_eq_some_iff.mp h
  obtain ⟨closing, _, h⟩ := Option.bind_eq_some_iff.mp h
  cases h
  exact ⟨rfl, rfl⟩

theorem invalid_shaped {p : Parsed Statement} (h : Id.run (invalid tokens ctx pos) = some p) :
    p.value.wellFormed = true ∧ p.value.nesting = 0 := by
  rw [run_invalid] at h
  obtain ⟨stop, _, h⟩ := Option.bind_eq_some_iff.mp h
  cases h
  exact ⟨rfl, rfl⟩

/-- A form without parts fits wherever it is found. -/
theorem shaped_of_flat {p : Parsed Statement}
    (h : p.value.wellFormed = true ∧ p.value.nesting = 0) :
    (Finding.statement ctx pos p).Shaped :=
  ⟨h.1, Nat.le_trans (Nat.le_of_eq h.2) (Nat.zero_le _)⟩

/-- Every rule of the grammar keeps to the shape if its parts do. -/
theorem Derives.shaped {finding : Finding} (h : Derives tokens finding) : finding.Shaped := by
  induction h with
  | square hp =>
    obtain ⟨hwf, hnesting⟩ := square_shaped hp
    exact ⟨hwf, by omega⟩
  | constant _ => exact ⟨rfl, Nat.zero_le _⟩
  | bare _ => exact ⟨rfl, Nat.zero_le _⟩
  | add hctx _ _ _ hright =>
    obtain ⟨hwf, hnesting⟩ := hright
    have hroom := nested_room hctx
    exact ⟨hwf, Nat.le_trans (Nat.succ_le_succ hnesting) (Nat.le_of_eq hroom.symm)⟩
  | call hctx _ _ _ _ hfirst hothers =>
    have hroom := nested_room hctx
    refine ⟨?_, Nat.le_trans (Nat.succ_le_succ (Nat.max_le.mpr ⟨hfirst.2, hothers.2⟩))
      (Nat.le_of_eq hroom.symm)⟩
    simp [Expression.wellFormed, Expression.argumentsWellFormed, hfirst.1, hothers.1]
  | close _ => exact ⟨rfl, Nat.zero_le _⟩
  | argument _ _ _ hfirst hothers =>
    refine ⟨?_, Nat.max_le.mpr ⟨hfirst.2, hothers.2⟩⟩
    simp [Expression.argumentsWellFormed, hfirst.1, hothers.1]
  | assignment hp => exact shaped_of_flat (assignment_shaped hp)
  | increment hp => exact shaped_of_flat (increment_shaped hp)
  | goto hp => exact shaped_of_flat (goto_shaped hp)
  | expression _ _ he => exact he
  | comment hp => exact shaped_of_flat (comment_shaped hp)
  | invalid hp => exact shaped_of_flat (invalid_shaped hp)
  | conditional hctx _ _ _ _ _ _ _ hleft hright hfirst hothers =>
    have hroom := nested_room hctx
    have hsides := Nat.max_le.mpr ⟨hleft.2, hright.2⟩
    have hbody := Nat.max_le.mpr ⟨hfirst.2, hothers.2⟩
    refine ⟨?_, Nat.le_trans (Nat.succ_le_succ (Nat.max_le.mpr ⟨hsides, hbody⟩))
      (Nat.le_of_eq hroom.symm)⟩
    simp [Statement.wellFormed, Statement.blockWellFormed, hleft.1, hright.1, hfirst.1, hothers.1]
  | stop => exact ⟨rfl, Nat.zero_le _⟩
  | more _ _ hfirst hothers =>
    refine ⟨?_, Nat.max_le.mpr ⟨hfirst.2, hothers.2⟩⟩
    simp [Statement.blockWellFormed, hfirst.1, hothers.1]

theorem block_shaped {p : Parsed Block} (h : Id.run (block strategy tokens ctx pos) = some p) :
    Block.Shaped ctx.room p.value := by
  obtain ⟨first, others, hp, hfirst, hothers⟩ := block_derives statement_derives h
  obtain ⟨hwf, hnesting⟩ := (Derives.more hfirst hothers).shaped
  rw [hp]
  exact ⟨rfl, hwf, hnesting⟩

end Grammar

namespace Document

theorem mem_blocks {doc : Document} {block : Block} :
    block ∈ doc.blocks ↔ .block block ∈ doc.parts := by
  rw [blocks, List.mem_filterMap]
  constructor
  · rintro ⟨part, hmem, hpart⟩
    cases part <;> cases hpart
    exact hmem
  · intro hmem
    exact ⟨_, hmem, rfl⟩

theorem nesting_le_iff {doc : Document} {room : Nat} :
    doc.nesting ≤ room ↔ ∀ block ∈ doc.blocks, Statement.blockNesting block ≤ room := by
  constructor
  · intro h block hmem
    exact Nat.le_trans
      (List.le_max_of_le' 0 (List.mem_map.mpr ⟨block, hmem, rfl⟩) (Nat.le_refl _)) h
  · intro h
    refine List.max_le_of_forall_le (doc.blocks.map Statement.blockNesting) room ?_
    intro n hn
    obtain ⟨block, hmem, rfl⟩ := List.mem_map.mp hn
    exact h block hmem

/-- The shape of a document is the shape of its blocks. -/
theorem shaped_iff {doc : Document} {room : Nat} :
    doc.wellFormed = true ∧ doc.nesting ≤ room ↔
      ∀ block, .block block ∈ doc.parts → Block.Shaped room block := by
  rw [nesting_le_iff, wellFormed, List.all_eq_true]
  constructor
  · rintro ⟨hwf, hnesting⟩ block hmem
    have hblock := mem_blocks.mpr hmem
    obtain ⟨hsome, hstatements⟩ := Bool.and_eq_true_iff.mp (hwf block hblock)
    exact ⟨hsome, hstatements, hnesting block hblock⟩
  · intro h
    constructor
    · intro block hblock
      obtain ⟨hsome, hstatements, _⟩ := h block (mem_blocks.mp hblock)
      exact Bool.and_eq_true_iff.mpr ⟨hsome, hstatements⟩
    · intro block hblock
      exact (h block (mem_blocks.mp hblock)).nesting

end Document

theorem Grammar.document_shaped {p : Parsed Document}
    (h : Id.run (document strategy tokens ctx pos) = some p) :
    p.value.wellFormed = true ∧ p.value.nesting ≤ ctx.room := by
  refine Document.shaped_iff.mpr fun block hmem => ?_
  obtain ⟨_, found, hfound, rfl⟩ := blocks_of_document h block hmem
  exact block_shaped hfound

/-- A document that is read has the shape of reports and no more nesting than there is room for. -/
theorem Document.shaped_of_ofTokens {doc : Document} (h : ofTokens tokens = .ok doc) :
    doc.wellFormed = true ∧ doc.nesting ≤ Context.limit := by
  obtain ⟨found, hfound, rfl⟩ := ofTokensBy_eq_ok_iff.mp h
  exact Grammar.document_shaped hfound

end Dossier
