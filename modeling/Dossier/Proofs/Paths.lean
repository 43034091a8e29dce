import Dossier.Proofs.Shape
import Dossier.Tree.Path

namespace Dossier

open Node

namespace Expression

mutual

theorem node_fits {room : Nat} : (e : Expression) → e.wellFormed = true → e.nesting ≤ room →
    e.node.Fits room
  | .variable _, _, _ | .constant _, _, _ | .square _, _, _ => fits_of_leaf rfl rfl rfl
  | .add _ right, hwf, hnesting => by
    have hright : right.node.Fits right.nesting := node_fits right hwf (Nat.le_refl _)
    refine fits_of_children rfl hnesting fun child hmem => ?_
    rw [List.mem_singleton.mp hmem]
    exact hright
  | .call _ args, hwf, hnesting => by
    obtain ⟨hsome, hargs⟩ := Bool.and_eq_true_iff.mp hwf
    refine fits_of_children ?_ hnesting (nodes_fit args hargs (Nat.le_refl _))
    cases args with
    | nil => cases hsome
    | cons => rfl

theorem nodes_fit {room : Nat} : (args : List Expression) → argumentsWellFormed args = true →
    argumentsNesting args ≤ room → ∀ child ∈ nodes args, child.Fits room
  | [], _, _ => nofun
  | e :: es, hwf, hnesting => by
    obtain ⟨hfirst, hothers⟩ := Bool.and_eq_true_iff.mp hwf
    obtain ⟨hle, hles⟩ := Nat.max_le.mp hnesting
    intro child hmem
    rcases List.mem_cons.mp hmem with rfl | hmem
    · exact node_fits e hfirst hle
    · exact nodes_fit es hothers hles child hmem

end

end Expression

variable {room : Nat}

theorem Equality.node_fits {e : Equality} (hleft : e.left.node.Fits room)
    (hright : e.right.node.Fits room) : e.node.Fits room := by
  refine fits_of_children rfl (Nat.le_refl _) fun child hmem => ?_
  simp only [Equality.node, Node.children, List.mem_cons, List.not_mem_nil, or_false] at hmem
  rcases hmem with rfl | rfl
  · exact hleft
  · exact hright

/-- A block fits if it has a statement and all its statements fit. -/
theorem Block.node_fits {block : Block} (hsome : (!block.isEmpty) = true)
    (h : ∀ child ∈ Statement.nodes block, child.Fits room) : (Block.node block).Fits room := by
  refine fits_of_children ?_ (Nat.le_refl _) h
  cases block with
  | nil => cases hsome
  | cons => rfl

namespace Statement

mutual

theorem node_fits {room : Nat} : (s : Statement) → s.wellFormed = true → s.nesting ≤ room →
    s.node.Fits room
  | .increment _, _, _ | .comment, _, _ | .invalid, _, _ => fits_of_leaf rfl rfl rfl
  | .goto label, _, _ => by
    refine fits_of_children rfl (Nat.le_refl _) fun child hmem => ?_
    rw [List.mem_singleton.mp hmem]
    exact fits_of_leaf rfl rfl rfl
  | .assignment _ (.constant _), _, _ => by
    refine fits_of_children rfl (Nat.le_refl _) fun child hmem => ?_
    rw [List.mem_singleton.mp hmem]
    exact fits_of_leaf rfl rfl rfl
  | .expression e, hwf, hnesting => by
    refine fits_of_children rfl (Nat.le_refl _) fun child hmem => ?_
    rw [List.mem_singleton.mp hmem]
    exact e.node_fits hwf hnesting
  | .conditional ⟨left, right⟩ body, hwf, hnesting => by
    simp only [wellFormed, Bool.and_eq_true] at hwf
    obtain ⟨⟨⟨hleft, hright⟩, hsome⟩, hbody⟩ := hwf
    refine fits_of_children rfl hnesting fun child hmem => ?_
    simp only [node, Node.children, List.mem_cons, List.not_mem_nil, or_false] at hmem
    rcases hmem with rfl | rfl
    · exact Equality.node_fits (left.node_fits hleft (by omega)) (right.node_fits hright (by omega))
    · exact Block.node_fits hsome (nodes_fit body hbody (Nat.le_max_right _ _))

theorem nodes_fit {room : Nat} : (block : Block) → blockWellFormed block = true →
    blockNesting block ≤ room → ∀ child ∈ nodes block, child.Fits room
  | [], _, _ => nofun
  | s :: ss, hwf, hnesting => by
    obtain ⟨hfirst, hothers⟩ := Bool.and_eq_true_iff.mp hwf
    obtain ⟨hle, hles⟩ := Nat.max_le.mp hnesting
    intro child hmem
    rcases List.mem_cons.mp hmem with rfl | hmem
    · exact node_fits s hfirst hle
    · exact nodes_fit ss hothers hles child hmem

end

end Statement

theorem Block.Shaped.node_fits {block : Block} (h : Block.Shaped room block) :
    (Block.node block).Fits room :=
  Block.node_fits h.nonempty (Statement.nodes_fit block h.wellFormed h.nesting)

theorem Document.node_fits {doc : Document} (hwf : doc.wellFormed = true)
    (hnesting : doc.nesting ≤ room) : doc.node.Fits room := by
  refine fits_of_children rfl (Nat.le_refl _) fun child hmem => ?_
  obtain ⟨part, hpart, rfl⟩ := List.mem_map.mp hmem
  cases part with
  | block block =>
    exact (Document.shaped_iff.mp ⟨hwf, hnesting⟩ block hpart).node_fits
  | label label => exact fits_of_leaf rfl rfl rfl

/-- Every tree that is found is made of proper nodes and keeps to the limit of nesting. On a way
down from an expression, a statement or a block, what nests is no more than what its context leaves
of the limit; on a way down from a document it is no more than the limit. -/
theorem Production.outcome_fits (tokens : List Token) :
    (∀ (forbidden : Option Kind) (depth pos : Nat),
      let ctx : Context := ⟨forbidden, Context.limit - depth⟩
      (∀ found, Production.expression.outcome tokens ctx pos = some found →
        (Expression.node found.value).Fits (Context.limit - depth)) ∧
      (∀ found, Production.statement.outcome tokens ctx pos = some found →
        (Statement.node found.value).Fits (Context.limit - depth)) ∧
      ∀ found, Production.block.outcome tokens ctx pos = some found →
        (Block.node found.value).Fits (Context.limit - depth)) ∧
    ∀ doc, Document.ofTokens tokens = .ok doc → doc.node.Fits Context.limit := by
  constructor
  · intro forbidden depth pos ctx
    refine ⟨fun found h => ?_, fun found h => ?_, fun found h => ?_⟩
    · rw [Production.outcome_eq_run] at h
      obtain ⟨hwf, hnesting⟩ := (Grammar.expression_derives h).shaped
      exact found.value.node_fits hwf hnesting
    · rw [Production.outcome_eq_run] at h
      obtain ⟨hwf, hnesting⟩ := (Grammar.statement_derives h).shaped
      exact found.value.node_fits hwf hnesting
    · rw [Production.outcome_eq_run] at h
      exact (Grammar.block_shaped h).node_fits
  · intro doc h
    obtain ⟨hwf, hnesting⟩ := Document.shaped_of_ofTokens h
    exact Document.node_fits hwf hnesting

/-- A sum under a condition takes up both of the last two levels. -/
theorem Production.outcome_fits_sum_in_condition :
    let tokens : List Token := [.ifWord, .identifier "x", .add, .constant 1, .verb .is,
      .constant 2, .comma, .period]
    let found : Statement := .conditional ⟨.add "x" (.constant 1), .constant 2⟩ [.invalid]
    Production.statement.outcome tokens ⟨none, Context.limit - 62⟩ 0 = some ⟨found, 0, 8⟩ ∧
      (Statement.node found).Fits 2 := by
  intro tokens found
  have h : Production.statement.outcome tokens ⟨none, Context.limit - 62⟩ 0 =
      some ⟨found, 0, 8⟩ := by
    rw [Production.outcome_eq_run]
    cbv
  exact ⟨h, ((Production.outcome_fits tokens).1 none 62 0).2.1 _ h⟩

end Dossier
