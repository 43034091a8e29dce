import Dossier.Proofs.Pruning
import Dossier.Proofs.Shape
import Dossier.Proofs.StatementWording
import Dossier.Proofs.SumWording

namespace Dossier

open Grammar

variable {tokens : List Token} {ctx : Context} {pos index next start : Nat}

theorem bodyPart_of_block {block : Block} (hclear : Clear tokens pos index)
    (hblock : Id.run (Grammar.block .exhaustive tokens ctx pos) = some ⟨block, index, next⟩) :
    Id.run (bodyPart .exhaustive tokens ctx pos) = some ⟨.block block, index, next⟩ := by
  obtain ⟨_, t, ht, hmem⟩ := block_spans.opens pos _ hblock
  have hkind : t.kind ∉ [Kind.addendum, .description] :=
    (by decide : ∀ k ∈ statementStart, k ∉ [Kind.addendum, .description]) t.kind hmem
  rw [run_bodyPart, hblock]
  refine Candidate.chooseNearest_of_alone [] false [_] ?_
  simp only [List.nil_append, List.mem_singleton, forall_eq]
  intro q hq
  exact (label_spans.opens.as BodyPart.label).later hclear ht (by decide) hkind hq

theorem bodyPart_of_label {label : Label} (hclear : Clear tokens pos index)
    (ht : tokens[index]? = some label.token) (hctx : ctx.forbidden ≠ some .rule) :
    Id.run (bodyPart .exhaustive tokens ctx pos) = some ⟨.label label, index, index + 1⟩ := by
  have hkind : label.token.kind ∉ statementStart := by
    cases label <;> simp [Label.token, Token.kind, statementStart]
  rw [run_bodyPart, run_label_of_reads hclear ht hctx]
  refine Candidate.chooseNearest_of_alone [_] false [] ?_
  simp only [List.append_nil, List.mem_singleton, forall_eq]
  intro q hq
  exact (block_spans.opens.as BodyPart.block).later hclear ht (by decide) hkind hq

/-- Only rules are left, so there is no part any more. -/
theorem bodyPart_at_end (hclear : Clear tokens pos index) (hend : tokens.length ≤ index) :
    Id.run (bodyPart .exhaustive tokens ctx pos) = none := by
  cases hpart : Id.run (bodyPart .exhaustive tokens ctx pos) with
  | none => rfl
  | some p =>
    have hle := bodyPart_spans.opens.le_start hclear (by decide) hpart
    obtain ⟨_, t, ht, _⟩ := bodyPart_spans.opens pos p hpart
    have hlt := (List.getElem?_eq_some_iff.mp ht).1
    omega

theorem block_of_bodyPart {block : Block} {p : Parsed BodyPart}
    (h : Id.run (bodyPart .exhaustive tokens ctx pos) = some p) (hvalue : p.value = .block block) :
    ∃ q, Id.run (Grammar.block .exhaustive tokens ctx pos) = some q ∧ q.value = block := by
  rw [run_bodyPart] at h
  obtain ⟨c, hc, hp⟩ := Candidate.mem_of_chooseNearest h
  simp only [List.mem_cons, List.not_mem_nil, or_false] at hc
  rcases hc with rfl | rfl
  · obtain ⟨q, hq, rfl⟩ := Outcome.as_eq_some_iff.mp hp
    exact ⟨q, hq, BodyPart.block.inj hvalue⟩
  · obtain ⟨q, _, rfl⟩ := Outcome.as_eq_some_iff.mp hp
    cases hvalue

theorem Reads.block {block : Block} {parts : List BodyPart}
    (h : Reads tokens index (Document.bodyWording .full (.block block :: parts))) :
    Reads tokens index (Statement.blockWording .full block ++
      .fixed .rule :: Document.bodyWording .full parts) := by
  simpa [Document.bodyWording, BodyPart.wording, Style.optional] using h

/-- The parts of a body come back if no variable in them is taken for a part of a sum. -/
theorem run_bodyParts_of_reads (parts : List BodyPart) (bound start : Nat) {pos index : Nat}
    (hregular : ∀ block, .block block ∈ parts →
      (!block.isEmpty) = true ∧ Block.Regular Context.limit block)
    (hlegible : Document.bodyLegible parts = true) (hbound : parts.length ≤ bound)
    (hclear : Clear tokens pos index)
    (hreads : Reads tokens index (Document.bodyWording .full parts)) :
    ∃ seq, Id.run (bodyParts .exhaustive tokens .root bound ⟨some start, pos⟩) =
      some (parts, seq) := by
  induction parts generalizing bound pos index with
  | nil =>
    cases bound with
    | zero => exact ⟨_, rfl⟩
    | succ bound =>
      rw [run_bodyParts, bodyPart_at_end hclear hreads.at_end]
      exact ⟨_, rfl⟩
  | cons part parts ih =>
    obtain ⟨bound, rfl⟩ : ∃ fewer, bound = fewer + 1 :=
      Nat.exists_eq_add_one.mpr (Nat.lt_of_lt_of_le (Nat.succ_pos _) hbound)
    have hothers := fun block hmem => hregular block (List.mem_cons_of_mem _ hmem)
    cases part with
    | block block =>
      obtain ⟨hsome, hshape⟩ := hregular block List.mem_cons_self
      simp only [Document.bodyLegible, Bool.and_eq_true] at hlegible
      have hreads := hreads.block
      have hblock := run_block_of_reads block hsome hshape hlegible.1 hclear hreads
      obtain ⟨hrule, hreads⟩ := hreads.append.fixed
      obtain ⟨seq, hrest⟩ :=
        ih bound hothers hlegible.2 (Nat.le_of_succ_le_succ hbound) (.past_rule hrule) hreads
      refine ⟨seq, ?_⟩
      have hpart : Id.run (bodyPart .exhaustive tokens .root pos) = some ⟨.block block, index,
          index + (Statement.blockWording .full block).length⟩ := bodyPart_of_block hclear hblock
      rw [run_bodyParts, hpart]
      simp [hrest]
    | label label =>
      obtain ⟨ht, hreads⟩ := hreads.fixed
      obtain ⟨seq, hrest⟩ :=
        ih bound hothers hlegible (Nat.le_of_succ_le_succ hbound) .here hreads
      refine ⟨seq, ?_⟩
      rw [run_bodyParts, bodyPart_of_label hclear ht (by simp [Context.root])]
      simp [hrest]

/-- The parts of a body that comes back had no variable taken for a part of a sum. -/
theorem bodyLegible_of_run (hsums : SumsComplete tokens) (parts : List BodyPart)
    {bound pos index : Nat} {seq : Sequence}
    (hregular : ∀ block, .block block ∈ parts →
      (!block.isEmpty) = true ∧ Block.Regular Context.limit block)
    (hclear : Clear tokens pos index)
    (hreads : Reads tokens index (Document.bodyWording .full parts))
    (h : Id.run (bodyParts .exhaustive tokens .root bound ⟨some start, pos⟩) =
      some (parts, seq)) :
    Document.bodyLegible parts = true := by
  induction parts generalizing bound pos index seq with
  | nil => rfl
  | cons part parts ih =>
    cases bound with
    | zero => cases h
    | succ bound =>
      have hothers := fun block hmem => hregular block (List.mem_cons_of_mem _ hmem)
      rw [run_bodyParts] at h
      cases hfound : Id.run (bodyPart .exhaustive tokens .root pos) with
      | none =>
        rw [hfound] at h
        cases h
      | some found =>
        rw [hfound] at h
        obtain ⟨⟨foundParts, seq'⟩, hrest, h⟩ := Option.map_eq_some_iff.mp h
        obtain ⟨hlist, rfl⟩ := Prod.mk.inj h
        obtain ⟨hpart, rfl⟩ : part = found.value ∧ parts = foundParts := List.cons.inj hlist.symm
        cases part with
        | block block =>
          obtain ⟨hsome, hshape⟩ := hregular block List.mem_cons_self
          have hreads := hreads.block
          obtain ⟨q, hq, hvalue⟩ := block_of_bodyPart hfound hpart.symm
          have hlegible :=
            blockLegible_of_run_block hsums block hshape hclear hreads hq hvalue
          have hblock :=
            run_block_of_reads block hsome hshape hlegible hclear hreads
          have hexact : Id.run (bodyPart .exhaustive tokens .root pos) = some ⟨.block block, index,
              index + (Statement.blockWording .full block).length⟩ :=
            bodyPart_of_block hclear hblock
          cases hfound.symm.trans hexact
          obtain ⟨hrule, hreads⟩ := hreads.append.fixed
          have hparts := ih hothers (.past_rule hrule) hreads hrest
          simp [Document.bodyLegible, hlegible, hparts]
        | label label =>
          obtain ⟨ht, hreads⟩ := hreads.fixed
          have hexact : Id.run (bodyPart .exhaustive tokens .root pos) =
              some ⟨.label label, index, index + 1⟩ :=
            bodyPart_of_label hclear ht (by simp [Context.root])
          cases hfound.symm.trans hexact
          exact ih hothers .here hreads hrest

namespace Document

theorem regular_of_mem {doc : Document} (hlast : doc.conditionalsLast = true)
    (hshape : doc.wellFormed = true ∧ doc.nesting ≤ Context.limit) {block : Block}
    (hmem : .block block ∈ doc.parts) :
    (!block.isEmpty) = true ∧ Block.Regular Context.limit block := by
  obtain ⟨hsome, hwf, hnesting⟩ := shaped_iff.mp hshape block hmem
  exact ⟨hsome, hwf, List.all_eq_true.mp hlast block (mem_blocks.mpr hmem), hnesting⟩

theorem length_le_bodyWording (parts : List BodyPart) :
    parts.length ≤ (bodyWording .full parts).length := by
  induction parts with
  | nil => exact Nat.le_refl 0
  | cons part parts ih =>
    have hpart : 0 < (part.wording .full).length := by
      cases part <;> simp [BodyPart.wording, Style.optional]
    simp only [bodyWording, List.length_cons, List.length_append]
    omega

/-- Behind a header that is worded as it should be, the body decides. -/
theorem run_document_of_reads {doc : Document} (h : Reads tokens 0 (doc.wording .full)) :
    Id.run (Grammar.document .exhaustive tokens .root 0) =
      (Id.run (bodyParts .exhaustive tokens .root tokens.length ⟨some 0, 3⟩)).map fun parts =>
        parts.2.finish ⟨doc.number, doc.objectClass, parts.1⟩ := by
  obtain ⟨hnumber, h⟩ := h.fixed
  obtain ⟨hclass, h⟩ := h.fixed
  obtain ⟨hheading, _⟩ := h.fixed
  have hnumber : Id.run (itemNumber tokens .root 0) = some ⟨doc.number, 0, 1⟩ :=
    run_itemNumber.mpr (run_token_here hnumber rfl)
  have hclass : Id.run (Grammar.objectClass tokens .root 1) = some ⟨doc.objectClass, 1, 2⟩ :=
    run_objectClass.mpr (run_token_here hclass rfl)
  have hheading : Id.run (token tokens .root .procedures 2) = some ⟨.procedures, 2, 3⟩ :=
    run_token_here hheading rfl
  rw [run_document, hnumber, Option.map_eq_bind]
  simp only [Option.bind_eq_bind, Option.bind_some, hclass, hheading]
  rfl

theorem body_of_reads {doc : Document} (h : Reads tokens 0 (doc.wording .full)) :
    Reads tokens 3 (bodyWording .full doc.parts) := by
  obtain ⟨_, h⟩ := h.fixed
  obtain ⟨_, h⟩ := h.fixed
  exact h.fixed.2

theorem length_parts_le {doc : Document} (h : Reads tokens 0 (doc.wording .full)) :
    doc.parts.length ≤ tokens.length := by
  have hwhole : Reads tokens 3 (bodyWording .full doc.parts ++ []) := by
    rw [List.append_nil]
    exact body_of_reads h
  exact Nat.le_trans (length_le_bodyWording doc.parts) hwhole.length_le

/-- A document comes back if no variable in it is taken for a part of a sum. -/
theorem ofTokens_of_legible {doc : Document} (hlast : doc.conditionalsLast = true)
    (hshape : doc.wellFormed = true ∧ doc.nesting ≤ Context.limit) (hlegible : doc.legible = true)
    (hreads : Reads tokens 0 (doc.wording .full)) : ofTokens tokens = .ok doc := by
  obtain ⟨seq, hparts⟩ := run_bodyParts_of_reads doc.parts tokens.length 0
    (fun _ hmem => regular_of_mem hlast hshape hmem) hlegible (length_parts_le hreads) .here
    (body_of_reads hreads)
  rw [ofTokens, ofTokensBy_eq_ok_iff, document_pruned, run_document_of_reads hreads]
  exact ⟨_, Option.map_eq_some_iff.mpr ⟨_, hparts, rfl⟩, rfl⟩

/-- In a document that comes back no variable was taken for a part of a sum. -/
theorem legible_of_ofTokens {doc : Document} (hlast : doc.conditionalsLast = true)
    (hreads : Reads tokens 0 (doc.wording .full)) (h : ofTokens tokens = .ok doc) :
    doc.legible = true := by
  have hshape := shaped_of_ofTokens h
  rw [ofTokens, ofTokensBy_eq_ok_iff, document_pruned, run_document_of_reads hreads] at h
  obtain ⟨found, hfound, hvalue⟩ := h
  obtain ⟨⟨parts, seq⟩, hparts, rfl⟩ := Option.map_eq_some_iff.mp hfound
  obtain rfl : parts = doc.parts := congrArg Document.parts hvalue
  exact bodyLegible_of_run (sumsComplete_of_reads hreads) doc.parts
    (fun _ hmem => regular_of_mem hlast hshape hmem) .here (body_of_reads hreads) hparts

/-- Reading undoes the wording of a document exactly if there is room for its nesting and none of
its variables is taken for a part of a sum. The tokens word a document with statements in each
block, arguments in each call, constants in each assignment and conditionals at the end of their
blocks. -/
theorem ofTokens_wording_iff (doc : Document) (tokens : List Token) (hwf : doc.wellFormed = true)
    (hlast : doc.conditionalsLast = true)
    (hwords : List.Forall₂ Slot.Accepts (doc.wording .full) tokens) :
    ofTokens tokens = .ok doc ↔ doc.nesting ≤ Context.limit ∧ doc.legible = true := by
  have hreads : Reads tokens 0 (doc.wording .full) := hwords
  constructor
  · intro h
    exact ⟨(shaped_of_ofTokens h).2, legible_of_ofTokens hlast hreads h⟩
  · rintro ⟨hnesting, hlegible⟩
    exact ofTokens_of_legible hlast ⟨hwf, hnesting⟩ hlegible hreads

/-- A condition, its consequence and a label behind them come back. -/
theorem ofTokens_wording_of_condition :
    ofTokens [.itemNumber 1, .objectClass .safe, .procedures, .ifWord, .identifier "x", .verb .is,
        .constant 1, .comma, .identifier "y", .increment, .period, .rule, .description] =
      .ok ⟨1, .safe, [.block [.conditional ⟨.variable "x", .constant 1⟩ [.increment "y"]],
        .label .description]⟩ :=
  (ofTokens_wording_iff _ _ rfl rfl (by decide)).mpr ⟨by decide, rfl⟩

/-- An argument that is a bare variable is lost if an argument behind it is a sum. -/
theorem ofTokens_wording_not_all :
    ¬ ∀ (doc : Document) (tokens : List Token), doc.wellFormed = true →
      doc.conditionalsLast = true → doc.nesting ≤ Context.limit →
      List.Forall₂ Slot.Accepts (doc.wording .full) tokens → ofTokens tokens = .ok doc := by
  intro hall
  have hwords : List.Forall₂ Slot.Accepts
      (wording .full ⟨1, .safe, [.block [.expression (.call "f" [.variable "x",
        .add "y" (.constant 1)])]]⟩)
      [.itemNumber 1, .objectClass .safe, .procedures, .openParen, .identifier "f",
        .identifier "x", .and, .identifier "y", .add, .constant 1, .closeParen, .period,
        .rule] := by
    decide
  have hlegible := legible_of_ofTokens rfl hwords (hall _ _ rfl rfl (by decide) hwords)
  cases hlegible

end Document

end Dossier
