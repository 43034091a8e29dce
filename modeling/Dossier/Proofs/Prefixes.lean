import Dossier.Proofs.Noise

namespace Dossier

variable {before tokens : List Token} {ctx : Context} {kind : Kind} {pos : Nat}

/-- A search counts on from the position that its first token has. -/
theorem firstOf_moved (offset pos : Nat) (ts : List Token) :
    firstOf ctx kind (offset + pos) ts = (firstOf ctx kind pos ts).moved (offset + ·) := by
  induction ts generalizing pos with
  | nil => rfl
  | cons t ts ih =>
    simp only [firstOf]
    split
    · rfl
    · split
      · rfl
      · exact ih (pos + 1)

/-- All kinds are heeded: behind a prefix stands the same stream, token for token. -/
theorem prefix_alignment (before tokens : List Token) :
    Alignment (fun _ => true) (before.length + ·) tokens (before ++ tokens) where
  wanted _ _ := rfl
  mono _ _ hle := Nat.add_le_add_left hle before.length
  succ _ _ _ _ := rfl
  length := List.length_append.symm
  finished pos hle := by
    rw [List.length_append] at hle
    exact Nat.le_of_add_le_add_left hle
  search ctx kind pos _ _ := by
    have hdrop : (before ++ tokens).drop (before.length + pos) = tokens.drop pos :=
      List.drop_length_add_append pos
    rw [hdrop]
    exact firstOf_moved before.length pos (tokens.drop pos)

/-- Where nothing is forbidden, a search passes over a prefix without a token of its kind. -/
theorem firstOf_append_of_lacks (hctx : ctx.forbidden = none)
    (h : ∀ t ∈ before, t.kind ≠ kind) :
    firstOf ctx kind pos (before ++ tokens) = firstOf ctx kind (pos + before.length) tokens := by
  induction before generalizing pos with
  | nil => rfl
  | cons t ts ih =>
    have hpass : ¬ ctx.forbids t.kind = true := by
      rw [Context.forbids_iff, hctx]
      nofun
    rw [List.cons_append, firstOf, if_neg (h t List.mem_cons_self), if_neg hpass,
      ih fun u hu => h u (List.mem_cons_of_mem t hu), List.length_cons, Nat.add_assoc,
      Nat.add_comm 1]

namespace Grammar

theorem itemNumber_append_of_lacks (hctx : ctx.forbidden = none)
    (h : ∀ t ∈ before, t.kind ≠ .itemNumber) :
    Id.run (itemNumber (before ++ tokens) ctx 0) =
      Id.run (itemNumber (before ++ tokens) ctx before.length) := by
  have htoken : Id.run (token (before ++ tokens) ctx .itemNumber 0) =
      Id.run (token (before ++ tokens) ctx .itemNumber before.length) := by
    rw [run_token, run_token, List.drop_zero, List.drop_left, firstOf_append_of_lacks hctx h,
      Nat.zero_add]
  simp only [itemNumber, Rule.read, Id.run_bind, htoken]

/-- A document begins at the first item number, whatever stands before. -/
theorem document_append_of_lacks {strategy : Strategy} (hctx : ctx.forbidden = none)
    (h : ∀ t ∈ before, t.kind ≠ .itemNumber) :
    Id.run (document strategy (before ++ tokens) ctx 0) =
      Id.run (document strategy (before ++ tokens) ctx before.length) := by
  rw [run_document, run_document, itemNumber_append_of_lacks hctx h]

end Grammar

/-- What is found depends on what lies ahead alone. Behind a prefix every production finds the same
in the same context, moved by the length of the prefix, or nothing either. So a prefix without an
item number makes no difference to the document that some tokens hold. -/
theorem Production.outcome_append (before tokens : List Token) :
    (∀ (p : Production) (ctx : Context) (pos : Nat),
      p.outcome (before ++ tokens) ctx (before.length + pos) =
        (p.outcome tokens ctx pos).moved (before.length + ·)) ∧
    ((∀ t ∈ before, t.kind ≠ .itemNumber) →
      ∀ doc, Document.ofTokens (before ++ tokens) = .ok doc ↔
        Document.ofTokens tokens = .ok doc) := by
  have hmoved : ∀ (p : Production) (ctx : Context) (pos : Nat),
      p.outcome (before ++ tokens) ctx (before.length + pos) =
        (p.outcome tokens ctx pos).moved (before.length + ·) :=
    fun p ctx pos => (prefix_alignment before tokens).outcome p (fun _ _ => rfl)
      (fun _ _ => rfl) pos
  refine ⟨hmoved, fun hbefore doc => ?_⟩
  have hdocument : Production.document.outcome (before ++ tokens) .root 0 =
      (Production.document.outcome tokens .root 0).moved (before.length + ·) := by
    rw [← hmoved, outcome_eq_run, outcome_eq_run]
    exact Grammar.document_append_of_lacks rfl hbefore
  rw [Document.ofTokens_eq_ok_iff_outcome, Document.ofTokens_eq_ok_iff_outcome, hdocument]
  cases Production.document.outcome tokens .root 0 with
  | none => simp
  | some found => simp [Parsed.moved]

/-- A title before the header of a document, with a number that is no item number. -/
theorem Production.outcome_append_behind_title :
    let before : List Token := [.the, .identifier "file", .constant 173]
    let tokens : List Token := [.itemNumber 173, .objectClass .euclid, .procedures, .period]
    let doc : Document := ⟨173, .euclid, [.block [.invalid]]⟩
    Production.statement.outcome (before ++ tokens) .root (before.length + 1) =
        some ⟨.invalid, 6, 7⟩ ∧
      (∀ t ∈ before, t.kind ≠ .itemNumber) ∧ Document.ofTokens (before ++ tokens) = .ok doc := by
  intro before tokens doc
  have hfound : Production.statement.outcome tokens .root 1 = some ⟨.invalid, 3, 4⟩ := by
    rw [outcome_eq_run]
    rfl
  have hbefore : ∀ t ∈ before, t.kind ≠ .itemNumber := by decide
  have hdoc : Document.ofTokens tokens = .ok doc :=
    Document.ofTokensBy_eq_ok_iff.mpr ⟨⟨doc, 0, 4⟩, rfl, rfl⟩
  obtain ⟨hmoved, hsame⟩ := Production.outcome_append before tokens
  refine ⟨?_, hbefore, (hsame hbefore doc).mpr hdoc⟩
  rw [hmoved, hfound]
  rfl

end Dossier
