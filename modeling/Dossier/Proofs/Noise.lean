import Dossier.Proofs.AlignedGrammar

namespace Dossier

/-- The tokens of a stream that are not noise, in their order. -/
def withoutNoise (tokens : List Token) : List Token :=
  tokens.filter fun t => !t.kind.isNoise

/-- Where a position of a stream comes to lie once the noise is left out. -/
def placeWithoutNoise (tokens : List Token) (pos : Nat) : Nat :=
  (withoutNoise (tokens.take pos)).length

variable {tokens others : List Token} {ctx : Context} {kind : Kind} {pos : Nat}

/-- All kinds are heeded but those of noise. -/
def Kind.heeded (kind : Kind) : Bool := !kind.isNoise

theorem Kind.heeded_iff : kind.heeded = true ↔ kind.isNoise = false := by
  simp [heeded]

/-- The same token, or noise both. -/
def NoiseAlike (t u : Token) : Prop := t = u ∨ t.kind.isNoise = true ∧ u.kind.isNoise = true

theorem Outcome.moved_id {α : Type} (outcome : Outcome α) : outcome.moved id = outcome := by
  cases outcome <;> rfl

/-- A search that heeds no noise passes over it, whatever noise it is. -/
theorem firstOf_noise (ts : List Token) {t : Token} (ht : t.kind.isNoise = true)
    (hkind : kind.heeded = true) (hctx : ctx.Heeded Kind.heeded) :
    firstOf ctx kind pos (t :: ts) = firstOf ctx kind (pos + 1) ts := by
  have hne : t.kind ≠ kind := by
    rintro rfl
    simp [Kind.heeded, ht] at hkind
  have hpass : ¬ ctx.forbids t.kind = true := by
    intro hforbids
    have hheeded := hctx t.kind (Context.forbids_iff.mp hforbids)
    simp [Kind.heeded, ht] at hheeded
  rw [firstOf, if_neg hne, if_neg hpass]

theorem firstOf_noise_alike (hkind : kind.heeded = true) (hctx : ctx.Heeded Kind.heeded)
    (h : List.Forall₂ NoiseAlike tokens others) :
    firstOf ctx kind pos others = firstOf ctx kind pos tokens := by
  induction h generalizing pos with
  | nil => rfl
  | cons halike _ ih =>
    rcases halike with rfl | ⟨ht, hu⟩
    · simp only [firstOf, ih]
    · rw [firstOf_noise _ ht hkind hctx, firstOf_noise _ hu hkind hctx, ih]

theorem noise_alike_alignment (h : List.Forall₂ NoiseAlike tokens others) :
    Alignment Kind.heeded id tokens others where
  wanted _ hkind := Kind.heeded_iff.mpr hkind
  mono _ _ hle := hle
  succ _ _ _ _ := rfl
  length := h.length_eq
  finished pos hle := h.length_eq ▸ hle
  search ctx kind pos hkind hctx := by
    rw [Outcome.moved_id]
    exact firstOf_noise_alike hkind hctx (List.forall₂_drop pos h)

theorem withoutNoise_cons (t : Token) (ts : List Token) :
    withoutNoise (t :: ts) = if t.kind.isNoise then withoutNoise ts else t :: withoutNoise ts := by
  unfold withoutNoise
  cases h : t.kind.isNoise <;> simp [h]

theorem placeWithoutNoise_mono (tokens : List Token) {i j : Nat} (h : i ≤ j) :
    placeWithoutNoise tokens i ≤ placeWithoutNoise tokens j :=
  ((List.take_prefix_take_left h).sublist.filter _).length_le

theorem placeWithoutNoise_succ {t : Token} (h : tokens[pos]? = some t) :
    placeWithoutNoise tokens (pos + 1) =
      placeWithoutNoise tokens pos + if t.kind.isNoise then 0 else 1 := by
  unfold placeWithoutNoise
  rw [List.take_add_one, h, withoutNoise, List.filter_append, List.length_append]
  cases hnoise : t.kind.isNoise <;> simp [hnoise, withoutNoise]

theorem placeWithoutNoise_length (tokens : List Token) :
    placeWithoutNoise tokens tokens.length = (withoutNoise tokens).length := by
  rw [placeWithoutNoise, List.take_length]

/-- What lies ahead of a position without the noise lies ahead of its place. -/
theorem drop_withoutNoise (tokens : List Token) (pos : Nat) :
    (withoutNoise tokens).drop (placeWithoutNoise tokens pos) = withoutNoise (tokens.drop pos) := by
  have hsplit : withoutNoise tokens =
      withoutNoise (tokens.take pos) ++ withoutNoise (tokens.drop pos) := by
    unfold withoutNoise
    rw [← List.filter_append, List.take_append_drop]
  rw [hsplit, placeWithoutNoise, List.drop_left]

/-- The induction is on what lies ahead; each token of it moves the place on unless it is noise. -/
theorem firstOf_withoutNoise (hkind : kind.heeded = true) (hctx : ctx.Heeded Kind.heeded)
    {ahead : List Token} (h : tokens.drop pos = ahead) :
    firstOf ctx kind (placeWithoutNoise tokens pos) (withoutNoise ahead) =
      (firstOf ctx kind pos ahead).moved (placeWithoutNoise tokens) := by
  induction ahead generalizing pos with
  | nil => rfl
  | cons t ts ih =>
    have ht : tokens[pos]? = some t := by
      rw [← List.head?_drop, h]
      rfl
    have hts : tokens.drop (pos + 1) = ts := by
      rw [← List.tail_drop, h]
      rfl
    have hplace := placeWithoutNoise_succ ht
    by_cases hnoise : t.kind.isNoise = true
    · rw [withoutNoise_cons, if_pos hnoise, firstOf_noise ts hnoise hkind hctx, ← ih hts, hplace,
        if_pos hnoise, Nat.add_zero]
    · rw [if_neg hnoise] at hplace
      rw [withoutNoise_cons, if_neg hnoise]
      simp only [firstOf]
      split
      · simp [Parsed.moved, hplace]
      · split
        · rfl
        · rw [← ih hts, hplace]

theorem without_noise_alignment
    (hlast : ∀ last, tokens.getLast? = some last → last.kind.isNoise = false) :
    Alignment Kind.heeded (placeWithoutNoise tokens) tokens (withoutNoise tokens) where
  wanted _ hkind := Kind.heeded_iff.mpr hkind
  mono _ _ hle := placeWithoutNoise_mono tokens hle
  succ i t ht hheeded := by
    rw [placeWithoutNoise_succ ht, Kind.heeded_iff.mp hheeded]
    rfl
  length := placeWithoutNoise_length tokens
  finished pos hle := by
    apply Nat.le_of_not_lt
    intro hlt
    have hget : tokens[tokens.length - 1]? = some tokens[tokens.length - 1] :=
      List.getElem?_eq_getElem (by omega)
    have hclear := hlast _ (List.getLast?_eq_getElem? ▸ hget)
    have hplace := placeWithoutNoise_succ hget
    rw [Nat.sub_add_cancel (by omega), placeWithoutNoise_length, hclear] at hplace
    have hmono := placeWithoutNoise_mono tokens (Nat.le_sub_one_of_lt hlt)
    simp at hplace
    omega
  search ctx kind pos hkind hctx := by
    rw [drop_withoutNoise]
    exact firstOf_withoutNoise hkind hctx rfl

theorem Document.ofTokens_eq_ok_iff_outcome {doc : Document} :
    ofTokens tokens = .ok doc ↔
      ∃ found, Production.document.outcome tokens .root 0 = some found ∧ found.value = doc := by
  rw [Production.outcome_eq_run]
  exact ofTokensBy_eq_ok_iff

/-- Noise changes no result. No production asks for it: whatever the noise is replaced with, noise
again, every outcome stays the same. And from a stream that does not end with noise it can be left
out: every production finds the same at the places that are left, and parsing comes to the same
document. -/
theorem noise_changes_no_result (tokens : List Token) :
    (∀ (p : Production) (ctx : Context) (pos : Nat) (others : List Token),
      (∀ kind, p = .token kind → kind.isNoise = false) →
      (∀ kind, ctx.forbidden = some kind → kind.isNoise = false) →
      List.Forall₂ NoiseAlike tokens others →
        p.outcome others ctx pos = p.outcome tokens ctx pos) ∧
    ((∀ last, tokens.getLast? = some last → last.kind.isNoise = false) →
      (∀ (p : Production) (ctx : Context) (pos : Nat),
        (∀ kind, p = .token kind → kind.isNoise = false) →
        (∀ kind, ctx.forbidden = some kind → kind.isNoise = false) →
          p.outcome (withoutNoise tokens) ctx (placeWithoutNoise tokens pos) =
            (p.outcome tokens ctx pos).moved (placeWithoutNoise tokens)) ∧
      ∀ doc, Document.ofTokens tokens = .ok doc ↔
        Document.ofTokens (withoutNoise tokens) = .ok doc) := by
  refine ⟨fun p ctx pos others hp hctx halike => ?_, fun hlast => ?_⟩
  · have hsame := (noise_alike_alignment halike).outcome p
      (fun kind hkind => Kind.heeded_iff.mpr (hp kind hkind))
      (fun kind hkind => Kind.heeded_iff.mpr (hctx kind hkind)) pos
    rw [Outcome.moved_id] at hsame
    exact hsame
  · have hmoved : ∀ (p : Production) (ctx : Context) (pos : Nat),
        (∀ kind, p = .token kind → kind.isNoise = false) →
        (∀ kind, ctx.forbidden = some kind → kind.isNoise = false) →
          p.outcome (withoutNoise tokens) ctx (placeWithoutNoise tokens pos) =
            (p.outcome tokens ctx pos).moved (placeWithoutNoise tokens) :=
      fun p ctx pos hp hctx => (without_noise_alignment hlast).outcome p
        (fun kind hkind => Kind.heeded_iff.mpr (hp kind hkind))
        (fun kind hkind => Kind.heeded_iff.mpr (hctx kind hkind)) pos
    refine ⟨hmoved, fun doc => ?_⟩
    have hdocument : Production.document.outcome (withoutNoise tokens) .root 0 =
        (Production.document.outcome tokens .root 0).moved (placeWithoutNoise tokens) :=
      hmoved .document .root 0 (by simp) (by simp [Context.root])
    rw [Document.ofTokens_eq_ok_iff_outcome, Document.ofTokens_eq_ok_iff_outcome, hdocument]
    cases Production.document.outcome tokens .root 0 with
    | none => simp
    | some found => simp [Parsed.moved]

/-- Footnote marks and tildes between the words of a document, in two ways and not at all. -/
theorem noise_changes_no_result_between_words :
    let tokens : List Token := [.itemNumber 173, .tildes, .objectClass .euclid, .footnoteStart,
      .procedures, .footnoteEnd, .period]
    let others : List Token := [.itemNumber 173, .footnoteEnd, .objectClass .euclid, .tildes,
      .procedures, .tildes, .period]
    let doc : Document := ⟨173, .euclid, [.block [.invalid]]⟩
    List.Forall₂ NoiseAlike tokens others ∧
      Production.document.outcome others .root 0 = Production.document.outcome tokens .root 0 ∧
      (∀ last, tokens.getLast? = some last → last.kind.isNoise = false) ∧
      withoutNoise tokens = [.itemNumber 173, .objectClass .euclid, .procedures, .period] ∧
      Document.ofTokens tokens = .ok doc := by
  intro tokens others doc
  have halike : List.Forall₂ NoiseAlike tokens others := by
    simp [tokens, others, NoiseAlike, Token.kind, Kind.isNoise]
  have hlast : ∀ last, tokens.getLast? = some last → last.kind.isNoise = false := by
    rintro last ⟨⟩
    rfl
  have hdoc : Document.ofTokens (withoutNoise tokens) = .ok doc :=
    Document.ofTokensBy_eq_ok_iff.mpr ⟨⟨doc, 0, 4⟩, rfl, rfl⟩
  obtain ⟨hswap, hdrop⟩ := noise_changes_no_result tokens
  exact ⟨halike, hswap .document .root 0 others (by simp) (by simp [Context.root]) halike, hlast,
    rfl, ((hdrop hlast).2 doc).mpr hdoc⟩

end Dossier
