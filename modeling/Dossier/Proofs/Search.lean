import Dossier.Proofs.Plain

namespace Dossier

variable {tokens : List Token} {ctx : Context} {kind : Kind} {pos index : Nat} {t u : Token}

/-- The token of a kind whose tokens carry nothing. -/
def Kind.token? : Kind → Option Token
  | itemNumber | objectClass | addendum | identifier | verb | constant => none
  | procedures => some .procedures
  | description => some .description
  | footnoteStart => some .footnoteStart
  | footnoteEnd => some .footnoteEnd
  | period => some .period
  | the => some .the
  | square => some .square
  | of => some .of
  | ifWord => some .ifWord
  | comma => some .comma
  | rule => some .rule
  | increment => some .increment
  | see => some .see
  | add => some .add
  | and => some .and
  | openParen => some .openParen
  | closeParen => some .closeParen
  | tildes => some .tildes
  | commentStart => some .commentStart
  | commentEnd => some .commentEnd

theorem Token.eq_of_kind {t u : Token} (h : t.kind.token? = some u) : t = u := by
  cases t <;> cases h <;> rfl

/-- A token and what stands behind it, with anything left out, are a part of what lies ahead. -/
theorem cons_sublist_drop {ts : List Token} (h : tokens[index]? = some t) (hle : pos ≤ index)
    (hts : ts.Sublist (tokens.drop (index + 1))) : (t :: ts).Sublist (tokens.drop pos) := by
  obtain ⟨hlt, rfl⟩ := List.getElem?_eq_some_iff.mp h
  have hhere : (tokens[index] :: ts).Sublist (tokens.drop index) := by
    rw [List.drop_eq_getElem_cons hlt]
    exact hts.cons_cons _
  exact hhere.trans (List.drop_sublist_drop_left tokens hle)

/-- From `pos` on, the first token of a kind is `token` at `index`, with nothing forbidden on the
way. -/
structure Finds (tokens : List Token) (ctx : Context) (kind : Kind) (pos index : Nat)
    (token : Token) : Prop where
  le : pos ≤ index
  at_index : tokens[index]? = some token
  kind_eq : token.kind = kind
  passes : ∀ i t, pos ≤ i → i < index → tokens[i]? = some t →
    t.kind ≠ kind ∧ ctx.forbidden ≠ some t.kind

theorem Finds.here (h : tokens[pos]? = some t) (hk : t.kind = kind) :
    Finds tokens ctx kind pos pos t :=
  ⟨Nat.le_refl pos, h, hk, fun i _ hle hlt => by omega⟩

/-- A search that starts on the way to what it finds finds the same. -/
theorem Finds.later {start : Nat} (h : Finds tokens ctx kind pos index t) (hpos : pos ≤ start)
    (hle : start ≤ index) : Finds tokens ctx kind start index t :=
  ⟨hle, h.at_index, h.kind_eq, fun i u hi => h.passes i u (Nat.le_trans hpos hi)⟩

/-- Tokens of two kinds are not found at one place. -/
theorem Finds.index_ne {word : Kind} {start i j : Nat} (h : Finds tokens ctx kind pos i t)
    (h' : Finds tokens ctx word start j u) (hne : kind ≠ word) : i ≠ j := by
  intro he
  have hat := h.at_index
  rw [he, h'.at_index, Option.some.injEq] at hat
  apply hne
  rw [← h.kind_eq, ← h'.kind_eq, hat]

theorem finds_cons_zero : Finds (t :: tokens) ctx kind 0 0 u ↔ t = u ∧ t.kind = kind := by
  constructor
  · intro h
    obtain rfl : t = u := by simpa using h.at_index
    exact ⟨rfl, h.kind_eq⟩
  · rintro ⟨rfl, hk⟩
    exact .here rfl hk

theorem finds_cons_succ {i : Nat} : Finds (t :: tokens) ctx kind 0 (i + 1) u ↔
    (t.kind ≠ kind ∧ ctx.forbidden ≠ some t.kind) ∧ Finds tokens ctx kind 0 i u := by
  constructor
  · intro h
    exact ⟨h.passes 0 t (Nat.le_refl 0) (Nat.succ_pos i) rfl, Nat.zero_le i, h.at_index, h.kind_eq,
      fun j v _ hj hv => h.passes (j + 1) v (Nat.zero_le _) (Nat.succ_lt_succ hj) hv⟩
  · rintro ⟨hpass, h⟩
    refine ⟨Nat.zero_le _, h.at_index, h.kind_eq, fun j v _ hj hv => ?_⟩
    cases j with
    | zero =>
      obtain rfl : t = v := by simpa using hv
      exact hpass
    | succ j => exact h.passes j v (Nat.zero_le j) (Nat.lt_of_succ_lt_succ hj) hv

theorem firstOf_eq_some_iff {p : Parsed Token} :
    firstOf ctx kind pos tokens = some p ↔
      ∃ i, p = ⟨p.value, pos + i, pos + i + 1⟩ ∧ Finds tokens ctx kind 0 i p.value := by
  induction tokens generalizing pos with
  | nil =>
    simp only [firstOf, reduceCtorEq, false_iff]
    rintro ⟨i, _, h⟩
    simpa using h.at_index
  | cons t ts ih =>
    obtain ⟨value, start, next⟩ := p
    simp only [firstOf]
    split
    · next hk =>
      constructor
      · rintro ⟨⟩
        exact ⟨0, rfl, finds_cons_zero.mpr ⟨rfl, hk⟩⟩
      · rintro ⟨_ | i, he, h⟩
        · rw [he, (finds_cons_zero.mp h).1]
          rfl
        · exact absurd hk (finds_cons_succ.mp h).1.1
    · next hk =>
      split
      · next hf =>
        simp only [reduceCtorEq, false_iff]
        rintro ⟨_ | i, _, h⟩
        · exact hk (finds_cons_zero.mp h).2
        · exact (finds_cons_succ.mp h).1.2 (Context.forbids_iff.mp hf)
      · next hf =>
        have hpass : t.kind ≠ kind ∧ ctx.forbidden ≠ some t.kind :=
          ⟨hk, fun he => hf (Context.forbids_iff.mpr he)⟩
        rw [ih]
        constructor
        · rintro ⟨i, he, h⟩
          exact ⟨i + 1, by simpa [Nat.add_assoc, Nat.add_comm, Nat.add_left_comm] using he,
            finds_cons_succ.mpr ⟨hpass, h⟩⟩
        · rintro ⟨_ | i, he, h⟩
          · exact absurd (finds_cons_zero.mp h).2 hk
          · exact ⟨i, by simpa [Nat.add_assoc, Nat.add_comm, Nat.add_left_comm] using he,
              (finds_cons_succ.mp h).2⟩

theorem finds_drop {i : Nat} :
    Finds (tokens.drop pos) ctx kind 0 i t ↔ Finds tokens ctx kind pos (pos + i) t := by
  constructor
  · intro h
    refine ⟨Nat.le_add_right pos i, by simpa using h.at_index, h.kind_eq, ?_⟩
    intro j u hle hlt hu
    obtain ⟨k, rfl⟩ := Nat.exists_eq_add_of_le hle
    exact h.passes k u (Nat.zero_le k) (by omega) (by simpa using hu)
  · intro h
    refine ⟨Nat.zero_le i, by simpa using h.at_index, h.kind_eq, ?_⟩
    intro j u _ hlt hu
    exact h.passes (pos + j) u (by omega) (by omega) (by simpa using hu)

/-- A search succeeds exactly where the first token of the kind is not cut off by a forbidden
one. -/
theorem run_token_eq_some_iff {p : Parsed Token} :
    Id.run (Grammar.token tokens ctx kind pos) = some p ↔
      Finds tokens ctx kind pos p.start p.value ∧ p.next = p.start + 1 := by
  rw [Grammar.run_token, firstOf_eq_some_iff]
  obtain ⟨value, start, next⟩ := p
  constructor
  · rintro ⟨i, he, h⟩
    cases he
    exact ⟨finds_drop.mp h, rfl⟩
  · rintro ⟨h, hn⟩
    obtain ⟨i, rfl⟩ := Nat.exists_eq_add_of_le h.le
    simp only at hn
    exact ⟨i, by rw [hn], finds_drop.mpr h⟩

theorem run_token_here (h : tokens[pos]? = some t) (hk : t.kind = kind) :
    Id.run (Grammar.token tokens ctx kind pos) = some ⟨t, pos, pos + 1⟩ :=
  run_token_eq_some_iff.mpr ⟨.here h hk, rfl⟩

/-- A token that a search may pass over makes no difference to it. -/
theorem run_token_succ (h : tokens[pos]? = some t) (hk : t.kind ≠ kind)
    (hf : ctx.forbidden ≠ some t.kind) :
    Id.run (Grammar.token tokens ctx kind pos) =
      Id.run (Grammar.token tokens ctx kind (pos + 1)) := by
  have hlt : pos < tokens.length := (List.getElem?_eq_some_iff.mp h).1
  have ht : tokens[pos] = t := (List.getElem?_eq_some_iff.mp h).2
  rw [Grammar.run_token, Grammar.run_token, List.drop_eq_getElem_cons hlt, ht, firstOf]
  simp [hk, hf]

/-- A forbidden token ends a search for any other. -/
theorem run_token_barred (h : tokens[pos]? = some t) (hk : t.kind ≠ kind)
    (hf : ctx.forbidden = some t.kind) : Id.run (Grammar.token tokens ctx kind pos) = none := by
  obtain ⟨hlt, rfl⟩ := List.getElem?_eq_some_iff.mp h
  rw [Grammar.run_token, List.drop_eq_getElem_cons hlt, firstOf, if_neg hk,
    if_pos (Context.forbids_iff.mpr hf)]

/-- A search that nothing bars goes no further than to any token of its kind. -/
theorem run_token_of_unbarred (hle : pos ≤ index) (h : tokens[index]? = some t) (hk : t.kind = kind)
    (hpass : ∀ i u, pos ≤ i → i < index → tokens[i]? = some u → ctx.forbidden ≠ some u.kind) :
    ∃ p, Id.run (Grammar.token tokens ctx kind pos) = some p ∧ p.next ≤ index + 1 := by
  obtain ⟨offset, rfl⟩ := Nat.exists_eq_add_of_le hle
  induction offset generalizing pos with
  | zero => exact ⟨_, run_token_here h hk, Nat.le_refl _⟩
  | succ offset ih =>
    have hlt : pos < tokens.length := by
      have hindex := (List.getElem?_eq_some_iff.mp h).1
      omega
    have hget : tokens[pos]? = some tokens[pos] := List.getElem?_eq_getElem hlt
    by_cases hhere : tokens[pos].kind = kind
    · exact ⟨_, run_token_here hget hhere, by simp⟩
    · have hstep : pos + (offset + 1) = pos + 1 + offset := by omega
      rw [hstep] at h hpass ⊢
      rw [run_token_succ hget hhere (hpass pos _ (Nat.le_refl pos) (by omega) hget)]
      exact ih (Nat.le_add_right _ _) h fun i u hle => hpass i u (Nat.le_of_succ_le hle)

/-- A search to which nothing is forbidden goes no further than to any token of its kind. -/
theorem run_token_of_unforbidden (hctx : ctx.forbidden = none) (hle : pos ≤ index)
    (h : tokens[index]? = some t) (hk : t.kind = kind) :
    ∃ p, Id.run (Grammar.token tokens ctx kind pos) = some p ∧ p.next ≤ index + 1 :=
  run_token_of_unbarred hle h hk fun _ _ _ _ _ => by simp [hctx]

/-- Where such a search fails there is no token of its kind ahead. -/
theorem kind_ne_of_unforbidden (hctx : ctx.forbidden = none)
    (hnone : Id.run (Grammar.token tokens ctx kind pos) = none) (hle : pos ≤ index)
    (h : tokens[index]? = some t) : t.kind ≠ kind := by
  intro hk
  obtain ⟨p, hp, _⟩ := run_token_of_unforbidden hctx hle h hk
  rw [hnone] at hp
  cases hp

/-- Where a token of one of the kinds lies ahead, looking ahead stops there at the latest. -/
theorem peek_le {kinds : List Kind} (hle : pos ≤ index) (h : tokens[index]? = some t)
    (hk : t.kind ∈ kinds) : ∃ i, peek tokens kinds pos = some i ∧ i ≤ index := by
  obtain ⟨offset, rfl⟩ := Nat.exists_eq_add_of_le hle
  have hget : (tokens.drop pos)[offset]? = some t := by simpa using h
  cases hfind : (tokens.drop pos).findIdx? fun token => kinds.contains token.kind with
  | none =>
    have hnone := List.findIdx?_eq_none_iff.mp hfind t (List.mem_of_getElem? hget)
    rw [List.contains_iff_mem.mpr hk] at hnone
    cases hnone
  | some i =>
    refine ⟨pos + i, by rw [peek, hfind]; rfl, Nat.add_le_add_left ?_ pos⟩
    obtain ⟨_, _, hfirst⟩ := List.findIdx?_eq_some_iff_getElem.mp hfind
    apply Nat.le_of_not_lt
    intro hlt
    obtain ⟨_, hoff⟩ := List.getElem?_eq_some_iff.mp hget
    exact hfirst offset hlt (by rw [hoff]; exact List.contains_iff_mem.mpr hk)

end Dossier
