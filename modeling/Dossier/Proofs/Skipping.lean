import Dossier.Proofs.Header

namespace Dossier

open Grammar

variable {tokens : List Token} {ctx : Context} {kind : Kind} {pos index : Nat} {t : Token}
  {progress after : Progress} {found : Parsed Token}

/-- The first token of a kind at or behind a position. -/
structure IsFirstAhead (tokens : List Token) (kind : Kind) (pos index : Nat) (t : Token) :
    Prop where
  le : pos ≤ index
  at_index : tokens[index]? = some t
  kind_eq : t.kind = kind
  least : Free tokens kind pos index

/-- No token of the forbidden kind, if there is one, stands from one position up to another. -/
def Unbarred (tokens : List Token) (ctx : Context) (pos stop : Nat) : Prop :=
  ∀ barred ∈ ctx.forbidden, Free tokens barred pos stop

theorem finds_iff_first_ahead : Finds tokens ctx kind pos index t ↔
    IsFirstAhead tokens kind pos index t ∧ Unbarred tokens ctx pos index := by
  constructor
  · intro h
    refine ⟨⟨h.le, h.at_index, h.kind_eq, fun i u hle hlt hu => (h.passes i u hle hlt hu).1⟩, ?_⟩
    intro barred hbarred i u hle hlt hu he
    rw [← he] at hbarred
    exact (h.passes i u hle hlt hu).2 hbarred
  · rintro ⟨hfirst, hbar⟩
    refine ⟨hfirst.le, hfirst.at_index, hfirst.kind_eq, fun i u hle hlt hu => ?_⟩
    exact ⟨hfirst.least i u hle hlt hu, fun hf => hbar u.kind hf i u hle hlt hu rfl⟩

/-- What a stream with these books answers to a search, and the books that it then has. -/
def Progress.search (progress : Progress) (tokens : List Token) (ctx : Context) (kind : Kind)
    (pos : Nat) : Outcome Token × Progress :=
  StateT.run (token tokens ctx kind pos : StateM Progress _) progress

theorem search_eq_some_iff : progress.search tokens ctx kind pos = (some found, after) ↔
    ∃ index t, IsFirstAhead tokens kind pos index t ∧ Unbarred tokens ctx pos index ∧
      found = ⟨t, index, index + 1⟩ ∧ after = progress.reach (index + 1) := by
  rw [Progress.search, run_token_progress, Prod.mk.injEq, run_token_eq_some_iff]
  constructor
  · rintro ⟨⟨hfinds, hnext⟩, rfl⟩
    obtain ⟨hfirst, hbar⟩ := finds_iff_first_ahead.mp hfinds
    refine ⟨found.start, found.value, hfirst, hbar, ?_, ?_⟩
    · rw [← hnext]
    · rw [hfinds.run_token]
      rfl
  · rintro ⟨index, t, hfirst, hbar, rfl, rfl⟩
    have hfinds := finds_iff_first_ahead.mpr ⟨hfirst, hbar⟩
    refine ⟨⟨hfinds, rfl⟩, ?_⟩
    rw [hfinds.run_token]
    rfl

theorem search_eq_none_iff : progress.search tokens ctx kind pos = (none, after) ↔
    (¬ ∃ index t, IsFirstAhead tokens kind pos index t ∧ Unbarred tokens ctx pos index) ∧
      after = progress := by
  have hstay : progress.reach 0 = progress := by rw [Progress.reach, Mark.reach_zero]
  rw [Progress.search, run_token_progress, Prod.mk.injEq]
  constructor
  · rintro ⟨hnone, rfl⟩
    refine ⟨?_, by rw [hnone]; exact hstay⟩
    rintro ⟨index, t, hfinds⟩
    rw [(finds_iff_first_ahead.mpr hfinds).run_token] at hnone
    cases hnone
  · rintro ⟨hno, rfl⟩
    cases hrun : Id.run (token tokens ctx kind pos) with
    | none => exact ⟨rfl, hstay⟩
    | some p =>
      have hfinds := finds_iff_first_ahead.mp (run_token_eq_some_iff.mp hrun).1
      exact absurd ⟨p.start, p.value, hfinds⟩ hno

/-- A kind is not in its own way. -/
theorem search_own_kind_isSome_iff :
    (progress.search tokens (ctx.forbid kind) kind pos).1.isSome ↔
      ∃ index t, pos ≤ index ∧ tokens[index]? = some t ∧ t.kind = kind := by
  rw [Progress.search, run_token_progress, Option.isSome_iff_exists]
  constructor
  · rintro ⟨p, hp⟩
    have hfinds := (run_token_eq_some_iff.mp hp).1
    exact ⟨p.start, p.value, hfinds.le, hfinds.at_index, hfinds.kind_eq⟩
  · rintro ⟨index, t, hle, ht, hk⟩
    -- What is found without a ban is the first of its kind, so a ban on that kind changes nothing.
    have hopen : (Context.mk none ctx.room).forbidden = none := rfl
    obtain ⟨p, hp, _⟩ := run_token_of_unforbidden hopen hle ht hk
    obtain ⟨hfinds, hnext⟩ := run_token_eq_some_iff.mp hp
    obtain ⟨hfirst, _⟩ := finds_iff_first_ahead.mp hfinds
    have hbar : Unbarred tokens (ctx.forbid kind) pos p.start := by
      rintro barred ⟨⟩
      exact hfirst.least
    exact ⟨p, run_token_eq_some_iff.mpr ⟨finds_iff_first_ahead.mpr ⟨hfirst, hbar⟩, hnext⟩⟩

theorem search_of_unforbidden (h : progress.search tokens ctx kind pos = (some found, after)) :
    progress.search tokens { ctx with forbidden := none } kind pos = (some found, after) := by
  obtain ⟨index, t, hfirst, _, hfound, hafter⟩ := search_eq_some_iff.mp h
  exact search_eq_some_iff.mpr ⟨index, t, hfirst, by simp [Unbarred], hfound, hafter⟩

/-- Searching for a token, exactly. A search finds the first token of its kind if none of the
forbidden kind lies in front of that, and then the mark goes behind it if it was not there yet;
otherwise it fails and changes nothing. A forbidden kind can be searched for all the same, and what
is found under a ban is found without it. -/
theorem Progress.search_exactly (progress : Progress) (tokens : List Token) (ctx : Context)
    (kind : Kind) (pos : Nat) :
    (∀ found after, progress.search tokens ctx kind pos = (some found, after) ↔
      ∃ index t, IsFirstAhead tokens kind pos index t ∧ Unbarred tokens ctx pos index ∧
        found = ⟨t, index, index + 1⟩ ∧
        after = { progress with furthest := max progress.furthest (index + 1) }) ∧
    (∀ after, progress.search tokens ctx kind pos = (none, after) ↔
      (¬ ∃ index t, IsFirstAhead tokens kind pos index t ∧ Unbarred tokens ctx pos index) ∧
        after = progress) ∧
    ((progress.search tokens (ctx.forbid kind) kind pos).1.isSome ↔
      ∃ index t, pos ≤ index ∧ tokens[index]? = some t ∧ t.kind = kind) ∧
    ∀ found after, progress.search tokens ctx kind pos = (some found, after) →
      progress.search tokens { ctx with forbidden := none } kind pos = (some found, after) :=
  ⟨fun _ _ => search_eq_some_iff, fun _ => search_eq_none_iff, search_own_kind_isSome_iff,
    fun _ _ => search_of_unforbidden⟩

/-- The forbidden period is passed over by no search but the one for a period. -/
theorem Progress.search_exactly_of_barred_period :
    start.search [.the, .period, .the, .comma] ⟨some .period, 0⟩ .period 0 =
        (some ⟨.period, 1, 2⟩, start.reach 2) ∧
      start.search [.the, .period, .the, .comma] ⟨none, 0⟩ .period 0 =
        (some ⟨.period, 1, 2⟩, start.reach 2) ∧
      start.search [.the, .period, .the, .comma] ⟨some .period, 0⟩ .comma 0 = (none, start) := by
  have hperiod : start.search [.the, .period, .the, .comma] ⟨some .period, 0⟩ .period 0 =
      (some ⟨.period, 1, 2⟩, start.reach 2) := rfl
  exact ⟨hperiod, (search_exactly _ _ _ _ _).2.2.2 _ _ hperiod, rfl⟩

end Dossier
