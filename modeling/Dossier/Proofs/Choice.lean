import Dossier.Outcome

namespace Dossier.Candidate

variable {α : Type} {candidates : List (Candidate α)} {best : Outcome α} {p : Parsed α}

@[simp] theorem nearer_none (best : Outcome α) (flag : Bool) :
    nearer best ⟨none, flag⟩ = best := by
  cases best <;> rfl

@[simp] theorem none_nearer (candidate : Candidate α) :
    nearer none candidate = candidate.outcome := by
  obtain ⟨_ | p, flag⟩ := candidate <;> rfl

/-- The candidate does not displace `p` once `p` is the best so far. -/
def LosesTo (p : Parsed α) (candidate : Candidate α) : Prop :=
  ∀ q, candidate.outcome = some q →
    p.start < q.start ∨ p.start = q.start ∧ (p.next ≤ q.next ∨ candidate.deprioritized = true)

/-- The candidate gives way to `p` when `p` comes after it. -/
def BeatenBy (p : Parsed α) (flag : Bool) (candidate : Candidate α) : Prop :=
  ∀ q, candidate.outcome = some q →
    p.start < q.start ∨ p.start = q.start ∧ p.next < q.next ∧ flag = false

theorem loses_of_behind {q : Parsed α} {flag : Bool} (hstart : p.start ≤ q.start)
    (hnext : p.next ≤ q.next) :
    p.start < q.start ∨ p.start = q.start ∧ (p.next ≤ q.next ∨ flag = true) := by
  rcases Nat.lt_or_eq_of_le hstart with hlt | he
  · exact .inl hlt
  · exact .inr ⟨he, .inl hnext⟩

theorem beaten_of_behind {q : Parsed α} (hstart : p.start ≤ q.start) (hnext : p.next < q.next) :
    p.start < q.start ∨ p.start = q.start ∧ p.next < q.next ∧ false = false := by
  rcases Nat.lt_or_eq_of_le hstart with hlt | he
  · exact .inl hlt
  · exact .inr ⟨he, hnext, rfl⟩

theorem nearer_of_loses {candidate : Candidate α} (h : candidate.LosesTo p) :
    nearer (some p) candidate = some p := by
  obtain ⟨_ | q, flag⟩ := candidate
  · rfl
  · have hq := h q rfl
    simp only [nearer, ite_eq_right_iff, Option.some.injEq]
    intro hnear
    rcases hq with hlt | ⟨he, hle | hflag⟩
    · omega
    · omega
    · rcases hnear with hlt | ⟨_, _, hfree⟩
      · omega
      · exact absurd hflag hfree

theorem fold_of_losers (h : ∀ c ∈ candidates, c.LosesTo p) :
    candidates.foldl nearer (some p) = some p := by
  induction candidates with
  | nil => rfl
  | cons c cs ih =>
    rw [List.foldl_cons, nearer_of_loses (h c List.mem_cons_self)]
    exact ih fun d hd => h d (List.mem_cons_of_mem c hd)

theorem fold_mem (h : candidates.foldl nearer best = some p) :
    best = some p ∨ ∃ c ∈ candidates, c.outcome = some p := by
  induction candidates generalizing best with
  | nil => exact .inl h
  | cons c cs ih =>
    rcases ih h with hb | ⟨d, hd, hp⟩
    · obtain ⟨_ | q, flag⟩ := c
      · exact .inl (by simpa using hb)
      · cases best with
        | none => exact .inr ⟨_, List.mem_cons_self, hb⟩
        | some b =>
          simp only [nearer] at hb
          split at hb
          · exact .inr ⟨_, List.mem_cons_self, hb⟩
          · exact .inl hb
    · exact .inr ⟨d, List.mem_cons_of_mem c hd, hp⟩

/-- What is chosen is one of the candidates. -/
theorem mem_of_chooseNearest (h : chooseNearest candidates = some p) :
    ∃ c ∈ candidates, c.outcome = some p := by
  rcases fold_mem h with hb | hc
  · cases hb
  · exact hc

theorem nearer_some (b : Parsed α) (c : Candidate α) :
    ∃ p, nearer (some b) c = some p ∧ p.start ≤ b.start ∧
      ∀ q, c.outcome = some q → p.start ≤ q.start := by
  obtain ⟨_ | q, flag⟩ := c
  · exact ⟨b, rfl, Nat.le_refl _, by simp⟩
  · simp only [nearer]
    split
    · exact ⟨q, rfl, by omega, by simp⟩
    · exact ⟨b, rfl, Nat.le_refl _, by simp; omega⟩

theorem fold_start_le (candidates : List (Candidate α)) (b : Parsed α) :
    ∃ p, candidates.foldl nearer (some b) = some p ∧ p.start ≤ b.start ∧
      ∀ c ∈ candidates, ∀ q, c.outcome = some q → p.start ≤ q.start := by
  induction candidates generalizing b with
  | nil => exact ⟨b, rfl, Nat.le_refl _, by simp⟩
  | cons c cs ih =>
    obtain ⟨b', hb, hle, hc⟩ := nearer_some b c
    obtain ⟨p, hp, hle', hcs⟩ := ih b'
    refine ⟨p, by rw [List.foldl_cons, hb, hp], Nat.le_trans hle' hle, ?_⟩
    intro d hd q hq
    rcases List.mem_cons.mp hd with rfl | hd
    · exact Nat.le_trans hle' (hc q hq)
    · exact hcs d hd q hq

/-- A success among the candidates makes the choice succeed, and no later than there. -/
theorem chooseNearest_of_mem {c : Candidate α} {q : Parsed α} (hc : c ∈ candidates)
    (hq : c.outcome = some q) : ∃ p, chooseNearest candidates = some p ∧ p.start ≤ q.start := by
  induction candidates with
  | nil => cases hc
  | cons d ds ih =>
    obtain ⟨_ | b, flag⟩ := d
    · rcases List.mem_cons.mp hc with rfl | hc
      · cases hq
      · exact ih hc
    · obtain ⟨p, hp, hle, hds⟩ := fold_start_le ds b
      refine ⟨p, hp, ?_⟩
      rcases List.mem_cons.mp hc with rfl | hc
      · cases hq
        exact hle
      · exact hds c hc q hq

/-- Nothing among the candidates starts before what is chosen. -/
theorem start_le_of_chooseNearest {c : Candidate α} {q : Parsed α}
    (h : chooseNearest candidates = some p) (hc : c ∈ candidates) (hq : c.outcome = some q) :
    p.start ≤ q.start := by
  obtain ⟨chosen, hchosen, hle⟩ := chooseNearest_of_mem hc hq
  rw [h] at hchosen
  cases hchosen
  exact hle

theorem chooseNearest_eq_none_iff :
    chooseNearest candidates = none ↔ ∀ c ∈ candidates, c.outcome = none := by
  constructor
  · intro h c hc
    cases hq : c.outcome with
    | none => rfl
    | some q =>
      obtain ⟨p, hp, _⟩ := chooseNearest_of_mem hc hq
      rw [h] at hp
      cases hp
  · intro h
    cases hp : chooseNearest candidates with
    | none => rfl
    | some p =>
      obtain ⟨c, hc, hq⟩ := mem_of_chooseNearest hp
      rw [h c hc] at hq
      cases hq

/-- A candidate wins that displaces whatever stands before it and that nothing after it
displaces. -/
theorem chooseNearest_of_wins (before : List (Candidate α)) (flag : Bool)
    (after : List (Candidate α)) (hbefore : ∀ c ∈ before, c.BeatenBy p flag)
    (hafter : ∀ c ∈ after, c.LosesTo p) :
    chooseNearest (before ++ ⟨some p, flag⟩ :: after) = some p := by
  have hwins : nearer (before.foldl nearer none) ⟨some p, flag⟩ = some p := by
    cases hb : before.foldl nearer none with
    | none => rfl
    | some b =>
      obtain ⟨c, hc, hq⟩ := mem_of_chooseNearest hb
      simp only [nearer, ite_eq_left_iff]
      intro hnot
      rcases hbefore c hc b hq with hlt | ⟨he, hlt, rfl⟩
      · exact absurd (.inl hlt) hnot
      · exact absurd (.inr ⟨he, hlt, by simp⟩) hnot
  rw [chooseNearest, List.foldl_append, List.foldl_cons, hwins]
  exact fold_of_losers hafter

/-- A candidate wins if every other one starts later. -/
theorem chooseNearest_of_alone (before : List (Candidate α)) (flag : Bool)
    (after : List (Candidate α))
    (h : ∀ c ∈ before ++ after, ∀ q, c.outcome = some q → p.start < q.start) :
    chooseNearest (before ++ ⟨some p, flag⟩ :: after) = some p := by
  refine chooseNearest_of_wins before flag after ?_ ?_
  · intro c hc q hq
    exact .inl (h c (List.mem_append_left after hc) q hq)
  · intro c hc q hq
    exact .inl (h c (List.mem_append_right before hc) q hq)

theorem nearer_of_lt {b : Outcome α} (flag : Bool) (h : ∀ r, b = some r → p.start < r.start) :
    nearer b ⟨some p, flag⟩ = some p := by
  cases b with
  | none => rfl
  | some r => simp [nearer, h r rfl]

/-- What starts behind a candidate still to come makes no difference. -/
theorem fold_of_beaten {b b' : Outcome α} {c : Candidate α} (hc : c ∈ candidates)
    (hp : c.outcome = some p) (hb : ∀ r, b = some r → p.start < r.start)
    (hb' : ∀ r, b' = some r → p.start < r.start) :
    candidates.foldl nearer b = candidates.foldl nearer b' := by
  induction candidates generalizing b b' with
  | nil => cases hc
  | cons d ds ih =>
    rw [List.foldl_cons, List.foldl_cons]
    obtain ⟨_ | q, flag⟩ := d
    · rcases List.mem_cons.mp hc with rfl | hc
      · cases hp
      · simpa using ih hc hb hb'
    · by_cases hq : q.start ≤ p.start
      · rw [nearer_of_lt flag fun r hr => Nat.lt_of_le_of_lt hq (hb r hr),
          nearer_of_lt flag fun r hr => Nat.lt_of_le_of_lt hq (hb' r hr)]
      · rcases List.mem_cons.mp hc with rfl | hc
        · cases hp
          exact absurd (Nat.le_refl _) hq
        · have behind : ∀ a : Outcome α, (∀ r, a = some r → p.start < r.start) →
              ∀ r, nearer a ⟨some q, flag⟩ = some r → p.start < r.start := by
            intro a ha r hr
            have hfold : [Candidate.mk (some q) flag].foldl nearer a = some r := hr
            rcases fold_mem hfold with h | ⟨e, he, h⟩
            · exact ha r h
            · cases List.mem_singleton.mp he
              cases h
              omega
          exact ih hc (behind b hb) (behind b' hb')

theorem chooseNearest_cons_of_beaten {d : Candidate α} {c : Candidate α} (hc : c ∈ candidates)
    (hp : c.outcome = some p) (hd : ∀ r, d.outcome = some r → p.start < r.start) :
    chooseNearest (d :: candidates) = chooseNearest candidates := by
  rw [chooseNearest, List.foldl_cons]
  exact fold_of_beaten hc hp (by simpa using hd) (by simp)

end Dossier.Candidate
