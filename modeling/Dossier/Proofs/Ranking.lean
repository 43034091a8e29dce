import Dossier.Proofs.Choice

namespace Dossier

/-- The first of those in a list whose key is the least. -/
def IsFirstLeast {α : Type} (key : α → Nat) (xs : List α) (x : α) : Prop :=
  ∃ before after, xs = before ++ x :: after ∧
    (∀ y ∈ before, key x < key y) ∧ ∀ y ∈ after, key x ≤ key y

namespace Candidate

variable {α : Type}

/-- What was found, in the order of the candidates. -/
def successes (candidates : List (Candidate α)) : List (Parsed α) :=
  candidates.filterMap outcome

/-- What was found at one start, less what is deprioritized. -/
def rivals (start : Nat) (candidates : List (Candidate α)) : List (Parsed α) :=
  (successes (candidates.filter fun c => !c.deprioritized)).filter fun p => p.start = start

/-- The first success with the least start competes with its later rivals, even if it is
deprioritized itself. Of these it is the first one that ends soonest. -/
def IsNearest (candidates : List (Candidate α)) (p : Parsed α) : Prop :=
  ∃ before first flag later, candidates = before ++ ⟨some first, flag⟩ :: later ∧
    (∀ q ∈ successes candidates, first.start ≤ q.start) ∧
    (∀ q ∈ successes before, q.start ≠ first.start) ∧
    IsFirstLeast Parsed.next (first :: rivals first.start later) p

/-- A success with the least start, and of these the first one that ends latest. -/
def IsLongest (candidates : List (Candidate α)) (p : Parsed α) : Prop :=
  ∃ before after, successes candidates = before ++ p :: after ∧
    (∀ q ∈ successes candidates, p.start ≤ q.start) ∧
    (∀ q ∈ before, q.start = p.start → q.next < p.next) ∧
    ∀ q ∈ after, q.start = p.start → q.next ≤ p.next

end Candidate

variable {α : Type} {xs before before' after after' : List α} {x x' y : α} {key : α → Nat}

/-- Of two ways to cut one list at a member either both cut it at the same place or one cuts it in
front of the other. -/
theorem cut_cases (h : before ++ x :: after = before' ++ x' :: after') :
    (before = before' ∧ x = x' ∧ after = after') ∨ (x ∈ before' ∧ x' ∈ after) ∨
      (x' ∈ before ∧ x ∈ after') := by
  induction before generalizing before' with
  | nil =>
    cases before' with
    | nil => exact .inl ⟨rfl, List.cons.inj h⟩
    | cons y before' =>
      obtain ⟨rfl, rfl⟩ := List.cons.inj h
      right
      left
      simp
  | cons z before ih =>
    cases before' with
    | nil =>
      obtain ⟨rfl, rfl⟩ := List.cons.inj h
      right
      right
      simp
    | cons y before' =>
      obtain ⟨rfl, hcut⟩ := List.cons.inj h
      rcases ih hcut with ⟨rfl, hrest⟩ | ⟨hx, hx'⟩ | ⟨hx', hx⟩
      · exact .inl ⟨rfl, hrest⟩
      · exact .inr (.inl ⟨List.mem_cons_of_mem z hx, hx'⟩)
      · exact .inr (.inr ⟨List.mem_cons_of_mem z hx', hx⟩)

namespace IsFirstLeast

theorem singleton : IsFirstLeast key [x] x :=
  ⟨[], [], rfl, by simp, by simp⟩

theorem mem (h : IsFirstLeast key xs x) : x ∈ xs := by
  obtain ⟨before, after, rfl, _, _⟩ := h
  simp

theorem le (h : IsFirstLeast key xs x) (hy : y ∈ xs) : key x ≤ key y := by
  obtain ⟨before, after, rfl, hbefore, hafter⟩ := h
  rcases List.mem_append.mp hy with hy | hy
  · exact Nat.le_of_lt (hbefore y hy)
  · rcases List.mem_cons.mp hy with rfl | hy
    · exact Nat.le_refl _
    · exact hafter y hy

theorem concat_of_le (h : IsFirstLeast key xs x) (hle : key x ≤ key y) :
    IsFirstLeast key (xs ++ [y]) x := by
  obtain ⟨before, after, rfl, hbefore, hafter⟩ := h
  refine ⟨before, after ++ [y], by simp, hbefore, ?_⟩
  intro z hz
  rcases List.mem_append.mp hz with hz | hz
  · exact hafter z hz
  · rw [List.mem_singleton.mp hz]
    exact hle

theorem concat_of_lt (h : IsFirstLeast key xs x) (hlt : key y < key x) :
    IsFirstLeast key (xs ++ [y]) y := by
  refine ⟨xs, [], rfl, ?_, by simp⟩
  intro z hz
  exact Nat.lt_of_lt_of_le hlt (h.le hz)

theorem unique (h : IsFirstLeast key xs x) (h' : IsFirstLeast key xs x') : x = x' := by
  obtain ⟨before, after, rfl, hbefore, hafter⟩ := h
  obtain ⟨before', after', hcut, hbefore', hafter'⟩ := h'
  rcases cut_cases hcut with ⟨_, he, _⟩ | ⟨hx, hx'⟩ | ⟨hx', hx⟩
  · exact he
  · have hlt := hbefore' x hx
    have hle := hafter x' hx'
    omega
  · have hlt := hbefore x' hx'
    have hle := hafter' x hx
    omega

end IsFirstLeast

namespace Candidate

variable {candidates seen : List (Candidate α)} {c : Candidate α} {p q b : Parsed α} {start : Nat}
  {flag : Bool}

@[simp] theorem successes_append (candidates others : List (Candidate α)) :
    successes (candidates ++ others) = successes candidates ++ successes others := by
  simp [successes]

@[simp] theorem successes_none : successes [(⟨none, flag⟩ : Candidate α)] = [] := rfl

@[simp] theorem successes_some : successes [⟨some q, flag⟩] = [q] := rfl

theorem successes_eq_nil_iff : successes candidates = [] ↔ ∀ c ∈ candidates, c.outcome = none := by
  simp [successes]

theorem rivals_append (candidates others : List (Candidate α)) :
    rivals start (candidates ++ others) = rivals start candidates ++ rivals start others := by
  simp [rivals]

theorem rivals_none : rivals start [(⟨none, flag⟩ : Candidate α)] = [] := by
  cases flag <;> rfl

theorem rivals_of_rival (h : q.start = start) : rivals start [⟨some q, false⟩] = [q] := by
  simp [rivals, h]

theorem rivals_of_other (h : q.start ≠ start ∨ flag = true) :
    rivals start [⟨some q, flag⟩] = [] := by
  cases flag with
  | true => rfl
  | false =>
    have hne : q.start ≠ start := by simpa using h
    simp [rivals, hne]

theorem mem_successes_concat {r : Parsed α} :
    r ∈ successes (seen ++ [⟨some q, flag⟩]) ↔ r ∈ successes seen ∨ r = q := by
  simp

theorem start_of_mem_rivals (h : p ∈ rivals start candidates) : p.start = start := by
  simpa using (List.mem_filter.mp h).2

theorem mem_successes_of_mem_rivals (h : p ∈ rivals start candidates) :
    p ∈ successes candidates := by
  have hmem := (List.mem_filter.mp h).1
  exact List.filterMap_subset outcome List.filter_sublist.subset hmem

/-- Whoever wins among the first one and its rivals starts where the first one does. -/
theorem start_of_rival (h : IsFirstLeast Parsed.next (b :: rivals b.start candidates) p) :
    p.start = b.start := by
  rcases List.mem_cons.mp h.mem with rfl | hmem
  · rfl
  · exact start_of_mem_rivals hmem

theorem IsNearest.mem (h : IsNearest seen b) : b ∈ successes seen := by
  obtain ⟨before, first, flag, later, rfl, _, _, hchosen⟩ := h
  rcases List.mem_cons.mp hchosen.mem with rfl | hmem
  · simp [successes]
  · have hlater := mem_successes_of_mem_rivals hmem
    rw [List.append_cons, successes_append]
    exact List.mem_append_right _ hlater

theorem IsNearest.start_le (h : IsNearest seen b) : ∀ r ∈ successes seen, b.start ≤ r.start := by
  obtain ⟨before, first, flag, later, _, hleast, _, hchosen⟩ := h
  rw [start_of_rival hchosen]
  exact hleast

/-- A candidate that starts before all that was seen so far is the nearest. -/
theorem isNearest_of_lt (h : ∀ r ∈ successes seen, q.start < r.start) :
    IsNearest (seen ++ [⟨some q, flag⟩]) q := by
  refine ⟨seen, q, flag, [], rfl, ?_, ?_, .singleton⟩
  · intro r hr
    rcases mem_successes_concat.mp hr with hr | rfl
    · exact Nat.le_of_lt (h r hr)
    · exact Nat.le_refl _
  · intro r hr
    exact Nat.ne_of_gt (h r hr)

theorem IsNearest.concat_none (h : IsNearest seen b) : IsNearest (seen ++ [⟨none, flag⟩]) b := by
  obtain ⟨before, first, flag', later, rfl, hleast, hfirst, hchosen⟩ := h
  refine ⟨before, first, flag', later ++ [⟨none, flag⟩], by simp, ?_, hfirst, ?_⟩
  · rwa [successes_append, successes_none, List.append_nil]
  · rwa [rivals_append, rivals_none, List.append_nil]

/-- A candidate that does not start before the nearest so far makes a difference only as a rival
that ends before it. -/
theorem IsNearest.concat_some (h : IsNearest seen b) (hle : b.start ≤ q.start) :
    IsNearest (seen ++ [⟨some q, flag⟩])
      (if q.start = b.start ∧ q.next < b.next ∧ flag = false then q else b) := by
  have hleast : ∀ r ∈ successes (seen ++ [⟨some q, flag⟩]), b.start ≤ r.start := by
    intro r hr
    rcases mem_successes_concat.mp hr with hr | rfl
    · exact h.start_le r hr
    · exact hle
  obtain ⟨before, first, flag', later, rfl, _, hfirst, hchosen⟩ := h
  have hstart := start_of_rival hchosen
  refine ⟨before, first, flag', later ++ [⟨some q, flag⟩], by simp, hstart ▸ hleast, hfirst, ?_⟩
  rw [rivals_append, ← List.cons_append]
  by_cases hrival : q.start = first.start ∧ flag = false
  · obtain ⟨hq, rfl⟩ := hrival
    rw [rivals_of_rival hq]
    split
    · next hwins => exact hchosen.concat_of_lt hwins.2.1
    · next hloses =>
      apply hchosen.concat_of_le
      simpa [hq, hstart] using hloses
  · have hother : q.start ≠ first.start ∨ flag = true := by
      by_cases hq : q.start = first.start
      · right
        simpa [hq] using hrival
      · exact .inl hq
    rw [rivals_of_other hother, List.append_nil, if_neg]
    · exact hchosen
    · intro hwins
      exact hrival ⟨hwins.1.trans hstart, hwins.2.2⟩

theorem IsNearest.unique (h : IsNearest candidates p) (h' : IsNearest candidates q) : p = q := by
  obtain ⟨before, first, flag, later, rfl, hleast, hfirst, hchosen⟩ := h
  obtain ⟨before', first', flag', later', hcut, hleast', hfirst', hchosen'⟩ := h'
  have hmem : first ∈ successes (before ++ ⟨some first, flag⟩ :: later) := by
    simp [successes]
  have hmem' : first' ∈ successes (before ++ ⟨some first, flag⟩ :: later) := by
    rw [hcut]
    simp [successes]
  have hstart : first.start = first'.start :=
    Nat.le_antisymm (hleast first' hmem') (hleast' first hmem)
  rcases cut_cases hcut with ⟨_, he, rfl⟩ | ⟨hc, _⟩ | ⟨hc, _⟩
  · cases he
    exact hchosen.unique hchosen'
  · exact absurd hstart (hfirst' first (List.mem_filterMap.mpr ⟨_, hc, rfl⟩))
  · exact absurd hstart.symm (hfirst first' (List.mem_filterMap.mpr ⟨_, hc, rfl⟩))

theorem IsLongest.mem (h : IsLongest seen b) : b ∈ successes seen := by
  obtain ⟨before, after, hsplit, _⟩ := h
  simp [hsplit]

theorem IsLongest.start_le (h : IsLongest seen b) : ∀ r ∈ successes seen, b.start ≤ r.start := by
  obtain ⟨before, after, _, hleast, _⟩ := h
  exact hleast

theorem IsLongest.next_le (h : IsLongest seen b) :
    ∀ r ∈ successes seen, r.start = b.start → r.next ≤ b.next := by
  obtain ⟨before, after, hsplit, _, hbefore, hafter⟩ := h
  intro r hr hstart
  rw [hsplit] at hr
  rcases List.mem_append.mp hr with hr | hr
  · exact Nat.le_of_lt (hbefore r hr hstart)
  · rcases List.mem_cons.mp hr with rfl | hr
    · exact Nat.le_refl _
    · exact hafter r hr hstart

/-- A candidate is the longest that starts before all that was seen so far, or where the first of it
does and ends behind that. -/
theorem isLongest_of_beats (hstart : ∀ r ∈ successes seen, q.start ≤ r.start)
    (hnext : ∀ r ∈ successes seen, r.start = q.start → r.next < q.next) :
    IsLongest (seen ++ [⟨some q, flag⟩]) q := by
  refine ⟨successes seen, [], by simp, ?_, hnext, by simp⟩
  intro r hr
  rcases mem_successes_concat.mp hr with hr | rfl
  · exact hstart r hr
  · exact Nat.le_refl _

theorem IsLongest.concat_none (h : IsLongest seen b) : IsLongest (seen ++ [⟨none, flag⟩]) b := by
  rw [IsLongest, successes_append, successes_none, List.append_nil]
  exact h

theorem IsLongest.concat_some (h : IsLongest seen b) (hstart : b.start ≤ q.start)
    (hnext : q.start = b.start → q.next ≤ b.next) : IsLongest (seen ++ [⟨some q, flag⟩]) b := by
  obtain ⟨before, after, hsplit, hleast, hbefore, hafter⟩ := h
  refine ⟨before, after ++ [q], by simp [hsplit], ?_, hbefore, ?_⟩
  · intro r hr
    rcases mem_successes_concat.mp hr with hr | rfl
    · exact hleast r hr
    · exact hstart
  · intro r hr
    rcases List.mem_append.mp hr with hr | hr
    · exact hafter r hr
    · rw [List.mem_singleton.mp hr]
      exact hnext

theorem IsLongest.unique (h : IsLongest candidates p) (h' : IsLongest candidates q) : p = q := by
  obtain ⟨before, after, hsplit, hleast, hbefore, hafter⟩ := h
  obtain ⟨before', after', hsplit', hleast', hbefore', hafter'⟩ := h'
  have hmem : p ∈ successes candidates := by simp [hsplit]
  have hmem' : q ∈ successes candidates := by simp [hsplit']
  have hstart : p.start = q.start := Nat.le_antisymm (hleast q hmem') (hleast' p hmem)
  rcases cut_cases (hsplit.symm.trans hsplit') with ⟨_, he, _⟩ | ⟨hp, hq⟩ | ⟨hq, hp⟩
  · exact he
  · have hlt := hbefore' p hp hstart
    have hle := hafter q hq hstart.symm
    omega
  · have hlt := hbefore q hq hstart.symm
    have hle := hafter' p hp hstart
    omega

/-- What one turn of a choice owes to a ranking so that the choice comes to what is ranked first. -/
structure Obeys (turn : Outcome α → Candidate α → Outcome α)
    (ranking : List (Candidate α) → Parsed α → Prop) : Prop where
  unique {candidates : List (Candidate α)} {p q : Parsed α} :
    ranking candidates p → ranking candidates q → p = q
  mem {candidates : List (Candidate α)} {p : Parsed α} :
    ranking candidates p → p ∈ successes candidates
  skips (best : Outcome α) (flag : Bool) : turn best ⟨none, flag⟩ = best
  concat_none {seen : List (Candidate α)} {b : Parsed α} {flag : Bool} :
    ranking seen b → ranking (seen ++ [⟨none, flag⟩]) b
  first {seen : List (Candidate α)} (q : Parsed α) (flag : Bool) : successes seen = [] →
    turn none ⟨some q, flag⟩ = some q ∧ ranking (seen ++ [⟨some q, flag⟩]) q
  next {seen : List (Candidate α)} {b : Parsed α} (q : Parsed α) (flag : Bool) : ranking seen b →
    ∃ p, turn (some b) ⟨some q, flag⟩ = some p ∧ ranking (seen ++ [⟨some q, flag⟩]) p

namespace Obeys

variable {turn : Outcome α → Candidate α → Outcome α}
  {ranking : List (Candidate α) → Parsed α → Prop}

/-- Once something was found, the best so far is what is ranked first so far. -/
theorem fold_some (h : Obeys turn ranking) (candidates : List (Candidate α))
    (hb : ranking seen b) :
    ∃ p, candidates.foldl turn (some b) = some p ∧ ranking (seen ++ candidates) p := by
  induction candidates generalizing seen b with
  | nil => exact ⟨b, rfl, by simpa using hb⟩
  | cons c cs ih =>
    rw [List.foldl_cons, List.append_cons]
    obtain ⟨_ | q, flag⟩ := c
    · rw [h.skips]
      exact ih (h.concat_none hb)
    · obtain ⟨p, hturn, hp⟩ := h.next q flag hb
      rw [hturn]
      exact ih hp

theorem fold_none (h : Obeys turn ranking) (candidates : List (Candidate α))
    (hseen : successes seen = []) :
    (candidates.foldl turn none = none ∧ successes (seen ++ candidates) = []) ∨
      ∃ p, candidates.foldl turn none = some p ∧ ranking (seen ++ candidates) p := by
  induction candidates generalizing seen with
  | nil => exact .inl ⟨rfl, by simpa using hseen⟩
  | cons c cs ih =>
    rw [List.foldl_cons, List.append_cons]
    obtain ⟨_ | q, flag⟩ := c
    · rw [h.skips]
      apply ih
      simpa using hseen
    · obtain ⟨hturn, hq⟩ := h.first q flag hseen
      rw [hturn]
      exact .inr (h.fold_some cs hq)

/-- The choice fails only where nothing was found, and picks what is ranked first. -/
theorem choice_iff (h : Obeys turn ranking) (candidates : List (Candidate α)) :
    (candidates.foldl turn none = none ↔ ∀ c ∈ candidates, c.outcome = none) ∧
      ∀ p, candidates.foldl turn none = some p ↔ ranking candidates p := by
  rw [← successes_eq_nil_iff]
  have hstart : successes ([] : List (Candidate α)) = [] := rfl
  rcases h.fold_none candidates hstart with ⟨hchoice, hnone⟩ | ⟨b, hchoice, hb⟩
  · rw [List.nil_append] at hnone
    refine ⟨by simp [hchoice, hnone], fun p => ?_⟩
    rw [hchoice]
    constructor
    · intro hp
      cases hp
    · intro hp
      have hmem := h.mem hp
      simp [hnone] at hmem
  · rw [List.nil_append] at hb
    have hne := List.ne_nil_of_mem (h.mem hb)
    refine ⟨by simp [hchoice, hne], fun p => ?_⟩
    rw [hchoice, Option.some.injEq]
    constructor
    · intro he
      rwa [← he]
    · exact h.unique hb

end Obeys

theorem nearer_obeys : Obeys nearer (@IsNearest α) where
  unique := IsNearest.unique
  mem := IsNearest.mem
  skips := nearer_none
  concat_none := IsNearest.concat_none
  first q flag hseen := ⟨rfl, isNearest_of_lt (by simp [hseen])⟩
  next := by
    intro seen b q flag h
    by_cases hlt : q.start < b.start
    · refine ⟨q, by simp [nearer, hlt], isNearest_of_lt ?_⟩
      intro r hr
      exact Nat.lt_of_lt_of_le hlt (h.start_le r hr)
    · refine ⟨_, ?_, h.concat_some (Nat.le_of_not_lt hlt)⟩
      simp only [nearer, hlt, false_or, Bool.not_eq_true]
      split <;> rfl

theorem longer_obeys : Obeys longer (@IsLongest α) where
  unique := IsLongest.unique
  mem := IsLongest.mem
  skips best flag := by cases best <;> rfl
  concat_none := IsLongest.concat_none
  first q flag hseen := ⟨rfl, isLongest_of_beats (by simp [hseen]) (by simp [hseen])⟩
  next := by
    intro seen b q flag h
    by_cases hbeats : q.start < b.start ∨ q.start = b.start ∧ b.next < q.next
    · refine ⟨q, if_pos hbeats, isLongest_of_beats ?_ ?_⟩
      · intro r hr
        have hle := h.start_le r hr
        omega
      · intro r hr hstart
        have hle := h.start_le r hr
        have hnext := h.next_le r hr
        omega
    · exact ⟨b, if_neg hbeats, h.concat_some (by omega) (by omega)⟩

/-- Both choices fail only where nothing was found. The nearest that is chosen is the first to end
of the first success with the least start and its later rivals; the longest is the last to end of
all successes with the least start. Of those that end alike the first is taken. -/
theorem choices_iff_ranked (candidates : List (Candidate α)) :
    ((chooseNearest candidates = none ↔ ∀ c ∈ candidates, c.outcome = none) ∧
      ∀ p, chooseNearest candidates = some p ↔ IsNearest candidates p) ∧
    (chooseLongest candidates = none ↔ ∀ c ∈ candidates, c.outcome = none) ∧
      ∀ p, chooseLongest candidates = some p ↔ IsLongest candidates p :=
  ⟨nearer_obeys.choice_iff candidates, longer_obeys.choice_iff candidates⟩

end Candidate

end Dossier
