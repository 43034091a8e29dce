import Dossier.Proofs.Loops
import Dossier.Proofs.Pruning

namespace Dossier

/-- The kinds of token that no form of the grammar has a place for. -/
def Kind.isNoise : Kind → Bool
  | footnoteStart | footnoteEnd | tildes => true
  | _ => false

variable {α β : Type} {place : Nat → Nat}

def Parsed.moved (place : Nat → Nat) (p : Parsed α) : Parsed α :=
  ⟨p.value, place p.start, place p.next⟩

def Outcome.moved (place : Nat → Nat) (outcome : Outcome α) : Outcome α :=
  outcome.map (Parsed.moved place)

def Candidate.moved (place : Nat → Nat) (c : Candidate α) : Candidate α :=
  ⟨c.outcome.moved place, c.deprioritized⟩

def Sequence.moved (place : Nat → Nat) (seq : Sequence) : Sequence :=
  ⟨seq.start.map place, place seq.position⟩

@[simp] theorem Outcome.moved_none : Outcome.moved place (none : Outcome α) = none := rfl

@[simp] theorem Outcome.moved_some (p : Parsed α) :
    Outcome.moved place (some p) = some (p.moved place) := rfl

theorem Outcome.read_moved (f : α → Option β) (outcome : Outcome α) :
    (outcome.moved place).read f = (outcome.read f).moved place := by
  cases outcome with
  | none => rfl
  | some p =>
    simp only [moved_some, read, Parsed.moved, Option.bind_some]
    cases f p.value <;> rfl

theorem Outcome.as_moved (f : α → β) (outcome : Outcome α) :
    (outcome.moved place).as f = (outcome.as f).moved place := by
  cases outcome <;> rfl

theorem Sequence.advance_moved (seq : Sequence) (p : Parsed α) :
    (seq.moved place).advance (p.moved place) = (seq.advance p).moved place := by
  obtain ⟨_ | start, position⟩ := seq <;> rfl

theorem Sequence.finish_moved (seq : Sequence) (value : α) :
    (seq.moved place).finish value = (seq.finish value).moved place := by
  obtain ⟨_ | start, position⟩ := seq <;> rfl

/-- From the place of a position the second rule finds what the first finds from the position. -/
def Rule.Aligned (place : Nat → Nat) (rule rule' : Rule Id α) : Prop :=
  ∀ pos, Id.run (rule' (place pos)) = (Id.run (rule pos)).moved place

def Steps.Aligned (place : Nat → Nat) (steps steps' : Steps Id α) : Prop :=
  ∀ seq, Id.run (steps' (seq.moved place)) =
    (Id.run (steps seq)).map fun r => (r.1, r.2.moved place)

namespace Rule.Aligned

variable {rule rule' : Rule Id α}

theorem never : Rule.Aligned place (.never : Rule Id α) .never :=
  fun _ => rfl

theorem read (f : α → Option β) (h : Rule.Aligned place rule rule') :
    Rule.Aligned place (rule.read f) (rule'.read f) := by
  intro pos
  change (Id.run (rule' (place pos))).read f = ((Id.run (rule pos)).read f).moved place
  rw [h pos, Outcome.read_moved]

theorem as (f : α → β) (h : Rule.Aligned place rule rule') :
    Rule.Aligned place (rule.as f) (rule'.as f) := by
  intro pos
  change (Id.run (rule' (place pos))).as f = ((Id.run (rule pos)).as f).moved place
  rw [h pos, Outcome.as_moved]

end Rule.Aligned

namespace Steps.Aligned

variable {search search' : Rule Id α} {steps steps' : Steps Id α} {f f' : α → Steps Id β}

theorem pure (a : α) : Steps.Aligned place (Pure.pure a) (Pure.pure a) :=
  fun _ => rfl

theorem fail : Steps.Aligned place (.fail : Steps Id α) .fail :=
  fun _ => rfl

theorem bind (h : Steps.Aligned place steps steps')
    (hf : ∀ a, Steps.Aligned place (f a) (f' a)) :
    Steps.Aligned place (steps >>= f) (steps' >>= f') := by
  intro seq
  rw [run_bind, run_bind, h seq]
  cases Id.run (steps seq) with
  | none => rfl
  | some r => exact hf r.1 r.2

theorem take (h : Rule.Aligned place search search') :
    Steps.Aligned place (.take search) (.take search') := by
  intro seq
  rw [run_take, run_take, Sequence.moved, h seq.position]
  cases Id.run (search seq.position) with
  | none => rfl
  | some p => exact congrArg (fun after => some (p.value, after)) (seq.advance_moved p)

theorem perhaps (h : Rule.Aligned place search search') :
    Steps.Aligned place (.perhaps search) (.perhaps search') := by
  intro seq
  rw [run_perhaps, run_perhaps, Sequence.moved, h seq.position]
  cases Id.run (search seq.position) with
  | none => rfl
  | some p => exact congrArg (fun after => some (some p.value, after)) (seq.advance_moved p)

/-- What is only looked at lies at its place in either stream. -/
theorem ahead_bind {f f' : Parsed α → Steps Id β} (h : Rule.Aligned place search search')
    (hf : ∀ p, Steps.Aligned place (f p) (f' (p.moved place))) :
    Steps.Aligned place (.ahead search >>= f) (.ahead search' >>= f') := by
  intro seq
  rw [run_bind, run_bind, run_ahead, run_ahead]
  change Option.bind ((Id.run (search' (place seq.position))).map _) _ = _
  rw [h seq.position]
  cases Id.run (search seq.position) with
  | none => rfl
  | some p => exact hf p seq

theorem move_to (p : Parsed α) :
    Steps.Aligned place (.moveTo p) (.moveTo (p.moved place)) :=
  fun seq => congrArg (fun after => some ((), after)) (seq.advance_moved p)

end Steps.Aligned

theorem Rule.Aligned.of_steps {steps steps' : Steps Id α} (h : Steps.Aligned place steps steps') :
    Rule.Aligned place steps.rule steps'.rule := by
  intro pos
  rw [Steps.run_rule, Steps.run_rule]
  change ((Id.run (steps' ((Sequence.empty pos).moved place))).map _) = _
  rw [h]
  cases Id.run (steps (.empty pos)) with
  | none => rfl
  | some r => exact congrArg some (r.2.finish_moved r.1)

/-- The context forbids nothing that goes unheeded. -/
def Context.Heeded (heeds : Kind → Bool) (ctx : Context) : Prop :=
  ∀ kind, ctx.forbidden = some kind → heeds kind = true

/-- In two streams the tokens of the heeded kinds follow one another alike: a search that heeds no
other kind finds the same. Every kind that the grammar has a place for is heeded. -/
structure Alignment (heeds : Kind → Bool) (place : Nat → Nat) (tokens others : List Token) :
    Prop where
  wanted : ∀ kind, kind.isNoise = false → heeds kind = true
  mono : ∀ ⦃i j⦄, i ≤ j → place i ≤ place j
  succ : ∀ ⦃i t⦄, tokens[i]? = some t → heeds t.kind = true → place (i + 1) = place i + 1
  length : place tokens.length = others.length
  finished : ∀ ⦃pos⦄, others.length ≤ place pos → tokens.length ≤ pos
  search : ∀ ⦃ctx : Context⦄ ⦃kind⦄ pos, heeds kind = true → ctx.Heeded heeds →
    firstOf ctx kind (place pos) (others.drop (place pos)) =
      (firstOf ctx kind pos (tokens.drop pos)).moved place

/-- A token of a heeded kind stands right before the position. -/
def Behind (heeds : Kind → Bool) (tokens : List Token) (pos : Nat) : Prop :=
  ∃ last t, pos = last + 1 ∧ tokens[last]? = some t ∧ heeds t.kind = true

/-- A stretch between two tokens of heeded kinds. -/
structure Marked (heeds : Kind → Bool) (tokens : List Token) (start next : Nat) : Prop where
  opening : ∃ t, tokens[start]? = some t ∧ heeds t.kind = true
  closing : Behind heeds tokens next

/-- All that the rule finds lies between tokens of heeded kinds. -/
def Rule.Marks (heeds : Kind → Bool) (tokens : List Token) (rule : Rule Id α) : Prop :=
  ∀ ⦃pos p⦄, Id.run (rule pos) = some p → Marked heeds tokens p.start p.next

/-- After these steps a token of a heeded kind has just been passed. -/
def Steps.EndsBehind (heeds : Kind → Bool) (tokens : List Token) (steps : Steps Id α) : Prop :=
  ∀ ⦃seq r⦄, Id.run (steps seq) = some r → Behind heeds tokens r.2.position

/-- Steps that do the same in both streams where a token of a heeded kind has just been passed. -/
def Steps.AlignedBehind (heeds : Kind → Bool) (tokens : List Token) (place : Nat → Nat)
    (steps steps' : Steps Id α) : Prop :=
  ∀ seq, Behind heeds tokens seq.position → Id.run (steps' (seq.moved place)) =
    (Id.run (steps seq)).map fun r => (r.1, r.2.moved place)

variable {heeds : Kind → Bool} {tokens others : List Token} {ctx inner : Context}

theorem Rule.Marks.as {rule : Rule Id α} (f : α → β) (h : rule.Marks heeds tokens) :
    (rule.as f).Marks heeds tokens := by
  intro pos p hp
  obtain ⟨q, hq, rfl⟩ := Rule.run_as.mp hp
  exact h hq

theorem Rule.Marks.take {rule : Rule Id α} (h : rule.Marks heeds tokens) :
    (Steps.take rule).EndsBehind heeds tokens := by
  intro seq r hr
  rw [Steps.run_take] at hr
  obtain ⟨p, hp, rfl⟩ := Option.map_eq_some_iff.mp hr
  exact (h hp).closing

theorem Steps.AlignedBehind.bind {steps steps' : Steps Id α} {f f' : α → Steps Id β}
    (h : Steps.AlignedBehind heeds tokens place steps steps')
    (hf : ∀ a, Steps.Aligned place (f a) (f' a)) :
    Steps.AlignedBehind heeds tokens place (steps >>= f) (steps' >>= f') := by
  intro seq hseq
  rw [run_bind, run_bind, h seq hseq]
  cases Id.run (steps seq) with
  | none => rfl
  | some r => exact hf r.1 r.2

theorem Steps.Aligned.bind_behind {steps steps' : Steps Id α} {f f' : α → Steps Id β}
    (h : Steps.Aligned place steps steps') (hends : steps.EndsBehind heeds tokens)
    (hf : ∀ a, Steps.AlignedBehind heeds tokens place (f a) (f' a)) :
    Steps.Aligned place (steps >>= f) (steps' >>= f') := by
  intro seq
  rw [run_bind, run_bind, h seq]
  cases hrun : Id.run (steps seq) with
  | none => rfl
  | some r => exact hf r.1 r.2 (hends hrun)

namespace Alignment

variable (A : Alignment heeds place tokens others)
include A

/-- Places keep the order of a heeded token and whatever else there is. -/
theorem place_lt_iff {i j : Nat} {t : Token} (ht : tokens[i]? = some t)
    (hheeds : heeds t.kind = true) : place i < place j ↔ i < j := by
  constructor
  · intro hlt
    apply Nat.lt_of_not_le
    intro hle
    have := A.mono hle
    omega
  · intro hlt
    have hle := A.mono hlt
    rw [Nat.succ_eq_add_one, A.succ ht hheeds] at hle
    omega

theorem start_lt_iff {p q : Parsed α} (hp : Marked heeds tokens p.start p.next) :
    place p.start < place q.start ↔ p.start < q.start := by
  obtain ⟨t, ht, hheeds⟩ := hp.opening
  exact A.place_lt_iff ht hheeds

theorem next_lt_iff {p q : Parsed α} (hq : Marked heeds tokens q.start q.next) :
    place p.next < place q.next ↔ p.next < q.next := by
  obtain ⟨last, t, hnext, ht, hheeds⟩ := hq.closing
  rw [hnext]
  constructor
  · intro hlt
    apply Nat.lt_of_not_le
    intro hle
    have := A.mono hle
    omega
  · intro hlt
    have hle := A.mono (Nat.le_of_lt_succ hlt)
    rw [A.succ ht hheeds]
    omega

theorem start_eq_iff {p q : Parsed α} (hp : Marked heeds tokens p.start p.next)
    (hq : Marked heeds tokens q.start q.next) :
    place p.start = place q.start ↔ p.start = q.start := by
  have hlt := A.start_lt_iff (q := q) hp
  have hgt := A.start_lt_iff (q := p) hq
  omega

theorem nearer_moved {best : Outcome α} {c : Candidate α}
    (hbest : ∀ b, best = some b → Marked heeds tokens b.start b.next)
    (hc : ∀ p, c.outcome = some p → Marked heeds tokens p.start p.next) :
    Candidate.nearer (best.moved place) (c.moved place) =
      (Candidate.nearer best c).moved place := by
  obtain ⟨_ | p, flag⟩ := c
  · simp [Candidate.moved]
  · cases best with
    | none => rfl
    | some b =>
      have hb := hbest b rfl
      have hp := hc p rfl
      simp only [Candidate.moved, Outcome.moved_some, Candidate.nearer, Parsed.moved,
        A.start_lt_iff hp, A.start_eq_iff hp hb, A.next_lt_iff hb]
      split <;> rfl

/-- The choice between things that lie between heeded tokens is the same in both streams. -/
theorem chooseNearest_moved {candidates : List (Candidate α)}
    (h : ∀ c ∈ candidates, ∀ p, c.outcome = some p → Marked heeds tokens p.start p.next) :
    Candidate.chooseNearest (candidates.map (Candidate.moved place)) =
      (Candidate.chooseNearest candidates).moved place := by
  have fold : ∀ best : Outcome α, (∀ b, best = some b → Marked heeds tokens b.start b.next) →
      (candidates.map (Candidate.moved place)).foldl Candidate.nearer (best.moved place) =
        (candidates.foldl Candidate.nearer best).moved place := by
    induction candidates with
    | nil => exact fun best _ => rfl
    | cons c cs ih =>
      intro best hbest
      have hc := h c List.mem_cons_self
      rw [List.map_cons, List.foldl_cons, List.foldl_cons, A.nearer_moved hbest hc]
      refine ih (fun d hd => h d (List.mem_cons_of_mem c hd)) _ fun b hb => ?_
      have hstep : [c].foldl Candidate.nearer best = some b := hb
      rcases Candidate.fold_mem hstep with hb | ⟨d, hd, hb⟩
      · exact hbest b hb
      · cases List.mem_singleton.mp hd
        exact hc b hb
  exact fold none nofun

end Alignment

end Dossier
