import Dossier.Parse
import Dossier.Proofs.Correspondence
import Dossier.Session

namespace Dossier

variable {strategy : Strategy} {tokens : List Token} {α : Type}

namespace Mark

@[simp] theorem reach_zero (mark : Mark) : mark.reach 0 = mark := by
  simp [reach]

@[simp] theorem reach_reach (mark : Mark) (p q : Nat) :
    (mark.reach p).reach q = mark.reach (max p q) := by
  simp only [reach, Nat.max_assoc]

theorem reach_of_le {mark : Mark} {p : Nat} (h : p ≤ mark.furthest) : mark.reach p = mark := by
  simp [reach, Nat.max_eq_left h]

/-- The search comes to this value and reaches some position, wherever the mark was. -/
def ComesTo (search : StateM Mark α) (value : α) : Prop :=
  ∃ reached, ∀ mark, search.run mark = (value, Mark.reach reached mark)

/-- A mark never changes what is found, and searches only push it forward. -/
def correspondence (strategy : Strategy) (tokens : List Token) :
    Correspondence strategy tokens (StateM Mark) Id where
  Related search plain := ComesTo search plain.run
  pure a := ⟨0, fun mark => by rw [reach_zero]; rfl⟩
  bind := by
    rintro α β x y f g ⟨p, hx⟩ hf
    obtain ⟨q, hq⟩ := hf y.run
    refine ⟨max p q, fun mark => ?_⟩
    simp only [StateT.run_bind, hx]
    exact (hq _).trans (by simp)
  reach position := ⟨position, fun mark => rfl⟩
  remember _ _ _ h _ := h

theorem comes_to_run (strategy : Strategy) (tokens : List Token) (p : Production) (ctx : Context)
    (pos : Nat) :
    ComesTo (p.rule strategy tokens ctx pos) (Id.run (p.rule strategy tokens ctx pos)) :=
  (correspondence strategy tokens).production p pos

end Mark

namespace Progress

/-- Every result remembered is the one found without memory, and the mark is at least where finding
it would have left it. -/
def Sound (strategy : Strategy) (tokens : List Token) (progress : Progress) : Prop :=
  ∀ call result, progress.known.get? call = some result →
    ∀ mark : Mark, progress.furthest ≤ mark.furthest →
      (call.work strategy tokens : StateM Mark _).run mark = (result, mark)

theorem sound_start : Sound strategy tokens start := by
  intro call result h
  simp [start] at h

theorem Sound.reach {progress : Progress} (h : Sound strategy tokens progress) (position : Nat) :
    Sound strategy tokens (progress.reach position) := by
  intro call result hk mark hm
  exact h call result hk mark (Nat.le_trans (Nat.le_max_left _ _) hm)

/-- A result may be noted as soon as the mark has reached what finding it reaches. -/
theorem Sound.note {progress : Progress} (h : Sound strategy tokens progress) (call : Call)
    {result : call.Result} {before : Mark}
    (hw : (call.work strategy tokens : StateM Mark _).run before = (result, progress.toMark)) :
    Sound strategy tokens (progress.note call result) := by
  obtain ⟨reached, hr⟩ := Mark.comes_to_run strategy tokens call.production call.context
    call.position
  obtain ⟨rfl, hp⟩ := Prod.mk.inj ((hr before).symm.trans hw)
  intro other found hk mark hm
  by_cases he : call = other
  · subst he
    obtain rfl : _ = found := by simpa [Progress.note] using hk
    refine (hr mark).trans ?_
    rw [Mark.reach_of_le]
    refine Nat.le_trans ?_ hm
    change reached ≤ progress.toMark.furthest
    exact hp ▸ Nat.le_max_right _ _
  · refine h other found ?_ mark hm
    simpa [Progress.note, Std.DHashMap.get?_insert, he] using hk

/-- From sound books both searches find the same and move the mark alike, and the books stay
sound. -/
def Follows (strategy : Strategy) (tokens : List Token) (search : StateM Progress α)
    (plain : StateM Mark α) : Prop :=
  ∀ progress, Sound strategy tokens progress →
    (search.run progress).1 = (plain.run progress.toMark).1 ∧
    (search.run progress).2.toMark = (plain.run progress.toMark).2 ∧
    Sound strategy tokens (search.run progress).2

theorem Follows.bind {β : Type} {x : StateM Progress α} {y : StateM Mark α}
    {f : α → StateM Progress β} {g : α → StateM Mark β} (hx : Follows strategy tokens x y)
    (hf : ∀ a, Follows strategy tokens (f a) (g a)) :
    Follows strategy tokens (x >>= f) (y >>= g) := by
  intro progress hs
  obtain ⟨hv, hm, hs'⟩ := hx progress hs
  have h := hf (x.run progress).1 (x.run progress).2 hs'
  rw [hm, hv] at h
  change ((f (x.run progress).1).run (x.run progress).2).1 = _ ∧
    ((f (x.run progress).1).run (x.run progress).2).2.toMark = _ ∧
    Sound strategy tokens ((f (x.run progress).1).run (x.run progress).2).2
  rw [hv]
  exact h

theorem run_remember_known {call : Call} {result : call.Result} {progress : Progress}
    (h : progress.known.get? call = some result) (x : StateM Progress call.Result) :
    (Bookkeeping.remember call x).run progress = (result, progress) := by
  simp only [Bookkeeping.remember, StateT.run_bind, StateT.run_get, pure_bind, h]
  rfl

theorem run_remember_new {call : Call} {progress : Progress}
    (h : progress.known.get? call = none) (x : StateM Progress call.Result) :
    (Bookkeeping.remember call x).run progress =
      ((x.run progress).1, (x.run progress).2.note call (x.run progress).1) := by
  simp only [Bookkeeping.remember, StateT.run_bind, StateT.run_get, pure_bind, h]
  rfl

/-- A remembered result is the one that the search would come to, and the mark needs no push. -/
theorem Follows.remember (call : Call) {x : StateM Progress call.Result}
    {y : StateM Mark call.Result} (h : Follows strategy tokens x y)
    (hy : y = call.work strategy tokens) :
    Follows strategy tokens (Bookkeeping.remember call x) (Bookkeeping.remember call y) := by
  subst hy
  intro progress hs
  cases hk : progress.known.get? call with
  | some result =>
    have hwork := hs call result hk progress.toMark (Nat.le_refl _)
    change _ = ((call.work strategy tokens : StateM Mark _).run progress.toMark).1 ∧
      _ = ((call.work strategy tokens : StateM Mark _).run progress.toMark).2 ∧ _
    rw [run_remember_known hk, hwork]
    exact ⟨rfl, rfl, hs⟩
  | none =>
    obtain ⟨hv, hm, hs'⟩ := h progress hs
    rw [run_remember_new hk]
    exact ⟨hv, hm, hs'.note call (Prod.ext hv.symm hm.symm)⟩

def correspondence (strategy : Strategy) (tokens : List Token) :
    Correspondence strategy tokens (StateM Progress) (StateM Mark) where
  Related := Follows strategy tokens
  pure _ _ hs := ⟨rfl, rfl, hs⟩
  bind := Follows.bind
  reach position _ hs := ⟨rfl, rfl, hs.reach position⟩
  remember call _ _ h hw := Follows.remember call h hw

theorem production_follows (p : Production) (ctx : Context) (pos : Nat) :
    Follows strategy tokens (p.rule strategy tokens ctx pos) (p.rule strategy tokens ctx pos) :=
  (correspondence strategy tokens).production p pos

/-- On a fresh stream a production finds what it finds where no books are kept. -/
theorem run_start (strategy : Strategy) (tokens : List Token) (p : Production) (ctx : Context)
    (pos : Nat) :
    ((p.rule strategy tokens ctx pos : StateM Progress _).run start).1 =
      Id.run (p.rule strategy tokens ctx pos) := by
  obtain ⟨reached, h⟩ := Mark.comes_to_run strategy tokens p ctx pos
  rw [(production_follows p ctx pos start sound_start).1, h]

end Progress

theorem Production.outcome_eq_run (p : Production) (tokens : List Token) (ctx : Context)
    (pos : Nat) : p.outcome tokens ctx pos = Id.run (p.rule .pruned tokens ctx pos) :=
  Progress.run_start .pruned tokens p ctx pos

/-- Parsing comes to what the document rule finds where no books are kept. -/
theorem Document.ofTokensBy_eq_ok_iff {doc : Document} :
    ofTokensBy strategy tokens = .ok doc ↔
      ∃ found, Id.run (Grammar.document strategy tokens .root 0) = some found ∧
        found.value = doc := by
  have hstart := Progress.run_start strategy tokens .document .root 0
  simp only [Production.rule] at hstart
  rw [ofTokensBy]
  rcases hrun : (Grammar.document strategy tokens .root 0 : StateM Progress _).run .start
    with ⟨_ | found, after⟩
  · rw [hrun] at hstart
    simp [← hstart]
  · rw [hrun] at hstart
    simp [← hstart]

namespace Session

theorem answer_follows (question : Question) :
    Progress.Follows .pruned tokens (question.answer tokens) (question.answer tokens) := by
  cases question with
  | peek kinds pos => exact fun progress hs => ⟨rfl, rfl, hs⟩
  | call call => exact Progress.production_follows _ _ _

/-- The mark does not change an answer, so a stream in use answers like a fresh one. -/
theorem answer_fresh (question : Question) (mark : Mark) :
    ((question.answer tokens : StateM Mark _).run mark).1 =
      ((question.answer tokens : StateM Mark _).run .start).1 := by
  cases question with
  | peek kinds pos => rfl
  | call call =>
    obtain ⟨reached, h⟩ := Mark.comes_to_run .pruned tokens call.production call.context
      call.position
    exact (congrArg Prod.fst (h mark)).trans (congrArg Prod.fst (h .start)).symm

theorem replies_of_sound (questions : List Question) (progress : Progress)
    (hs : progress.Sound .pruned tokens) :
    replies tokens progress questions = freshReplies tokens progress.toMark questions := by
  induction questions generalizing progress with
  | nil => rfl
  | cons question questions ih =>
    obtain ⟨hv, hm, hs'⟩ := answer_follows question progress hs
    simp only [replies, freshReplies]
    rw [ih _ hs', hv, hm, answer_fresh]

/-- Memory is invisible: whatever a stream is asked, in whatever order, its answers are those of
fresh streams without memory, and its mark is the one left without memory. -/
theorem replies_eq_fresh_replies (tokens : List Token) (questions : List Question) :
    replies tokens .start questions = freshReplies tokens .start questions :=
  replies_of_sound questions .start Progress.sound_start

end Session

end Dossier
