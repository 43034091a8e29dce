import Mathlib.Data.Option.Basic
import Dossier.Lexeme.Form

namespace Dossier

namespace Lexeme

open LexicalRule

variable {before : Option Char} {cs rest : List Char} {p : Char → Bool} {lexeme : Lexeme}

theorem IsRun.takeWhile {run : List Char} (h : IsRun p run rest) :
    (run ++ rest).takeWhile p = run := by
  rw [List.takeWhile_append_of_pos h.all]
  cases rest with
  | nil => simp
  | cons c rest =>
    have hc : p c = false := h.stops
    simp [hc]

/-- A text is cut up into a run and the rest in one way. -/
theorem IsRun.unique {run run' rest' : List Char} (h : IsRun p run rest) (h' : IsRun p run' rest')
    (he : run ++ rest = run' ++ rest') : run = run' ∧ rest = rest' := by
  obtain rfl : run = run' := by rw [← h.takeWhile, he, h'.takeWhile]
  exact ⟨rfl, List.append_cancel_left he⟩

theorem IsRun.of_stops {run rest' : List Char} (h : IsRun p run rest)
    (hstops : rest.head?.any p = false → rest'.head?.any p = false) : IsRun p run rest' :=
  ⟨h.nonempty, h.all, hstops h.stops⟩

theorem IsRun.not_mem {run : List Char} {c : Char} (h : IsRun p run rest) (hc : p c = false) :
    c ∉ run := by
  intro hmem
  rw [h.all c hmem] at hc
  cases hc

theorem isRun_repr (n : Nat) : IsRun Char.isDigit n.repr.toList [] where
  nonempty := by
    rw [Nat.toList_repr]
    exact Nat.toDigits_ne_nil
  all c hc := by
    rw [Nat.toList_repr] at hc
    exact Nat.isDigit_of_mem_toDigits (by decide) (by decide) hc
  stops := rfl

theorem isRun_repr_of_stops (n : Nat) (hstops : rest.head?.any Char.isDigit = false) :
    IsRun Char.isDigit n.repr.toList rest :=
  (isRun_repr n).of_stops fun _ => hstops

theorem isRun_takeWhile (hne : cs.takeWhile p ≠ []) :
    IsRun p (cs.takeWhile p) (cs.dropWhile p) where
  nonempty := hne
  all := List.all_eq_true.mp List.all_takeWhile
  stops := by
    have hstop := List.head?_dropWhile_not p cs
    cases hhead : (cs.dropWhile p).head? with
    | none => rfl
    | some c => simpa [hhead] using hstop

theorem run?_eq_some_iff {run : List Char} :
    run? p cs = some run ↔ ∃ rest, cs = run ++ rest ∧ IsRun p run rest := by
  constructor
  · intro h
    unfold run? at h
    split at h
    · cases h
    · next c taken heq =>
      cases h
      refine ⟨cs.dropWhile p, ?_, ?_⟩
      · rw [← heq, List.takeWhile_append_dropWhile]
      · rw [← heq]
        exact isRun_takeWhile (by simp [heq])
  · rintro ⟨rest, rfl, h⟩
    unfold run?
    rw [h.takeWhile]
    cases run with
    | nil => exact absurd rfl h.nonempty
    | cons => rfl

theorem number?_eq_some_iff {digits : List Char} {n : Nat} :
    number? digits = some n ↔ Nat.ofDigitChars 10 digits 0 = n ∧ n < UInt64.size := by
  simp only [number?, Option.ite_none_right_eq_some, Option.some.injEq]
  constructor
  · rintro ⟨hlt, rfl⟩
    exact ⟨rfl, hlt⟩
  · rintro ⟨rfl, hlt⟩
    exact ⟨hlt, rfl⟩

theorem phrase_eq_some_iff {wording : String} {token : Token} :
    phrase wording token cs = some lexeme ↔
      ∃ rest, cs = wording.toList ++ rest ∧ lexeme = ⟨wording.toList, some token⟩ := by
  simp only [phrase, Option.map_eq_some_iff, after_eq_some_iff, eq_comm (a := lexeme),
    exists_and_right]

/-- No wording begins another one. -/
def PrefixFree {α : Type} (wordings : List (String × α)) : Prop :=
  ∀ a ∈ wordings, ∀ b ∈ wordings, a.1.toList <+: b.1.toList → a = b

instance {α : Type} [DecidableEq α] (wordings : List (String × α)) :
    Decidable (PrefixFree wordings) :=
  inferInstanceAs (Decidable (∀ a ∈ wordings, ∀ b ∈ wordings, a.1.toList <+: b.1.toList → a = b))

/-- At most one of several wordings can stand at the front of a text. -/
theorem PrefixFree.eq_of_append {α : Type} {wordings : List (String × α)}
    (hfree : PrefixFree wordings) {a b : String × α} (ha : a ∈ wordings) (hb : b ∈ wordings)
    {rest rest' : List Char}
    (heq : a.1.toList ++ rest = b.1.toList ++ rest') : a = b := by
  rcases List.prefix_or_prefix_of_prefix (List.prefix_append a.1.toList rest)
    (heq ▸ List.prefix_append b.1.toList rest') with h | h
  · exact hfree a ha b hb h
  · exact (hfree b hb a ha h).symm

theorem anyPhrase_eq_some_iff {wordings : List (String × Token)} (hfree : PrefixFree wordings) :
    anyPhrase wordings cs = some lexeme ↔
      ∃ wording token rest, (wording, token) ∈ wordings ∧ cs = wording.toList ++ rest ∧
        lexeme = ⟨wording.toList, some token⟩ := by
  constructor
  · intro h
    obtain ⟨⟨wording, token⟩, hmem, hphrase⟩ := List.exists_of_findSome?_eq_some h
    obtain ⟨rest, hcs, hlexeme⟩ := phrase_eq_some_iff.mp hphrase
    exact ⟨wording, token, rest, hmem, hcs, hlexeme⟩
  · rintro ⟨wording, token, rest, hmem, rfl, rfl⟩
    have hphrase : phrase wording token (wording.toList ++ rest) =
        some ⟨wording.toList, some token⟩ := phrase_eq_some_iff.mpr ⟨rest, rfl, rfl⟩
    cases hfound : anyPhrase wordings (wording.toList ++ rest) with
    | none =>
      have hnone : phrase wording token (wording.toList ++ rest) = none :=
        List.findSome?_eq_none_iff.mp hfound _ hmem
      rw [hphrase] at hnone
      cases hnone
    | some other =>
      obtain ⟨⟨wording', token'⟩, hmem', hphrase'⟩ := List.exists_of_findSome?_eq_some hfound
      obtain ⟨rest', heq, rfl⟩ := phrase_eq_some_iff.mp hphrase'
      cases hfree.eq_of_append hmem hmem' heq
      rfl

theorem itemNumber_eq_some_iff : itemNumber cs = some lexeme ↔
    ∃ rest, cs = lexeme.text ++ rest ∧ Matches .itemNumber before lexeme rest := by
  simp only [itemNumber, Option.bind_eq_bind, Option.bind_eq_some_iff, after_eq_some_iff,
    run?_eq_some_iff, pure, Option.some.injEq]
  constructor
  · rintro ⟨_, rfl, digits, ⟨rest, rfl, hrun⟩, n, hn, rfl⟩
    exact ⟨rest, by simp, .itemNumber hrun hn⟩
  · rintro ⟨rest, rfl, h⟩
    cases h with
    | wording hmem => cases hmem
    | itemNumber hrun hn => exact ⟨_, by simp, _, ⟨rest, rfl, hrun⟩, _, hn, rfl⟩

theorem wordings_prefixFree (rule : LexicalRule) : PrefixFree rule.wordings := by
  cases rule <;> decide +kernel

theorem isSome_after_iff {os : List Char} : (after os cs).isSome ↔ ∃ rest, cs = os ++ rest := by
  simp only [Option.isSome_iff_exists, after_eq_some_iff]

/-- No name of a class begins another one, so the first name that fits is the only one. -/
theorem find?_class_of_append (c : ObjectClass) (rest : List Char) :
    ObjectClass.all.find? (fun d => (after d.name.toList (c.name.toList ++ rest)).isSome) =
      some c := by
  have hfree : PrefixFree (ObjectClass.all.map fun d => (d.name, d)) := by decide +kernel
  have hall : ∀ d : ObjectClass, d ∈ ObjectClass.all := by
    intro d
    cases d <;> decide
  have hname : ∀ d : ObjectClass, (d.name, d) ∈ ObjectClass.all.map fun d => (d.name, d) :=
    fun d => List.mem_map.mpr ⟨d, hall d, rfl⟩
  cases hfind : ObjectClass.all.find? fun d =>
    (after d.name.toList (c.name.toList ++ rest)).isSome with
  | none =>
    have hnone := List.find?_eq_none.mp hfind c (hall c)
    exact absurd (isSome_after_iff.mpr ⟨rest, rfl⟩) hnone
  | some d =>
    have hsome := List.find?_some hfind
    obtain ⟨rest', heq⟩ := isSome_after_iff.mp hsome
    have hsame : c = d := congrArg Prod.snd (hfree.eq_of_append (hname c) (hname d) heq)
    rw [hsame]

theorem objectClass_eq_some_iff : objectClass cs = some lexeme ↔
    ∃ rest, cs = lexeme.text ++ rest ∧ Matches .objectClass before lexeme rest := by
  simp only [objectClass, Option.bind_eq_bind, Option.bind_eq_some_iff, after_eq_some_iff,
    pure, Option.some.injEq]
  constructor
  · rintro ⟨named, rfl, c, hc, rfl⟩
    have hsome := List.find?_some hc
    obtain ⟨rest, rfl⟩ := isSome_after_iff.mp hsome
    have hmem : ("Object Class: " ++ c.name, .objectClass c) ∈ wordings .objectClass :=
      List.mem_map.mpr ⟨c, List.mem_of_find?_eq_some hc, rfl⟩
    exact ⟨rest, by simp, by simpa using Matches.wording hmem⟩
  · rintro ⟨rest, rfl, h⟩
    cases h with
    | wording hmem =>
      obtain ⟨c, _, heq⟩ := List.mem_map.mp hmem
      cases heq
      exact ⟨c.name.toList ++ rest, by simp, c, find?_class_of_append c rest, by simp⟩

theorem letter?_eq_some_iff {c : Char} :
    letter? cs = some c ↔ Character.isAsciiWord c = true ∧ ∃ rest, cs = '-' :: c :: rest := by
  constructor
  · intro h
    unfold letter? at h
    split at h
    · next d rest =>
      obtain ⟨hd, hdc⟩ := Option.ite_none_right_eq_some.mp h
      cases hdc
      exact ⟨hd, rest, rfl⟩
    · cases h
  · rintro ⟨hc, rest, rfl⟩
    simp [letter?, hc]

theorem addendum_eq_some_iff : addendum cs = some lexeme ↔
    ∃ rest, cs = lexeme.text ++ rest ∧ Matches .addendum before lexeme rest := by
  simp only [addendum, Option.bind_eq_bind, Option.bind_eq_some_iff, after_eq_some_iff,
    run?_eq_some_iff, pure, Option.some.injEq]
  constructor
  · rintro ⟨_, rfl, digits, ⟨behind, rfl, hrun⟩, n, hn, rfl⟩
    rw [List.drop_left]
    cases hletter : letter? behind with
    | none => exact ⟨behind, by simp, by simpa using Matches.addendum hrun hn hletter⟩
    | some c =>
      obtain ⟨hc, rest, rfl⟩ := letter?_eq_some_iff.mp hletter
      exact ⟨rest, by simp, .addendumLetter hrun hn hc⟩
  · rintro ⟨rest, rfl, h⟩
    cases h with
    | wording hmem => cases hmem
    | addendum hrun hn hletter =>
      exact ⟨_, by simp, _, ⟨rest, rfl, hrun⟩, _, hn, by simp [hletter]⟩
    | addendumLetter hrun hn hletter =>
      exact ⟨_, by simp, _, ⟨_, rfl, hrun⟩, _, hn, by simp [letter?, hletter]⟩

theorem reference_eq_some_iff : reference cs = some lexeme ↔ ∃ digits parts rest,
    IsRun Char.isDigit digits ('-' :: (parts ++ rest)) ∧ IsRun Char.isDigit parts rest ∧
      cs = "SCP-".toList ++ digits ++ '-' :: parts ++ rest ∧
      let text := "SCP-".toList ++ digits ++ '-' :: parts
      lexeme = ⟨text, some (.identifier (String.ofList text))⟩ := by
  simp only [reference, Option.bind_eq_bind, Option.bind_eq_some_iff, after_eq_some_iff,
    run?_eq_some_iff, pure, Option.some.injEq]
  constructor
  · rintro ⟨_, rfl, digits, ⟨behind, rfl, hdigits⟩, _, hdash, parts, ⟨rest, rfl, hparts⟩, rfl⟩
    rw [List.drop_left] at hdash
    subst hdash
    exact ⟨digits, parts, rest, hdigits, hparts, by simp, rfl⟩
  · rintro ⟨digits, parts, rest, hdigits, hparts, rfl, rfl⟩
    exact ⟨_, by simp, digits, ⟨_, rfl, hdigits⟩, _, List.drop_left, parts, ⟨rest, rfl, hparts⟩,
      rfl⟩

theorem property_eq_some_iff : property cs = some lexeme ↔ ∃ word rest,
    IsRun Character.isAsciiWord word (" of".toList ++ rest) ∧
      cs = "the ".toList ++ word ++ " of".toList ++ rest ∧
      lexeme =
        ⟨"the ".toList ++ word ++ " of".toList, some (.identifier (String.ofList word))⟩ := by
  simp only [property, Option.bind_eq_bind, Option.bind_eq_some_iff, after_eq_some_iff,
    run?_eq_some_iff, pure, Option.some.injEq]
  constructor
  · rintro ⟨_, rfl, word, ⟨behind, rfl, hword⟩, rest, hof, rfl⟩
    rw [List.drop_left] at hof
    subst hof
    exact ⟨word, rest, hword, by simp, rfl⟩
  · rintro ⟨word, rest, hword, rfl, rfl⟩
    exact ⟨_, by simp, word, ⟨_, rfl, hword⟩, rest, List.drop_left, rfl⟩

/-- A reference and a phrase that names a property begin differently. -/
theorem identifier_eq_some_iff : (reference cs).or (property cs) = some lexeme ↔
    ∃ rest, cs = lexeme.text ++ rest ∧ Matches .identifier before lexeme rest := by
  constructor
  · intro h
    rcases Option.or_eq_some_iff.mp h with h | ⟨_, h⟩
    · obtain ⟨digits, parts, rest, hdigits, hparts, rfl, rfl⟩ := reference_eq_some_iff.mp h
      exact ⟨rest, rfl, .reference hdigits hparts⟩
    · obtain ⟨word, rest, hword, rfl, rfl⟩ := property_eq_some_iff.mp h
      exact ⟨rest, rfl, .property hword⟩
  · rintro ⟨rest, rfl, h⟩
    cases h with
    | wording hmem => cases hmem
    | @reference _ digits parts _ hdigits hparts =>
      exact Option.or_eq_some_iff.mpr
        (.inl (reference_eq_some_iff.mpr ⟨digits, parts, rest, hdigits, hparts, rfl, rfl⟩))
    | @property _ word _ hword =>
      refine Option.or_eq_some_iff.mpr
        (.inr ⟨?_, property_eq_some_iff.mpr ⟨word, rest, hword, rfl, rfl⟩⟩)
      simp [reference, after]

theorem group_eq_some_iff : group cs = some lexeme ↔ ∃ digits rest n,
    IsRun Char.isDigit digits rest ∧ number? digits = some n ∧
      cs = "GoI-".toList ++ digits ++ rest ∧
      lexeme = ⟨"GoI-".toList ++ digits, some (.constant n)⟩ := by
  simp only [group, Option.bind_eq_bind, Option.bind_eq_some_iff, after_eq_some_iff,
    run?_eq_some_iff, pure, Option.some.injEq]
  constructor
  · rintro ⟨_, rfl, digits, ⟨rest, rfl, hrun⟩, n, hn, rfl⟩
    exact ⟨digits, rest, n, hrun, hn, by simp, rfl⟩
  · rintro ⟨digits, rest, n, hrun, hn, rfl, rfl⟩
    exact ⟨_, by simp, digits, ⟨rest, rfl, hrun⟩, n, hn, rfl⟩

theorem constant_eq_some_iff : (anyPhrase quantities cs).or (group cs) = some lexeme ↔
    ∃ rest, cs = lexeme.text ++ rest ∧ Matches .constant before lexeme rest := by
  have hquantity := @anyPhrase_eq_some_iff cs lexeme _ (wordings_prefixFree .constant)
  constructor
  · intro h
    rcases Option.or_eq_some_iff.mp h with h | ⟨_, h⟩
    · obtain ⟨wording, token, rest, hmem, rfl, rfl⟩ := hquantity.mp h
      exact ⟨rest, rfl, .wording hmem⟩
    · obtain ⟨digits, rest, n, hrun, hn, rfl, rfl⟩ := group_eq_some_iff.mp h
      exact ⟨rest, rfl, .group hrun hn⟩
  · rintro ⟨rest, rfl, h⟩
    cases h with
    | wording hmem =>
      exact Option.or_eq_some_iff.mpr (.inl (hquantity.mpr ⟨_, _, rest, hmem, rfl, rfl⟩))
    | @group _ digits _ n hrun hn =>
      refine Option.or_eq_some_iff.mpr
        (.inr ⟨?_, group_eq_some_iff.mpr ⟨digits, rest, n, hrun, hn, rfl, rfl⟩⟩)
      simp [anyPhrase, quantities, phrase, after]

theorem loneLetter_eq_some_iff : loneLetter before cs = some lexeme ↔
    ∃ rest, cs = lexeme.text ++ rest ∧ Matches .loneLetter before lexeme rest := by
  constructor
  · intro h
    cases cs with
    | nil => cases h
    | cons c rest =>
      simp only [loneLetter, Option.ite_none_right_eq_some, Bool.and_eq_true, decide_eq_true_eq,
        Option.some.injEq] at h
      obtain ⟨⟨⟨⟨hbefore, hb⟩, hz⟩, hafter⟩, rfl⟩ := h
      exact ⟨rest, rfl, .loneLetter hbefore ⟨hb, hz⟩ hafter⟩
  · rintro ⟨rest, rfl, h⟩
    cases h with
    | wording hmem => cases hmem
    | loneLetter hbefore hletter hafter => simp [loneLetter, hbefore, hletter, hafter]

theorem numeral_eq_some_iff : numeral before cs = some lexeme ↔
    ∃ rest, cs = lexeme.text ++ rest ∧ Matches .numeral before lexeme rest := by
  simp only [numeral, Option.bind_eq_bind, Option.bind_eq_some_iff, run?_eq_some_iff,
    Option.guard_eq_some', pure, Option.some.injEq]
  constructor
  · rintro ⟨_, hbefore, digits, ⟨rest, rfl, hrun⟩, _, hafter, n, hn, rfl⟩
    rw [List.drop_left] at hafter
    exact ⟨rest, rfl, .numeral hbefore hrun hafter hn⟩
  · rintro ⟨rest, rfl, h⟩
    cases h with
    | wording hmem => cases hmem
    | numeral hbefore hrun hafter hn =>
      exact ⟨(), hbefore, _, ⟨rest, rfl, hrun⟩, (), by simpa using hafter, _, hn, rfl⟩

theorem background_eq_some_iff : background cs = some lexeme ↔
    ∃ rest, cs = lexeme.text ++ rest ∧ Matches .background before lexeme rest := by
  constructor
  · intro h
    cases cs with
    | nil => cases h
    | cons c rest =>
      cases h
      exact ⟨rest, rfl, .background⟩
  · rintro ⟨rest, rfl, h⟩
    cases h with
    | wording hmem => cases hmem
    | background => rfl

end Lexeme

namespace LexicalRule

open Lexeme

variable {rule : LexicalRule} {before : Option Char} {cs : List Char} {lexeme : Lexeme}

theorem Matches.of_fixed {rest : List Char} (h : rule.Matches before lexeme rest)
    (hfixed : rule.isFixed = true) :
    ∃ wording token, (wording, token) ∈ rule.wordings ∧
      lexeme = ⟨wording.toList, some token⟩ := by
  cases h with
  | wording hmem => exact ⟨_, _, hmem, rfl⟩
  | _ => cases hfixed

theorem anyPhrase_wordings_iff (hfixed : rule.isFixed = true) :
    anyPhrase rule.wordings cs = some lexeme ↔
      ∃ rest, cs = lexeme.text ++ rest ∧ rule.Matches before lexeme rest := by
  rw [anyPhrase_eq_some_iff (wordings_prefixFree rule)]
  constructor
  · rintro ⟨wording, token, rest, hmem, rfl, rfl⟩
    exact ⟨rest, rfl, .wording hmem⟩
  · rintro ⟨rest, rfl, h⟩
    obtain ⟨wording, token, hmem, rfl⟩ := h.of_fixed hfixed
    exact ⟨wording, token, rest, hmem, rfl, rfl⟩

theorem find?_of_fixed (hfixed : rule.isFixed = true) (hclass : rule ≠ objectClass) :
    rule.find? before cs = anyPhrase rule.wordings cs := by
  cases rule with
  | procedures | description | footnoteStart | footnoteEnd =>
    simp only [find?, anyPhrase, wordings, List.findSome?_singleton]
  | vocabulary => rfl
  | objectClass => exact absurd rfl hclass
  | _ => cases hfixed

/-- A rule finds a lexeme exactly where one of its forms begins the text. -/
theorem find?_eq_some_iff : rule.find? before cs = some lexeme ↔
    ∃ rest, cs = lexeme.text ++ rest ∧ rule.Matches before lexeme rest := by
  cases rule with
  | itemNumber => exact itemNumber_eq_some_iff
  | objectClass => exact objectClass_eq_some_iff
  | procedures | description | footnoteStart | footnoteEnd | vocabulary =>
    rw [find?_of_fixed rfl (by simp)]
    exact anyPhrase_wordings_iff rfl
  | addendum => exact addendum_eq_some_iff
  | identifier => exact identifier_eq_some_iff
  | constant => exact constant_eq_some_iff
  | loneLetter => exact loneLetter_eq_some_iff
  | numeral => exact numeral_eq_some_iff
  | background => exact background_eq_some_iff

end LexicalRule

end Dossier
