import Dossier.Proofs.LexemeForms

namespace Dossier

namespace LexicalRule

open Lexeme

variable {rule other : LexicalRule} {before before' : Option Char} {cs rest rest' : List Char}
  {lexeme lexeme' : Lexeme}

/-- What the lexemes of a rule begin with. Letters and numbers have no fixed beginning. -/
def openings : LexicalRule → List String
  | itemNumber => ["Item #: SCP-"]
  | addendum => ["Addendum "]
  | identifier => ["SCP-", "the "]
  | constant => "GoI-" :: quantities.map Prod.fst
  | rule => rule.wordings.map Prod.fst

theorem mem_catalog (rule : LexicalRule) : rule ∈ catalog := by
  cases rule <;> decide

theorem openings_prefix : ∀ rule ∈ catalog, ∀ other ∈ catalog, rule ≠ other →
    ∀ o ∈ rule.openings, ∀ o' ∈ other.openings, o.toList <+: o'.toList →
      rule = vocabulary ∧ other = identifier ∧ o = "the" := by
  decide +kernel

/-- No opening begins with a digit. -/
theorem openings_head : ∀ rule ∈ catalog, ∀ o ∈ rule.openings,
    o.toList ≠ [] ∧ o.toList.head?.any Char.isDigit = false := by
  decide +kernel

/-- An opening that begins with a letter is never a letter that stands alone. -/
theorem openings_second : ∀ rule ∈ catalog, ∀ o ∈ rule.openings,
    o.toList.head?.any (fun c => 'b' ≤ c && c ≤ 'z') = true →
      o.toList.tail.head?.any Character.isWord = true := by
  decide +kernel

/-- How a place looks where a rule other than the last one applies. -/
inductive Opens : LexicalRule → List Char → Prop
  | opening {rule : LexicalRule} {cs : List Char} {o : String} (hmem : o ∈ rule.openings)
      (hbegins : o.toList <+: cs) : Opens rule cs
  | letter {c : Char} {rest : List Char} (hletter : 'b' ≤ c ∧ c ≤ 'z')
      (hafter : endsWord rest = true) : Opens loneLetter (c :: rest)
  | digit {c : Char} {rest : List Char} (hdigit : c.isDigit = true) : Opens numeral (c :: rest)

theorem openings_of_wording {wording : String} {token : Token}
    (hmem : (wording, token) ∈ rule.wordings) : wording ∈ rule.openings := by
  have hfst : wording ∈ rule.wordings.map Prod.fst := List.mem_map.mpr ⟨_, hmem, rfl⟩
  cases rule with
  | itemNumber | addendum | identifier => cases hmem
  | constant => exact List.mem_cons_of_mem _ hfst
  | _ => exact hfst

theorem Matches.opens (h : rule.Matches before lexeme rest) (hrule : rule ≠ .background) :
    rule.Opens (lexeme.text ++ rest) := by
  cases h with
  | wording hmem => exact .opening (openings_of_wording hmem) (List.prefix_append _ _)
  | itemNumber | addendum | addendumLetter | reference | group =>
    exact .opening List.mem_cons_self (by simp)
  | property => exact .opening (List.mem_cons_of_mem _ List.mem_cons_self) (by simp)
  | loneLetter hbefore hletter hafter => exact .letter hletter hafter
  | @numeral _ digits _ _ hbefore hrun hafter hn =>
    cases digits with
    | nil => exact absurd rfl hrun.nonempty
    | cons c digits => exact .digit (hrun.all c List.mem_cons_self)
  | background => exact absurd rfl hrule

theorem head?_of_opening {o : String} {c : Char} (hmem : o ∈ rule.openings)
    (hbegins : o.toList <+: c :: rest) : o.toList.head? = some c := by
  obtain ⟨hne, _⟩ := openings_head rule (mem_catalog rule) o hmem
  cases ho : o.toList with
  | nil => exact absurd ho hne
  | cons d ds =>
    rw [ho] at hbegins
    obtain ⟨rfl, _⟩ := List.cons_prefix_cons.mp hbegins
    rfl

theorem not_opening_of_digit {o : String} {c : Char} (hmem : o ∈ rule.openings)
    (hdigit : c.isDigit = true) : ¬ o.toList <+: c :: rest := by
  obtain ⟨_, hhead⟩ := openings_head rule (mem_catalog rule) o hmem
  intro hbegins
  rw [head?_of_opening hmem hbegins, Option.any_some, hdigit] at hhead
  cases hhead

theorem not_opening_of_letter {o : String} {c : Char} (hmem : o ∈ rule.openings)
    (hletter : 'b' ≤ c ∧ c ≤ 'z') (hafter : endsWord rest = true) : ¬ o.toList <+: c :: rest := by
  have hsecond := openings_second rule (mem_catalog rule) o hmem
  obtain ⟨hne, _⟩ := openings_head rule (mem_catalog rule) o hmem
  intro hbegins
  cases ho : o.toList with
  | nil => exact hne ho
  | cons d ds =>
    rw [ho] at hsecond hbegins
    obtain ⟨rfl, ⟨more, rfl⟩⟩ := List.cons_prefix_cons.mp hbegins
    have hglued : ds.head?.any Character.isWord = true := hsecond (by simp [hletter])
    cases ds with
    | nil => cases hglued
    | cons e es =>
      have hword : Character.isWord e = true := hglued
      simp [endsWord, hword] at hafter

theorem not_digit_of_letter {c : Char} (hletter : 'b' ≤ c ∧ c ≤ 'z') : c.isDigit = false := by
  have hle : 'b'.toNat ≤ c.toNat := hletter.1
  simp only [Char.isDigit, ge_iff_le, Bool.and_eq_false_imp, decide_eq_true_eq,
    decide_eq_false_iff_not, UInt32.le_iff_toNat_le]
  intro _ h9
  have hlt : c.toNat ≤ '9'.toNat := h9
  have hbound : '9'.toNat < 'b'.toNat := by decide
  omega

/-- What a rule other than the last one can begin with. -/
theorem Opens.head {c : Char} (h : rule.Opens (c :: rest)) :
    (∃ o ∈ rule.openings, o.toList.head? = some c) ∨ ('b' ≤ c ∧ c ≤ 'z') ∨ c.isDigit = true := by
  generalize hcs : c :: rest = cs at h
  cases h with
  | opening hmem hbegins => exact .inl ⟨_, hmem, head?_of_opening hmem (hcs ▸ hbegins)⟩
  | letter hletter hafter =>
    cases hcs
    exact .inr (.inl hletter)
  | digit hdigit =>
    cases hcs
    exact .inr (.inr hdigit)

/-- Two rules that apply at the same place are `the` and the phrase that begins with it. -/
theorem Opens.eq_or_the (h : rule.Opens cs) (h' : other.Opens cs) (hne : rule ≠ other) :
    (rule = vocabulary ∧ other = identifier) ∨ (rule = identifier ∧ other = vocabulary) := by
  cases h with
  | opening hmem hbegins =>
    cases h' with
    | opening hmem' hbegins' =>
      rcases List.prefix_or_prefix_of_prefix hbegins hbegins' with hle | hle
      · obtain ⟨hrule, hother, _⟩ :=
          openings_prefix _ (mem_catalog _) _ (mem_catalog _) hne _ hmem _ hmem' hle
        exact .inl ⟨hrule, hother⟩
      · obtain ⟨hother, hrule, _⟩ :=
          openings_prefix _ (mem_catalog _) _ (mem_catalog _) hne.symm _ hmem' _ hmem hle
        exact .inr ⟨hrule, hother⟩
    | letter hletter hafter => exact absurd hbegins (not_opening_of_letter hmem hletter hafter)
    | digit hdigit => exact absurd hbegins (not_opening_of_digit hmem hdigit)
  | letter hletter hafter =>
    cases h' with
    | opening hmem hbegins => exact absurd hbegins (not_opening_of_letter hmem hletter hafter)
    | letter => exact absurd rfl hne
    | digit hdigit => simp [not_digit_of_letter hletter] at hdigit
  | digit hdigit =>
    cases h' with
    | opening hmem hbegins => exact absurd hbegins (not_opening_of_digit hmem hdigit)
    | letter hletter => simp [not_digit_of_letter hletter] at hdigit
    | digit => exact absurd rfl hne

/-- No word of the vocabulary is long enough to name a property or an item. -/
theorem not_identifier_of_wording {wording : String} (hmem : wording ∈ vocabulary.openings) :
    ¬ identifier.Opens wording.toList := by
  intro h
  cases h with
  | opening hmem' hbegins =>
    obtain ⟨hrule, _, _⟩ := openings_prefix _ (mem_catalog identifier) _ (mem_catalog vocabulary)
      (by simp) _ hmem' _ hmem hbegins
    cases hrule

theorem find?_of_winner? {rules : List LexicalRule}
    (h : winner? rules before cs = some (rule, lexeme)) : rule.find? before cs = some lexeme := by
  obtain ⟨first, _, hfirst⟩ := List.exists_of_findSome?_eq_some h
  obtain ⟨lexeme', hfind, heq⟩ := Option.map_eq_some_iff.mp hfirst
  cases heq
  exact hfind

/-- The rules that are earlier in line than the winner have declined. -/
theorem declines_of_earlier {rules : List LexicalRule}
    (h : winner? rules before cs = some (rule, lexeme))
    (hearlier : other ∈ rules.takeWhile (· ≠ rule)) : other.find? before cs = none := by
  obtain ⟨front, first, back, hrules, hfirst, hfront⟩ := List.findSome?_eq_some_iff.mp h
  obtain ⟨lexeme', _, heq⟩ := Option.map_eq_some_iff.mp hfirst
  cases heq
  have hmem : other ∈ front := by
    rw [hrules, List.takeWhile_append] at hearlier
    split at hearlier
    · simpa using hearlier
    · exact List.takeWhile_subset _ hearlier
  simpa using hfront other hmem

/-- Background comes last. -/
theorem declines_of_background (h : winner? catalog before cs = some (background, lexeme))
    (hrule : rule ≠ background) : rule.find? before cs = none := by
  apply declines_of_earlier h
  cases rule <;> first | decide | exact absurd rfl hrule

theorem exists_winner? (before : Option Char) (hne : cs ≠ []) : ∃ rule lexeme,
    winner? catalog before cs = some (rule, lexeme) := by
  cases cs with
  | nil => exact absurd rfl hne
  | cons c cs =>
    cases h : winner? catalog before (c :: cs) with
    | some found => exact ⟨found.1, found.2, rfl⟩
    | none =>
      have hnone := List.findSome?_eq_none_iff.mp h background (mem_catalog background)
      cases hnone

/-- Where no other rule can begin, the next character is background. -/
theorem winner?_of_not_opens {c : Char} (h : ∀ rule : LexicalRule, ¬ rule.Opens (c :: cs)) :
    winner? catalog before (c :: cs) = some (background, ⟨[c], none⟩) := by
  obtain ⟨rule, lexeme, hwinner⟩ := exists_winner? before (List.cons_ne_nil c cs)
  have hfind := find?_of_winner? hwinner
  by_cases hrule : rule = background
  · subst hrule
    cases hfind
    exact hwinner
  · obtain ⟨rest, heq, hmatches⟩ := find?_eq_some_iff.mp hfind
    exact absurd (heq ▸ hmatches.opens hrule) (h rule)

/-- A rule that takes the whole of a text has no rival there. -/
theorem winner?_of_whole (h : rule.Matches none lexeme []) (hrule : rule ≠ background)
    (hne : lexeme.text ≠ []) : winner? catalog none lexeme.text = some (rule, lexeme) := by
  have hfind : rule.find? none lexeme.text = some lexeme :=
    find?_eq_some_iff.mpr ⟨[], (List.append_nil _).symm, h⟩
  obtain ⟨first, found, hwinner⟩ := exists_winner? none hne
  have hfound := find?_of_winner? hwinner
  by_cases hsame : first = rule
  · subst hsame
    rw [hfind, Option.some.injEq] at hfound
    rw [hwinner, hfound]
  · exfalso
    have hfirst : first ≠ background := by
      rintro rfl
      rw [declines_of_background hwinner hrule] at hfind
      cases hfind
    obtain ⟨rest, heq, hmatches⟩ := find?_eq_some_iff.mp hfound
    have hopens : first.Opens lexeme.text := heq ▸ hmatches.opens hfirst
    have hopens' : rule.Opens lexeme.text := by simpa using h.opens hrule
    rcases hopens.eq_or_the hopens' hsame with ⟨rfl, rfl⟩ | ⟨rfl, rfl⟩
    · rw [declines_of_earlier hwinner (by decide)] at hfind
      cases hfind
    · obtain ⟨wording, token, hmem, rfl⟩ := h.of_fixed rfl
      exact not_identifier_of_wording (openings_of_wording hmem) hopens

end LexicalRule

end Dossier
