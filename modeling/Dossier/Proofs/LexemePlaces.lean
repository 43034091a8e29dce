import Dossier.Proofs.LexemeRivals

namespace Dossier

namespace Lexeme

variable {before before' : Option Char} {rest rest' run : List Char} {p : Char → Bool} {c : Char}

/-- What glues to a lexeme in the second place also glues to it in the first. -/
structure Looser (before : Option Char) (rest : List Char) (before' : Option Char)
    (rest' : List Char) : Prop where
  left : startsWord before = true → startsWord before' = true
  right : endsWord rest = true → endsWord rest' = true
  digits : rest.head?.any Char.isDigit = false → rest'.head?.any Char.isDigit = false
  letter : letter? rest = none → letter? rest' = none

theorem Looser.alone : Looser before rest none [] where
  left _ := rfl
  right _ := rfl
  digits _ := rfl
  letter _ := rfl

theorem isWord_break : Character.isWord '\n' = false := by decide

theorem joins_break : Character.joins '\n' = false := by decide

theorem startsWord_break : startsWord (some '\n') = true := by
  simp [startsWord, joins_break]

/-- In front of a line break is as good as at the end. -/
theorem head?_append_break (hc : p '\n' = false) :
    (rest ++ '\n' :: rest').head?.any p = rest.head?.any p := by
  cases rest with
  | nil => simp [hc]
  | cons c rest => rfl

theorem letter?_append_break : letter? (rest ++ '\n' :: rest') = letter? rest := by
  match rest with
  | [] => rfl
  | [c] | c :: d :: rest =>
    by_cases hc : c = '-'
    · subst hc
      rfl
    · simp [letter?, hc]

theorem Looser.of_break : Looser before rest before (rest ++ '\n' :: rest') where
  left h := h
  right h := by rwa [endsWord, head?_append_break isWord_break]
  digits h := by rwa [head?_append_break rfl]
  letter h := by rwa [letter?_append_break]

theorem Looser.before_break : Looser before (rest ++ '\n' :: rest') before rest where
  left h := h
  right h := by rwa [endsWord, head?_append_break isWord_break] at h
  digits h := by rwa [head?_append_break rfl] at h
  letter h := by rwa [letter?_append_break] at h

end Lexeme

namespace LexicalRule

open Lexeme

variable {rule : LexicalRule} {before before' : Option Char} {cs rest rest' : List Char}
  {lexeme : Lexeme}

/-- A lexeme can be moved to where nothing glues to it that did not do so before. -/
theorem Matches.moved (h : rule.Matches before lexeme rest)
    (hplace : Looser before rest before' rest') : rule.Matches before' lexeme rest' := by
  cases h with
  | wording hmem => exact .wording hmem
  | itemNumber hrun hn => exact .itemNumber (hrun.of_stops hplace.digits) hn
  | addendum hrun hn hletter =>
    exact .addendum (hrun.of_stops hplace.digits) hn (hplace.letter hletter)
  | addendumLetter hrun hn hletter => exact .addendumLetter (hrun.of_stops id) hn hletter
  | reference hdigits hparts =>
    exact .reference (hdigits.of_stops id) (hparts.of_stops hplace.digits)
  | property hword => exact .property (hword.of_stops fun _ => rfl)
  | group hrun hn => exact .group (hrun.of_stops hplace.digits) hn
  | loneLetter hbefore hletter hafter =>
    exact .loneLetter (hplace.left hbefore) hletter (hplace.right hafter)
  | numeral hbefore hrun hafter hn =>
    exact .numeral (hplace.left hbefore) (hrun.of_stops hplace.digits) (hplace.right hafter) hn
  | background => exact .background

theorem wordings_text : ∀ rule ∈ catalog, ∀ w ∈ rule.wordings, w.1.toList ≠ [] := by
  decide +kernel

theorem Matches.nonempty (h : rule.Matches before lexeme rest) : lexeme.text ≠ [] := by
  cases h with
  | wording hmem => exact wordings_text _ (mem_catalog _) _ hmem
  | numeral hbefore hrun => exact hrun.nonempty
  | _ => simp

theorem isAsciiWord_of_isDigit {c : Char} (h : c.isDigit = true) :
    Character.isAsciiWord c = true := by
  change (c.isAlpha || c.isDigit || c == '_') = true
  simp [h]

theorem isAsciiWord_of_letter {c : Char} (h : 'b' ≤ c ∧ c ≤ 'z') :
    Character.isAsciiWord c = true := by
  have hlower : c.isLower = true := Bool.and_eq_true_iff.mpr
    ⟨decide_eq_true (UInt32.le_trans (by decide) h.1), decide_eq_true h.2⟩
  change (c.isUpper || c.isLower || c.isDigit || c == '_') = true
  simp [hlower]

/-- Besides its opening a lexeme is made of letters, digits, underscores and hyphens. -/
theorem Matches.not_mem_text {c : Char} (h : rule.Matches before lexeme rest)
    (hrule : rule ≠ .background) (hopening : ∀ o ∈ rule.openings, c ∉ o.toList)
    (hword : Character.isAsciiWord c = false) (hhyphen : c ≠ '-') : c ∉ lexeme.text := by
  have hne : ∀ d, Character.isAsciiWord d = true → c ≠ d := by
    rintro d hd rfl
    rw [hword] at hd
    cases hd
  have hdigit : c.isDigit = false := by
    by_contra hc
    exact hne c (isAsciiWord_of_isDigit (by simpa using hc)) rfl
  cases h with
  | wording hmem => exact hopening _ (openings_of_wording hmem)
  | itemNumber hrun hn | group hrun hn | addendum hrun hn =>
    simp only [List.mem_append, not_or]
    exact ⟨hopening _ List.mem_cons_self, hrun.not_mem hdigit⟩
  | @addendumLetter _ _ _ _ letter hrun hn hletter =>
    simp only [List.mem_append, List.mem_cons, List.not_mem_nil, or_false, not_or]
    exact ⟨⟨hopening _ List.mem_cons_self, hrun.not_mem hdigit⟩, hhyphen, hne letter hletter⟩
  | reference hdigits hparts =>
    simp only [List.mem_append, List.mem_cons, not_or]
    exact ⟨⟨hopening _ List.mem_cons_self, hdigits.not_mem hdigit⟩, hhyphen,
      hparts.not_mem hdigit⟩
  | property hrun =>
    have hthe := hopening "the " (List.mem_cons_of_mem _ List.mem_cons_self)
    have hof : c ∉ " of".toList := by
      intro hc
      rcases List.mem_cons.mp hc with rfl | hc
      · exact hthe (by decide)
      · rcases List.mem_cons.mp hc with rfl | hc
        · cases hword
        · rw [List.mem_singleton.mp hc] at hword
          cases hword
    simp only [List.mem_append, not_or]
    exact ⟨⟨hthe, hrun.not_mem hword⟩, hof⟩
  | @loneLetter _ letter _ hbefore hletter hafter =>
    rw [List.mem_singleton]
    exact hne letter (isAsciiWord_of_letter hletter)
  | numeral hbefore hrun hafter hn => exact hrun.not_mem hdigit
  | background => exact absurd rfl hrule

theorem openings_no_break : ∀ rule ∈ catalog, ∀ o ∈ rule.openings, '\n' ∉ o.toList := by
  decide +kernel

/-- No lexeme that means anything goes over a line break. -/
theorem Matches.no_break (h : rule.Matches before lexeme rest) (hrule : rule ≠ .background) :
    '\n' ∉ lexeme.text :=
  h.not_mem_text hrule (openings_no_break rule (mem_catalog rule)) (by decide) (by decide)

/-- What a text begins with ends before the first character that is no part of it. -/
theorem split_before {c : Char} {text : List Char} (heq : cs ++ c :: rest = text ++ rest')
    (hc : c ∉ text) : ∃ more, cs = text ++ more ∧ rest' = more ++ c :: rest := by
  rcases List.append_eq_append_iff.mp heq with ⟨more, rfl, hmore⟩ | ⟨more, hcs, hrest⟩
  · cases more with
    | nil => exact ⟨[], by simp, by simpa using hmore.symm⟩
    | cons d more =>
      cases hmore
      simp at hc
  · exact ⟨more, hcs, hrest⟩

theorem find?_append_break (hrule : rule ≠ background) :
    rule.find? before (cs ++ '\n' :: rest) = rule.find? before cs := by
  apply Option.ext
  intro lexeme
  rw [find?_eq_some_iff, find?_eq_some_iff]
  constructor
  · rintro ⟨rest', heq, h⟩
    obtain ⟨more, rfl, rfl⟩ := split_before heq (h.no_break hrule)
    exact ⟨more, rfl, h.moved .before_break⟩
  · rintro ⟨more, rfl, h⟩
    exact ⟨more ++ '\n' :: rest, by simp, h.moved .of_break⟩

theorem winner?_congr {before' : Option Char} {cs' : List Char}
    (h : ∀ rule : LexicalRule, rule.find? before cs = rule.find? before' cs')
    (rules : List LexicalRule) : winner? rules before cs = winner? rules before' cs' := by
  simp only [winner?, h]

theorem winner?_append_break (hne : cs ≠ []) :
    winner? catalog before (cs ++ '\n' :: rest) = winner? catalog before cs := by
  refine winner?_congr (fun rule => ?_) catalog
  by_cases hrule : rule = background
  · subst hrule
    cases cs with
    | nil => exact absurd rfl hne
    | cons => rfl
  · exact find?_append_break hrule

theorem winner?_break : winner? catalog before ('\n' :: rest) =
    some (background, ⟨['\n'], none⟩) := by
  refine winner?_of_not_opens fun rule hopens => ?_
  rcases hopens.head with ⟨o, hmem, hhead⟩ | hletter | hdigit
  · exact openings_no_break rule (mem_catalog rule) o hmem (List.mem_of_mem_head? hhead)
  · exact absurd hletter (by decide)
  · cases hdigit

/-- At the beginning of a line the rules work as at the beginning of a text. -/
theorem winner?_of_startsWord (h : startsWord before = startsWord before') :
    winner? catalog before cs = winner? catalog before' cs := by
  refine winner?_congr (fun rule => ?_) catalog
  cases rule with
  | loneLetter => cases cs <;> simp only [find?, Lexeme.loneLetter, h]
  | numeral => simp only [find?, Lexeme.numeral, h]
  | _ => rfl

end LexicalRule

end Dossier
