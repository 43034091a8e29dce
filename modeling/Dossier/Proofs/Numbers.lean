import Dossier.Proofs.Reading

namespace Dossier

/-- The number that a token carries. -/
def Token.number? : Token → Option Nat
  | itemNumber n | addendum n _ | constant n => some n
  | objectClass _ | procedures | description | footnoteStart | footnoteEnd | identifier _ | verb _
  | period | the | square | of | ifWord | comma | rule | increment | see | add | and | openParen
  | closeParen | tildes | commentStart | commentEnd => none

/-- Digits of a text with no digit in front of them and none behind. -/
structure DigitRun (text : String) where
  front : List Char
  digits : List Char
  back : List Char
  split : text.toList = front ++ digits ++ back
  starts : front.getLast?.any Char.isDigit = false
  run : Lexeme.IsRun Char.isDigit digits back

namespace DigitRun

variable {text : String}

/-- The byte offset of the first digit. -/
def start (run : DigitRun text) : Nat := byteLength run.front

/-- The byte offset behind the last digit. -/
def stop (run : DigitRun text) : Nat := run.start + byteLength run.digits

/-- The number that the digits spell, of whatever size. -/
def value (run : DigitRun text) : Nat := Nat.ofDigitChars 10 run.digits 0

end DigitRun

open Lexeme

variable {text : String} {rule : LexicalRule} {before : Option Char} {lexeme : Lexeme}
  {rest : List Char} {token : Token} {n : Nat}

namespace DigitRun

/-- Of two runs the one that begins no later is the other one or lies in front of it. -/
theorem digits_eq_or_prefix {run other : DigitRun text} {between : List Char}
    (hfront : other.front = run.front ++ between) :
    run.digits = other.digits ∨ run.digits <+: between := by
  have hrest : run.digits ++ run.back = between ++ (other.digits ++ other.back) := by
    have hsplit := run.split.symm.trans other.split
    simpa [hfront] using hsplit
  rcases List.append_eq_append_iff.mp hrest with ⟨more, hbetween, _⟩ | ⟨more, hdigits, hmore⟩
  · exact .inr ⟨more, hbetween.symm⟩
  · by_cases hempty : between = []
    · subst hempty
      exact .inl (run.run.unique other.run hrest).1
    · -- the character in front of the other run would be a digit
      have hlast : (between.getLast hempty).isDigit = true := by
        apply run.run.all
        rw [hdigits]
        exact List.mem_append_left _ (List.getLast_mem hempty)
      have hstarts := other.starts
      rw [hfront, List.getLast?_append, List.getLast?_eq_some_getLast hempty] at hstarts
      have hnot : (between.getLast hempty).isDigit = false := hstarts
      rw [hlast] at hnot
      cases hnot

theorem digits_eq_or_stop_le {run other : DigitRun text} {between : List Char}
    (hfront : other.front = run.front ++ between) :
    run.digits = other.digits ∨ run.stop ≤ other.start := by
  rcases digits_eq_or_prefix hfront with hsame | ⟨more, hbetween⟩
  · exact .inl hsame
  · right
    rw [stop, start, start, hfront, ← hbetween]
    simp only [byteLength_append]
    omega

/-- Two runs that spell different numbers stand apart. -/
theorem apart {run other : DigitRun text} (hne : run.value ≠ other.value) :
    other.stop ≤ run.start ∨ run.stop ≤ other.start := by
  have hsplit : run.front ++ (run.digits ++ run.back) =
      other.front ++ (other.digits ++ other.back) := by
    have hsplit := run.split.symm.trans other.split
    simpa using hsplit
  rcases List.append_eq_append_iff.mp hsplit with ⟨between, hfront, _⟩ | ⟨between, hfront, _⟩
  · rcases digits_eq_or_stop_le hfront with hsame | hstop
    · exact absurd (congrArg (Nat.ofDigitChars 10 · 0) hsame) hne
    · exact .inr hstop
  · rcases digits_eq_or_stop_le hfront with hsame | hstop
    · exact absurd (congrArg (Nat.ofDigitChars 10 · 0) hsame.symm) hne
    · exact .inl hstop

/-- The digits of a lexeme that none precedes in the text and none follows are a run. -/
theorem exists_of_lexeme {front opening digits ending back : List Char}
    (htext : text.toList = front ++ (opening ++ digits ++ ending) ++ back)
    (hstarts : (opening.getLast?.or front.getLast?).any Char.isDigit = false)
    (hrun : IsRun Char.isDigit digits (ending ++ back)) :
    ∃ run : DigitRun text, run.digits = digits ∧
      run.start = byteLength front + byteLength opening := by
  have hsplit : text.toList = (front ++ opening) ++ digits ++ (ending ++ back) := by simp [htext]
  rw [← List.getLast?_append] at hstarts
  exact ⟨⟨_, _, _, hsplit, hstarts, hrun⟩, rfl, byteLength_append _ _⟩

end DigitRun

theorem joins_of_isDigit {c : Char} (h : c.isDigit = true) : Character.joins c = true := by
  simp only [Char.isDigit, ge_iff_le, Bool.and_eq_true, decide_eq_true_eq,
    UInt32.le_iff_toNat_le] at h
  obtain ⟨hlow, hhigh⟩ := h
  have hlow : 0x30 ≤ c.toNat := hlow
  have hhigh : c.toNat ≤ 0x39 := hhigh
  have hnumber : Character.within Character.decimalNumber c.toNat = true := by
    unfold Character.decimalNumber Character.within
    simp only [hlow, hhigh, decide_true, Bool.true_or, Bool.and_true]
  simp [Character.joins, Character.isAlphanumeric, hnumber]

theorem not_digit_of_startsWord (h : startsWord before = true) :
    before.any Char.isDigit = false := by
  cases before with
  | none => rfl
  | some c =>
    by_cases hc : c.isDigit = true
    · simp [startsWord, joins_of_isDigit hc] at h
    · simpa using hc

theorem quantities_of_number : ∀ rule ∈ LexicalRule.catalog, ∀ w ∈ rule.wordings,
    w.2.number?.isSome = true → w.2.kind = .constant ∧ w.1 ∈ quantities.map Prod.fst := by
  decide +kernel

/-- A lexeme with a number holds the digits that spell it, unless it is a fixed wording. -/
theorem LexicalRule.Matches.exists_digits (h : rule.Matches before lexeme rest)
    (htoken : lexeme.token = some token) (hn : token.number? = some n)
    (hword : token.kind = .constant → String.ofList lexeme.text ∉ quantities.map Prod.fst) :
    ∃ opening digits ending, lexeme.text = opening ++ digits ++ ending ∧
      (opening.getLast?.or before).any Char.isDigit = false ∧
      IsRun Char.isDigit digits (ending ++ rest) ∧ number? digits = some n := by
  cases h with
  | wording hmem =>
    cases htoken
    obtain ⟨hkind, hquantity⟩ :=
      quantities_of_number rule (mem_catalog rule) _ hmem (by simp [hn])
    rw [String.ofList_toList] at hword
    exact absurd hquantity (hword hkind)
  | itemNumber hrun hvalue =>
    cases htoken
    cases hn
    exact ⟨_, _, [], (List.append_nil _).symm, rfl, hrun, hvalue⟩
  | addendum hrun hvalue hletter =>
    cases htoken
    cases hn
    exact ⟨_, _, [], (List.append_nil _).symm, rfl, hrun, hvalue⟩
  | addendumLetter hrun hvalue hletter =>
    cases htoken
    cases hn
    exact ⟨_, _, _, rfl, rfl, hrun, hvalue⟩
  | group hrun hvalue =>
    cases htoken
    cases hn
    exact ⟨_, _, [], (List.append_nil _).symm, rfl, hrun, hvalue⟩
  | numeral hbefore hrun hafter hvalue =>
    cases htoken
    cases hn
    exact ⟨[], _, [], (List.append_nil _).symm, not_digit_of_startsWord hbefore, hrun, hvalue⟩
  | reference | property | loneLetter =>
    cases htoken
    cases hn
  | background => cases htoken

namespace Spanned

/-- Unless it is that of a fixed wording, the number of a token is below `2 ^ 64` and spelled by one
whole run of digits inside the token. A run that spells a number beyond the bound stands apart from
that one, so no part of it makes up a number. -/
theorem number_of_mem_ofText {s : Spanned} (hs : s ∈ ofText text)
    (hn : s.token.number? = some n)
    (hword : s.token.kind = .constant → s.word text ∉ quantities.map Prod.fst) :
    n < UInt64.size ∧ ∃ run : DigitRun text,
      s.start ≤ run.start ∧ run.stop ≤ s.stop ∧ run.value = n ∧
        ∀ other : DigitRun text, UInt64.size ≤ other.value →
          other.stop ≤ run.start ∨ run.stop ≤ other.start := by
  obtain ⟨front, rule, lexeme, back, htext, hwinner, htoken, hstart, hstop⟩ :=
    exists_of_mem_ofText hs
  rw [word_of_append htext hstart hstop] at hword
  obtain ⟨rest, hrest, hmatches⟩ := matches_of_winner? hwinner
  obtain rfl : back = rest := List.append_cancel_left hrest
  obtain ⟨opening, digits, ending, hlexeme, hstarts, hrun, hvalue⟩ :=
    hmatches.exists_digits htoken hn hword
  obtain ⟨hvalue, hlt⟩ := number?_eq_some_iff.mp hvalue
  rw [hlexeme] at htext hstop
  obtain ⟨run, hdigits, hbegins⟩ := DigitRun.exists_of_lexeme htext hstarts hrun
  have hends : run.stop = run.start + byteLength digits := by rw [DigitRun.stop, hdigits]
  have hspelled : run.value = n := by rw [DigitRun.value, hdigits, hvalue]
  rw [byteLength_append, byteLength_append] at hstop
  refine ⟨hlt, run, by omega, by omega, hspelled, fun other hother => ?_⟩
  apply DigitRun.apart
  omega

/-- A number in front of one that no token can carry. -/
theorem number_of_group_before_overflow :
    7 < UInt64.size ∧ ∃ run : DigitRun "GoI-007 99999999999999999999",
      0 ≤ run.start ∧ run.stop ≤ 7 ∧ run.value = 7 ∧
        ∀ other : DigitRun "GoI-007 99999999999999999999", UInt64.size ≤ other.value →
          other.stop ≤ run.start ∨ run.stop ≤ other.start := by
  have hread : ofText "GoI-007 99999999999999999999" = [⟨0, 7, .constant 7⟩] := by decide +kernel
  have hmem : (⟨0, 7, .constant 7⟩ : Spanned) ∈ ofText "GoI-007 99999999999999999999" := by
    rw [hread]
    exact List.mem_cons_self
  exact number_of_mem_ofText hmem rfl fun _ => by decide +kernel

end Spanned

end Dossier
