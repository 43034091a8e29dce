import Dossier.Lexeme.Spelling
import Dossier.Proofs.Cuttings

namespace Dossier

open Lexeme

variable {rule : LexicalRule} {before : Option Char} {rest : List Char} {lexeme : Lexeme}
  {digits : List Char} {n : Nat}

theorem number?_lt (h : number? digits = some n) : n < UInt64.size :=
  (number?_eq_some_iff.mp h).2

theorem wordings_lexable (rule : LexicalRule) : ∀ w ∈ rule.wordings, w.2.Lexable := by
  cases rule <;>
    simp [LexicalRule.wordings, quantities, Lexeme.vocabulary, ObjectClass.all, Token.Lexable,
      UInt64.size]

theorem isName_ofList {word : List Char} (h : IsRun Character.isAsciiWord word rest) :
    Token.IsName (String.ofList word) := by
  refine ⟨fun hempty => h.nonempty ?_, ?_⟩
  · rw [← String.toList_ofList (l := word), hempty]
    rfl
  · rw [String.toList_ofList]
    exact h.all

theorem isName_letter {c : Char} (h : 'b' ≤ c ∧ c ≤ 'z') : Token.IsName c.toString := by
  have hlist : c.toString.toList = [c] := String.toList_singleton c
  refine ⟨fun hempty => ?_, fun d hd => ?_⟩
  · rw [hempty] at hlist
    cases hlist
  · rw [hlist] at hd
    rw [List.mem_singleton.mp hd]
    exact LexicalRule.isAsciiWord_of_letter h

theorem LexicalRule.Matches.lexable {token : Token} (h : rule.Matches before lexeme rest)
    (htoken : lexeme.token = some token) : token.Lexable := by
  cases h with
  | wording hmem => cases htoken; exact wordings_lexable rule _ hmem
  | itemNumber hrun hn => cases htoken; exact number?_lt hn
  | addendum hrun hn hletter => cases htoken; exact ⟨number?_lt hn, by simp⟩
  | addendumLetter hrun hn hletter => cases htoken; exact ⟨number?_lt hn, by simpa using hletter⟩
  | reference hdigits hparts =>
    cases htoken
    exact .inr ⟨_, _, ⟨hdigits.nonempty, hdigits.all⟩, ⟨hparts.nonempty, hparts.all⟩,
      String.toList_ofList⟩
  | property hword => cases htoken; exact .inl (isName_ofList hword)
  | group hrun hn => cases htoken; exact number?_lt hn
  | loneLetter hbefore hletter hafter => cases htoken; exact .inl (isName_letter hletter)
  | numeral hbefore hrun hafter hn => cases htoken; exact number?_lt hn
  | background => cases htoken

theorem number?_repr (h : n < UInt64.size) : number? n.repr.toList = some n := by
  rw [number?_eq_some_iff, Nat.toList_repr]
  exact ⟨Nat.ofDigitChars_toDigits (by decide) (by decide), h⟩

theorem Token.IsReference.not_all {name : String} (h : IsReference name) :
    name.toList.all Character.isAsciiWord = false := by
  obtain ⟨digits, parts, _, _, hname⟩ := h
  rw [hname]
  simp [Character.isAsciiWord]

/-- On its own a spelling is a lexeme of one of the rules, and stands for its token. -/
theorem Token.exists_matches {t : Token} (h : t.Lexable) :
    ∃ rule : LexicalRule, rule.Matches none ⟨t.spelling.toList, some t⟩ [] := by
  cases t with
  | itemNumber n =>
    rw [spelling, String.toList_append]
    exact ⟨.itemNumber, .itemNumber (isRun_repr n) (number?_repr h)⟩
  | objectClass c => cases c <;> exact ⟨.objectClass, .wording (by decide)⟩
  | procedures => exact ⟨.procedures, .wording (by decide)⟩
  | description => exact ⟨.description, .wording (by decide)⟩
  | footnoteStart => exact ⟨.footnoteStart, .wording (by decide)⟩
  | footnoteEnd => exact ⟨.footnoteEnd, .wording (by decide)⟩
  | addendum n letter =>
    cases letter with
    | none =>
      rw [spelling, String.toList_append]
      exact ⟨.addendum, .addendum (isRun_repr n) (number?_repr h.1) rfl⟩
    | some c =>
      have hspelling : (addendum n (some c)).spelling.toList =
          "Addendum ".toList ++ n.repr.toList ++ ['-', c] := by
        rw [spelling]
        simp
      rw [hspelling]
      have hrun : IsRun Char.isDigit n.repr.toList ['-', c] := (isRun_repr n).of_stops fun _ => rfl
      exact ⟨.addendum, .addendumLetter hrun (number?_repr h.1) (h.2 c rfl)⟩
  | identifier name =>
    rcases h with ⟨hne, hall⟩ | hreference
    · have hspelling : (identifier name).spelling = "the " ++ name ++ " of" :=
        if_pos (List.all_eq_true.mpr hall)
      have hrun : IsRun Character.isAsciiWord name.toList (" of".toList ++ []) :=
        ⟨fun hnil => hne (String.toList_eq_nil_iff.mp hnil), hall, rfl⟩
      have hmatches : LexicalRule.Matches .identifier none
          ⟨"the ".toList ++ name.toList ++ " of".toList,
            some (.identifier (String.ofList name.toList))⟩ [] := .property hrun
      rw [String.ofList_toList] at hmatches
      rw [hspelling, String.toList_append, String.toList_append]
      exact ⟨.identifier, hmatches⟩
    · have hspelling : (identifier name).spelling = name := if_neg (by simp [hreference.not_all])
      rw [hspelling]
      obtain ⟨digits, parts, hdigits, hparts, hname⟩ := hreference
      rw [← String.ofList_toList (s := name), String.toList_ofList, hname]
      exact ⟨.identifier, .reference ⟨hdigits.1, hdigits.2, rfl⟩ ⟨hparts.1, hparts.2, rfl⟩⟩
  | verb v => cases v <;> exact ⟨.vocabulary, .wording (by decide)⟩
  | constant n =>
    rw [spelling, String.toList_append]
    exact ⟨.constant, .group (isRun_repr n) (number?_repr h)⟩
  | _ => exact ⟨.vocabulary, .wording (by decide)⟩

theorem Token.ofText_spelling {t : Token} (h : t.Lexable) : ofText t.spelling = [t] := by
  obtain ⟨rule, hmatches⟩ := exists_matches h
  have hspans := Spanned.ofText_of_matches hmatches rfl
  rw [String.ofList_toList] at hspans
  rw [ofText, hspans]
  rfl

/-- The tokens that a text can hold are those that can be spelled: every token of a text is one of
them, and each list of them is what its spellings, each on a line of its own, are read as. -/
theorem Token.ofText_spellings :
    (∀ text, ∀ t ∈ ofText text, t.Lexable) ∧
      ∀ tokens : List Token, (∀ t ∈ tokens, t.Lexable) →
        ofText ("\n".intercalate (tokens.map spelling)) = tokens := by
  refine ⟨fun text t ht => ?_, fun tokens h => ?_⟩
  · obtain ⟨s, hs, rfl⟩ := List.mem_map.mp ht
    obtain ⟨front, rule, lexeme, back, _, hwinner, htoken, _⟩ := Spanned.exists_of_mem_ofText hs
    obtain ⟨rest, _, hmatches⟩ := matches_of_winner? hwinner
    exact hmatches.lexable htoken
  · rw [ofText_intercalate, List.flatMap_map]
    calc tokens.flatMap (fun t => ofText t.spelling)
        = tokens.flatMap (fun t => [t]) := List.flatMap_congr fun t ht => ofText_spelling (h t ht)
      _ = tokens := by simp

theorem Token.ofText_spelled_notes :
    (Token.identifier "SCP-1-2").Lexable ∧
      ofText "the the of\nSCP-1-2\nAddendum 18446744073709551615-_" =
        [.identifier "the", .identifier "SCP-1-2", .addendum 18446744073709551615 (some '_')] := by
  have hread : ofText "SCP-1-2the" = [.identifier "SCP-1-2", .the] := by decide +kernel
  have hmem : Token.identifier "SCP-1-2" ∈ ofText "SCP-1-2the" := by
    rw [hread]
    exact List.mem_cons_self
  have hreference := ofText_spellings.1 _ _ hmem
  have hlexable : ∀ t ∈ [Token.identifier "the", .identifier "SCP-1-2",
      .addendum 18446744073709551615 (some '_')], t.Lexable := by
    simp only [List.forall_mem_cons, List.not_mem_nil, false_implies, implies_true]
    refine ⟨.inl ⟨by decide, ?_⟩, hreference, ⟨by decide, ?_⟩, trivial⟩ <;>
      simp [Character.isAsciiWord]
  exact ⟨hreference, ofText_spellings.2 _ hlexable⟩

end Dossier
