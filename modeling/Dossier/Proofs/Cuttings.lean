import Dossier.Proofs.LineBreaks

namespace Dossier

open LexicalRule

variable {rule : LexicalRule} {before : Option Char} {cs rest : List Char} {lexeme : Lexeme}

theorem LexicalRule.Matches.ne_background {token : Token}
    (h : rule.Matches before lexeme rest) (htoken : lexeme.token = some token) :
    rule ≠ .background := by
  rintro rfl
  cases h with
  | wording hmem => cases hmem
  | background => cases htoken

/-- A lexeme that a rule takes whole is read as one token. -/
theorem Spanned.ofText_of_matches {token : Token} (h : rule.Matches none lexeme [])
    (htoken : lexeme.token = some token) :
    ofText (String.ofList lexeme.text) = [⟨0, byteLength lexeme.text, token⟩] := by
  have hwinner : winner? catalog none (lexeme.text ++ []) = some (rule, lexeme) := by
    rw [List.append_nil]
    exact winner?_of_whole h (h.ne_background htoken) h.nonempty
  have hreading : Reading none (lexeme.text ++ []) [lexeme] := .found hwinner .ended
  rw [List.append_nil, ← String.toList_ofList (l := lexeme.text)] at hreading
  rw [hreading.ofText, along, along, htoken, Nat.zero_add]
  rfl

/-- Each token is read again from its own words alone, and the words of all the tokens on lines of
their own have the tokens of the whole text. -/
theorem Spanned.ofText_word (text : String) :
    (∀ s ∈ ofText text, ofText (s.word text) = [⟨0, (s.word text).utf8ByteSize, s.token⟩]) ∧
      Token.ofText ("\n".intercalate ((ofText text).map (word text))) = Token.ofText text := by
  have halone : ∀ s ∈ ofText text,
      ofText (s.word text) = [⟨0, (s.word text).utf8ByteSize, s.token⟩] := by
    intro s hs
    obtain ⟨front, rule, lexeme, back, htext, hwinner, htoken, hstart, hstop⟩ :=
      exists_of_mem_ofText hs
    obtain ⟨rest, _, hmatches⟩ := matches_of_winner? hwinner
    rw [word_of_append htext hstart hstop, ofText_of_matches (hmatches.moved .alone) htoken,
      ← byteLength_toList, String.toList_ofList]
  refine ⟨halone, ?_⟩
  rw [Token.ofText_intercalate, List.flatMap_map, Token.ofText, List.map_eq_flatMap]
  refine List.flatMap_congr fun s hs => ?_
  rw [Token.ofText, halone s hs]
  rfl

theorem Spanned.ofText_word_of_glued : ofText "SCP-1-2the" =
    [⟨0, 7, .identifier "SCP-1-2"⟩, ⟨7, 10, .the⟩] ∧
    ofText "SCP-1-2" = [⟨0, 7, .identifier "SCP-1-2"⟩] ∧ ofText "the" = [⟨0, 3, .the⟩] ∧
    Token.ofText "SCP-1-2\nthe" = [.identifier "SCP-1-2", .the] := by
  have hread : ofText "SCP-1-2the" = [⟨0, 7, .identifier "SCP-1-2"⟩, ⟨7, 10, .the⟩] := by
    decide +kernel
  obtain ⟨halone, hlines⟩ := ofText_word "SCP-1-2the"
  rw [hread] at halone hlines
  refine ⟨hread, halone _ List.mem_cons_self, halone _ (.tail _ List.mem_cons_self),
    hlines.trans ?_⟩
  rw [Token.ofText, hread]
  rfl

end Dossier
