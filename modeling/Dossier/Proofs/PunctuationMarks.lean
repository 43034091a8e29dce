import Dossier.Proofs.Reading

namespace Dossier

/-- The marks that end and divide sentences. -/
inductive Punctuation where
  | period
  | comma
  | openParen
  | closeParen
deriving DecidableEq, Repr

namespace Punctuation

def char : Punctuation → Char
  | period => '.'
  | comma => ','
  | openParen => '('
  | closeParen => ')'

def token : Punctuation → Token
  | period => .period
  | comma => .comma
  | openParen => .openParen
  | closeParen => .closeParen

/-- What a mark is read as. -/
def lexeme (mark : Punctuation) : Lexeme := ⟨[mark.char], some mark.token⟩

end Punctuation

/-- The byte offsets at which a character stands in a text that begins at offset `start`. -/
def offsets (c : Char) : (start : Nat) → List Char → List Nat
  | _, [] => []
  | start, d :: ds =>
    if d = c then start :: offsets c (start + d.utf8Size) ds else offsets c (start + d.utf8Size) ds

open LexicalRule

variable {before : Option Char} {cs rest : List Char} {rule : LexicalRule} {lexeme : Lexeme}
  {lexemes : List Lexeme} {mark : Punctuation} {c : Char}

theorem offsets_append (c : Char) (start : Nat) (cs ds : List Char) :
    offsets c start (cs ++ ds) = offsets c start cs ++ offsets c (start + byteLength cs) ds := by
  induction cs generalizing start with
  | nil => rfl
  | cons d cs ih =>
    rw [List.cons_append, offsets, offsets, ih, byteLength_cons, Nat.add_assoc]
    split <;> rfl

theorem offsets_of_not_mem (start : Nat) (h : c ∉ cs) : offsets c start cs = [] := by
  induction cs generalizing start with
  | nil => rfl
  | cons d cs ih =>
    rw [List.mem_cons, not_or] at h
    rw [offsets, if_neg (Ne.symm h.1), ih _ h.2]

theorem mem_offsets_iff {start offset : Nat} : offset ∈ offsets c start cs ↔
    ∃ front back, cs = front ++ c :: back ∧ offset = start + byteLength front := by
  constructor
  · intro h
    induction cs generalizing start with
    | nil => cases h
    | cons d cs ih =>
      have hlater : offset ∈ offsets c (start + d.utf8Size) cs →
          ∃ front back, d :: cs = front ++ c :: back ∧ offset = start + byteLength front := by
        intro h
        obtain ⟨front, back, rfl, rfl⟩ := ih h
        exact ⟨d :: front, back, rfl, by rw [byteLength_cons, Nat.add_assoc]⟩
      rw [offsets] at h
      split at h
      · next hd =>
        subst hd
        rcases List.mem_cons.mp h with rfl | h
        · exact ⟨[], cs, rfl, rfl⟩
        · exact hlater h
      · exact hlater h
  · rintro ⟨front, back, rfl, rfl⟩
    rw [offsets_append, offsets, if_pos rfl]
    exact List.mem_append_right _ List.mem_cons_self

namespace Punctuation

theorem utf8Size_char (mark : Punctuation) : mark.char.utf8Size = 1 := by
  cases mark <;> rfl

/-- Only the mark itself has the mark in its opening or stands for its token. -/
theorem wordings_with_mark (mark : Punctuation) : ∀ rule ∈ catalog,
    (∀ o ∈ rule.openings, mark.char ∈ o.toList → rule = .vocabulary) ∧
      ∀ w ∈ rule.wordings, mark.char ∈ w.1.toList ∨ w.2 = mark.token →
        w = (String.singleton mark.char, mark.token) := by
  cases mark <;> decide +kernel

end Punctuation

theorem LexicalRule.Matches.eq_mark_of_mem (h : rule.Matches before lexeme rest)
    (hrule : rule ≠ .background) (hmark : mark.char ∈ lexeme.text) : lexeme = mark.lexeme := by
  obtain ⟨hopening, hwording⟩ := mark.wordings_with_mark rule (mem_catalog rule)
  by_cases hvocabulary : rule = .vocabulary
  · subst hvocabulary
    obtain ⟨wording, token, hmem, rfl⟩ := h.of_fixed rfl
    cases hwording _ hmem (.inl hmark)
    rw [String.toList_singleton]
    rfl
  · refine absurd hmark (h.not_mem_text hrule ?_ ?_ ?_)
    · exact fun o ho hmem => hvocabulary (hopening o ho hmem)
    · cases mark <;> decide
    · cases mark <;> decide

theorem LexicalRule.Matches.eq_mark_of_token (h : rule.Matches before lexeme rest)
    (htoken : lexeme.token = some mark.token) : lexeme = mark.lexeme := by
  cases h with
  | wording hmem =>
    obtain ⟨_, hwording⟩ := mark.wordings_with_mark rule (mem_catalog rule)
    cases hwording _ hmem (.inr (Option.some.inj htoken))
    rw [String.toList_singleton]
    rfl
  | _ => cases mark <;> cases htoken

/-- Where a mark stands, the mark is found. -/
theorem find?_mark (mark : Punctuation) (before : Option Char) (rest : List Char) :
    LexicalRule.vocabulary.find? before (mark.char :: rest) = some mark.lexeme := by
  have hmem : (String.singleton mark.char, mark.token) ∈ LexicalRule.vocabulary.wordings := by
    cases mark <;> decide +kernel
  have hmatches : LexicalRule.vocabulary.Matches before
      ⟨(String.singleton mark.char).toList, some mark.token⟩ rest := .wording hmem
  rw [String.toList_singleton] at hmatches
  exact find?_eq_some_iff.mpr ⟨rest, rfl, hmatches⟩

/-- A lexeme of a text is a mark or has nothing to do with it. -/
theorem eq_mark_or_apart (mark : Punctuation)
    (h : winner? catalog before cs = some (rule, lexeme)) :
    lexeme = mark.lexeme ∨ mark.char ∉ lexeme.text ∧ lexeme.token ≠ some mark.token := by
  obtain ⟨rest, rfl, hmatches⟩ := matches_of_winner? h
  by_cases htoken : lexeme.token = some mark.token
  · exact .inl (hmatches.eq_mark_of_token htoken)
  by_cases hmark : mark.char ∈ lexeme.text
  · left
    apply hmatches.eq_mark_of_mem _ hmark
    rintro rfl
    -- background would have taken the mark away from the vocabulary
    cases hmatches with
    | wording hmem => cases hmem
    | background =>
      cases List.mem_singleton.mp hmark
      have hdeclines : LexicalRule.vocabulary.find? before ([mark.char] ++ rest) = none :=
        declines_of_background h (by simp)
      rw [List.singleton_append, find?_mark] at hdeclines
      cases hdeclines
  · exact .inr ⟨hmark, htoken⟩

theorem Reading.filter_mark (h : Reading before cs lexemes) (mark : Punctuation) (start : Nat) :
    (Spanned.along start lexemes).filter (fun s => s.token = mark.token) =
      (offsets mark.char start cs).map fun offset => ⟨offset, offset + 1, mark.token⟩ := by
  induction h generalizing start with
  | ended => rfl
  | @found before rest rule lexeme lexemes hwinner hrest ih =>
    rw [Spanned.along, List.filter_append, offsets_append, List.map_append, ih]
    congr 1
    rcases eq_mark_or_apart mark hwinner with rfl | ⟨hchar, htoken⟩
    · simp [Punctuation.lexeme, offsets, mark.utf8Size_char]
    · rw [offsets_of_not_mem _ hchar, List.map_nil, List.filter_eq_nil_iff]
      intro s hs hmark
      obtain ⟨token, hmem, rfl⟩ := List.mem_map.mp hs
      exact htoken ((Option.mem_toList.mp hmem).trans (congrArg some (of_decide_eq_true hmark)))

/-- The tokens of a punctuation mark are its occurrences in the text: one for each of them, in their
order, of one byte at its place. -/
theorem Spanned.ofText_punctuation (text : String) (mark : Punctuation) :
    (ofText text).filter (fun s => s.token = mark.token) =
        (offsets mark.char 0 text.toList).map (fun offset => ⟨offset, offset + 1, mark.token⟩) ∧
      ∀ start stop, ⟨start, stop, mark.token⟩ ∈ ofText text ↔
        stop = start + 1 ∧
          ∃ front back, text.toList = front ++ mark.char :: back ∧ start = byteLength front := by
  obtain ⟨lexemes, hreading⟩ := exists_reading none text.toList
  have hfilter := hreading.filter_mark mark 0
  rw [← hreading.ofText] at hfilter
  refine ⟨hfilter, fun start stop => ?_⟩
  have hmem : ⟨start, stop, mark.token⟩ ∈ ofText text ↔
      ⟨start, stop, mark.token⟩ ∈ (ofText text).filter fun s => s.token = mark.token := by
    simp
  rw [hmem, hfilter, List.mem_map]
  simp only [mem_offsets_iff, Nat.zero_add, Spanned.mk.injEq, and_true]
  constructor
  · rintro ⟨offset, hplace, rfl, rfl⟩
    exact ⟨rfl, hplace⟩
  · rintro ⟨rfl, hplace⟩
    exact ⟨start, hplace, rfl, rfl⟩

end Dossier
