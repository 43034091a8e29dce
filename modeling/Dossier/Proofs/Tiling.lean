import Dossier.Proofs.Cuttings

namespace Dossier

open LexicalRule

variable {before : Option Char} {cs rest front : List Char} {text : String} {rule : LexicalRule}
  {lexeme : Lexeme} {lexemes earlier later : List Lexeme}

theorem placeAt?_append (before : Option Char) (front cs : List Char) :
    placeAt? before (byteLength front) (front ++ cs) = some (front.getLast?.or before, cs) := by
  induction front generalizing before with
  | nil => cases cs <;> rfl
  | cons c front ih =>
    have hpos := c.utf8Size_pos
    have hne : c.utf8Size + byteLength front ≠ 0 := by omega
    have hle : ¬ c.utf8Size + byteLength front < c.utf8Size := by omega
    rw [List.cons_append, byteLength_cons, placeAt?, if_neg hne, if_neg hle,
      Nat.add_sub_cancel_left, ih]
    cases front with
    | nil => rfl
    | cons d front => simp [List.getLast?_cons]

theorem placeAt?_of_length_lt {offset : Nat} (h : byteLength cs < offset) :
    placeAt? before offset cs = none := by
  induction cs generalizing before offset with
  | nil => exact if_neg (Nat.ne_of_gt h)
  | cons c cs ih =>
    rw [byteLength_cons] at h
    rw [placeAt?, if_neg (by omega), if_neg (by omega), ih (by omega)]

theorem findAt?_append (h : text.toList = front ++ cs) (rule : LexicalRule) :
    rule.findAt? text (byteLength front) = rule.find? front.getLast? cs := by
  simp [findAt?, h, placeAt?_append]

theorem recognize?_append (h : text.toList = front ++ cs) :
    recognize? text (byteLength front) = (winner? catalog front.getLast? cs).map fun found =>
      (found.1, found.2, byteLength front + byteLength found.2.text) := by
  simp only [recognize?, h, placeAt?_append, Option.or_none, Option.bind_eq_bind, Option.bind_some]
  cases winner? catalog front.getLast? cs <;> rfl

theorem winner?_nil (before : Option Char) : winner? catalog before [] = none := by
  rw [Option.eq_none_iff_forall_ne_some]
  rintro ⟨rule, lexeme⟩ h
  obtain ⟨rest, hnil, hmatches⟩ := matches_of_winner? h
  exact hmatches.nonempty (List.append_eq_nil_iff.mp hnil.symm).1

theorem isValid_iff_append {offset : Nat} : String.Pos.Raw.IsValid text ⟨offset⟩ ↔
    ∃ front cs, text.toList = front ++ cs ∧ offset = byteLength front := by
  rw [String.Pos.Raw.isValid_iff_exists_append]
  constructor
  · rintro ⟨front, back, rfl, hoffset⟩
    exact ⟨front.toList, back.toList, String.toList_append, by
      rw [byteLength_toList]; exact congrArg String.Pos.Raw.byteIdx hoffset⟩
  · rintro ⟨front, cs, htext, rfl⟩
    refine ⟨String.ofList front, String.ofList cs, ?_, ?_⟩
    · rw [← String.ofList_append, ← htext, String.ofList_toList]
    · rw [String.Pos.Raw.ext_iff, String.byteIdx_rawEndPos, ← byteLength_toList,
        String.toList_ofList]

theorem recognize?_past_end {offset : Nat} (h : text.utf8ByteSize ≤ offset) :
    recognize? text offset = none := by
  rw [← byteLength_toList] at h
  rcases Nat.lt_or_eq_of_le h with hlt | rfl
  · simp [recognize?, placeAt?_of_length_lt hlt]
  · rw [recognize?_append (List.append_nil _).symm, winner?_nil]
    rfl

theorem end_of_recognize?_eq_none {offset : Nat}
    (hvalid : String.Pos.Raw.IsValid text ⟨offset⟩) (h : recognize? text offset = none) :
    text.utf8ByteSize ≤ offset := by
  obtain ⟨front, cs, htext, rfl⟩ := isValid_iff_append.mp hvalid
  rw [recognize?_append htext, Option.map_eq_none_iff] at h
  by_cases hcs : cs = []
  · rw [← byteLength_toList, htext, hcs, List.append_nil]
  · obtain ⟨rule, lexeme, hwinner⟩ := exists_winner? front.getLast? hcs
    rw [h] at hwinner
    cases hwinner

theorem Reading.loop (h : Reading before cs lexemes) (hbefore : before = front.getLast?)
    (htext : text.toList = front ++ cs) :
    Spanned.Loop text (byteLength front) (Spanned.along (byteLength front) lexemes) := by
  induction h generalizing front with
  | ended =>
    refine .ended ?_
    rw [← byteLength_toList, htext, List.append_nil]
  | @found before rest rule lexeme lexemes hwinner hrest ih =>
    subst hbefore
    have hfound : recognize? text (byteLength front) =
        some (rule, lexeme, byteLength front + byteLength lexeme.text) := by
      rw [recognize?_append htext, hwinner]
      rfl
    have hlater := @ih (front ++ lexeme.text) List.getLast?_append.symm (by simp [htext])
    rw [byteLength_append] at hlater
    exact .found hfound hlater

/-- The loop comes to one end only. -/
theorem Spanned.Loop.unique {offset : Nat} {spans others : List Spanned}
    (h : Loop text offset spans) (h' : Loop text offset others) : spans = others := by
  induction h generalizing others with
  | ended hend =>
    cases h' with
    | ended => rfl
    | found hfound => rw [recognize?_past_end hend] at hfound; cases hfound
  | found hfound hlater ih =>
    cases h' with
    | ended hend => rw [recognize?_past_end hend] at hfound; cases hfound
    | found hfound' hlater' =>
      rw [hfound] at hfound'
      cases hfound'
      rw [ih hlater']

theorem background_of_winner? {rules : List LexicalRule}
    (h : winner? rules before cs = some (rule, lexeme)) (htoken : lexeme.token = none) :
    rule = background ∧ ∃ c, lexeme = ⟨[c], none⟩ := by
  obtain ⟨rest, _, hmatches⟩ := matches_of_winner? h
  cases hmatches with
  | background => exact ⟨rfl, _, rfl⟩
  | _ => cases htoken

namespace Spanned

theorem le_start_of_mem_along {start : Nat} {s : Spanned} (h : s ∈ along start lexemes) :
    start ≤ s.start := by
  obtain ⟨_, _, _, _, _, hstart, _⟩ := exists_of_mem_along h
  rw [hstart]
  exact Nat.le_add_right _ _

theorem along_ordered (start : Nat) (lexemes : List Lexeme) :
    (along start lexemes).Pairwise fun s t => s.stop ≤ t.start := by
  induction lexemes generalizing start with
  | nil => exact .nil
  | cons lexeme lexemes ih =>
    rw [along]
    cases lexeme.token with
    | none => exact ih _
    | some token => exact .cons (fun t ht => le_start_of_mem_along ht) (ih _)

theorem mem_along {token : Token} (start : Nat) (earlier later : List Lexeme)
    (htoken : lexeme.token = some token) :
    let place := start + byteLength (earlier.flatMap Lexeme.text)
    ⟨place, place + byteLength lexeme.text, token⟩ ∈ along start (earlier ++ lexeme :: later) := by
  rw [along_append, along, htoken]
  exact List.mem_append_right _ (List.mem_append_left _ (List.mem_singleton_self _))

end Spanned

/-- Each character of a text is part of a lexeme. -/
theorem exists_lexeme_of_char {c : Char} (h : lexemes.flatMap Lexeme.text = front ++ c :: rest) :
    ∃ earlier lexeme later left right, lexemes = earlier ++ lexeme :: later ∧
      lexeme.text = left ++ c :: right ∧ front = earlier.flatMap Lexeme.text ++ left ∧
      rest = right ++ later.flatMap Lexeme.text := by
  induction lexemes generalizing front with
  | nil => simp at h
  | cons first lexemes ih =>
    rw [List.flatMap_cons] at h
    rcases List.append_eq_append_iff.mp h with ⟨more, rfl, hmore⟩ | ⟨more, hfirst, hmore⟩
    · obtain ⟨earlier, lexeme, later, left, right, rfl, htext, rfl, hrest⟩ := ih hmore
      exact ⟨first :: earlier, lexeme, later, left, right, rfl, htext, by simp, hrest⟩
    · cases more with
      | nil =>
        obtain ⟨earlier, lexeme, later, left, right, rfl, htext, hleft, hrest⟩ := @ih [] hmore.symm
        refine ⟨first :: earlier, lexeme, later, left, right, rfl, htext, ?_, hrest⟩
        rw [← List.append_nil front, hleft]
        simp [hfirst]
      | cons d more =>
        cases hmore
        exact ⟨[], first, lexemes, front, more, rfl, hfirst, rfl, rfl⟩

/-- At a character that is part of no token the catalog only finds that character. -/
theorem Reading.background_of_outside {c : Char} (h : Reading none text.toList lexemes)
    (htext : text.toList = front ++ c :: rest)
    (houtside : ∀ s ∈ Spanned.along 0 lexemes,
      ¬ (s.start ≤ byteLength front ∧ byteLength front < s.stop)) :
    winner? catalog front.getLast? (c :: rest) = some (background, ⟨[c], none⟩) := by
  obtain ⟨earlier, lexeme, later, left, right, rfl, hlexeme, rfl, rfl⟩ :=
    exists_lexeme_of_char (h.flatMap.trans htext)
  obtain ⟨rule, hwinner⟩ := h.winner
  cases htoken : lexeme.token with
  | some token =>
    -- the stretch of such a lexeme would hold the character
    have hpos := c.utf8Size_pos
    refine absurd ⟨?_, ?_⟩ (houtside _ (Spanned.mem_along 0 earlier later htoken))
    · simp
    · simp only [hlexeme, byteLength_append, byteLength_cons]
      omega
  | none =>
    obtain ⟨rfl, d, rfl⟩ := background_of_winner? hwinner htoken
    obtain ⟨rfl, hright⟩ : left = [] ∧ c :: right = [d] := by
      simpa using List.append_eq_singleton_iff.mp hlexeme.symm
    cases hright
    simpa using hwinner

/-- Between the tokens of a text there are single characters. -/
theorem Reading.single (h : Reading before cs lexemes) (hmem : lexeme ∈ lexemes)
    (htoken : lexeme.token = none) : ∃ c, lexeme.text = [c] := by
  obtain ⟨earlier, later, rfl⟩ := List.append_of_mem hmem
  obtain ⟨rule, hwinner⟩ := h.winner
  obtain ⟨_, c, rfl⟩ := background_of_winner? hwinner htoken
  exact ⟨c, rfl⟩

namespace Spanned

theorem recognize?_of_mem_ofText {s : Spanned} (h : s ∈ ofText text) : ∃ rule,
    recognize? text s.start = some (rule, ⟨(s.word text).toList, some s.token⟩, s.stop) := by
  obtain ⟨front, rule, lexeme, back, htext, hwinner, htoken, hstart, hstop⟩ :=
    exists_of_mem_ofText h
  refine ⟨rule, ?_⟩
  rw [word_of_append htext hstart hstop, String.toList_ofList, hstop, hstart,
    recognize?_append (htext.trans (List.append_assoc ..)), hwinner, ← htoken]
  rfl

theorem bounds_of_mem_ofText {s : Spanned} (h : s ∈ ofText text) :
    s.start < s.stop ∧ s.stop ≤ text.utf8ByteSize ∧ String.Pos.Raw.IsValid text ⟨s.start⟩ ∧
      String.Pos.Raw.IsValid text ⟨s.stop⟩ := by
  obtain ⟨front, rule, lexeme, back, htext, hwinner, htoken, hstart, hstop⟩ :=
    exists_of_mem_ofText h
  have hpos := byteLength_pos (nonempty_of_winner? hwinner)
  refine ⟨by omega, ?_, isValid_iff_append.mpr ⟨front, lexeme.text ++ back, ?_, hstart⟩,
    isValid_iff_append.mpr ⟨front ++ lexeme.text, back, htext, ?_⟩⟩
  · rw [← byteLength_toList, htext, byteLength_append, byteLength_append]
    omega
  · rw [htext, List.append_assoc]
  · rw [byteLength_append, hstop, hstart]

/-- The tokens of a text and the single characters between them make up the text. -/
theorem ofText_tiles (text : String) : Tiling text (ofText text) := by
  obtain ⟨lexemes, hreading⟩ := exists_reading none text.toList
  have hloop : Loop text 0 (ofText text) := by
    rw [hreading.ofText]
    exact @Reading.loop none _ [] _ _ hreading rfl rfl
  exact {
    terminates others := ⟨fun h => h.unique hloop, fun h => h ▸ hloop⟩
    nonempty s hs := (bounds_of_mem_ofText hs).1
    within s hs := (bounds_of_mem_ofText hs).2.1
    bounds s hs := (bounds_of_mem_ofText hs).2.2
    ordered := hreading.ofText ▸ along_ordered 0 lexemes
    recognized s hs := recognize?_of_mem_ofText hs
    ignored front rest c htext houtside := by
      rw [hreading.ofText] at houtside
      have hwinner := hreading.background_of_outside htext houtside
      refine ⟨fun rule hrule => ?_, ?_⟩
      · rw [findAt?_append htext, declines_of_background hwinner hrule]
      · rw [recognize?_append htext, hwinner]
        rfl
    complete := ⟨lexemes, hreading.flatMap, hreading.ofText.symm, fun _ hmem htoken =>
      hreading.single hmem htoken⟩
    total offset hoffset :=
      ⟨fun hnone => hoffset.elim (end_of_recognize?_eq_none · hnone) id, recognize?_past_end⟩
  }

end Spanned

end Dossier
