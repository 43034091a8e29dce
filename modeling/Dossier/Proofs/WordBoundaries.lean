import Dossier.Proofs.Numbers
import Dossier.Proofs.RuleOrder
import Dossier.Proofs.Tiling

namespace Dossier

/-- The rules for what stands alone. -/
def LexicalRule.IsPlain (rule : LexicalRule) : Prop := rule = loneLetter ∨ rule = numeral

namespace Spanned

variable (text : String)

/-- The token is one of the text, and this rule read it. -/
def ReadBy (rule : LexicalRule) (s : Spanned) : Prop :=
  s ∈ ofText text ∧ ∃ lexeme, LexicalRule.recognize? text s.start = some (rule, lexeme, s.stop)

/-- The character stands directly in front of the token. -/
def Follows (c : Char) (s : Spanned) : Prop :=
  ∃ front back, text.toList = front ++ c :: back ∧ s.start = byteLength front + c.utf8Size

/-- The character stands directly behind the token. -/
def Precedes (c : Char) (s : Spanned) : Prop :=
  ∃ front back, text.toList = front ++ c :: back ∧ s.stop = byteLength front

end Spanned

namespace Character

variable {ranges others : List Range} {n : Nat} {c : Char}

theorem within_dropWhile {first : Nat} (hn : first ≤ n) (h : within ranges n = true) :
    within (ranges.dropWhile fun range => range.2 < first) n = true := by
  induction ranges with
  | nil => cases h
  | cons range ranges ih =>
    rw [List.dropWhile_cons]
    split
    · next hlast =>
      have hlast := of_decide_eq_true hlast
      simp only [within, Bool.and_eq_true, Bool.or_eq_true, decide_eq_true_eq] at h
      exact ih (h.2.resolve_left (by omega))
    · exact h

/-- No range of the one table overlaps one of the other. Both are ascending, so each is gone
through once. -/
def apart : (ranges others : List Range) → Bool
  | [], _ => true
  | range :: ranges, others =>
    let later := others.dropWhile fun other => other.2 < range.1
    !later.head?.any (fun other => other.1 ≤ range.2) && apart ranges later

theorem not_within_of_apart (h : apart ranges others = true) (hn : within ranges n = true) :
    within others n = false := by
  by_contra hothers
  rw [Bool.not_eq_false] at hothers
  induction ranges generalizing others with
  | nil => cases hn
  | cons range ranges ih =>
    simp only [apart, Bool.and_eq_true, Bool.not_eq_true'] at h
    simp only [within, Bool.and_eq_true, Bool.or_eq_true, decide_eq_true_eq] at hn
    obtain ⟨hhead, hlater⟩ := h
    have hbehind := within_dropWhile hn.1 hothers
    rcases hn.2 with hlast | hn
    · -- the first range that is left begins behind `n`
      cases hothers : others.dropWhile fun other => other.2 < range.1 with
      | nil =>
        rw [hothers] at hbehind
        cases hbehind
      | cons other others =>
        rw [hothers] at hhead hbehind
        simp only [List.head?_cons, Option.any_some, decide_eq_false_iff_not] at hhead
        simp only [within, Bool.and_eq_true, decide_eq_true_eq] at hbehind
        omega
    · exact ih hlater hn hbehind

/-- The tables that loose characters are taken from. -/
def looseTables : List (List Range) := [mark, connectorPunctuation, joinControl]

/-- Marks, connectors and joiners are no numbers, nor are they among the signs that join. -/
theorem looseTables_apart : ∀ table ∈ looseTables,
    apart table decimalNumber = true ∧ apart table otherNumber = true ∧
      within table '-'.toNat = false ∧ within table '\x27'.toNat = false := by
  decide +kernel

theorem isLoose_iff_tables : isLoose c = true ↔
    (∃ table ∈ looseTables, within table c.toNat = true) ∧ within alphabetic c.toNat = false ∧
      c ≠ '_' ∧ within newest c.toNat = false := by
  simp [isLoose, looseTables, and_assoc, or_assoc]

/-- The loose characters of a word are those that do not join what follows to the word. -/
theorem isLoose_iff : isLoose c = true ↔ isWord c = true ∧ joins c = false := by
  rw [isLoose_iff_tables]
  constructor
  · rintro ⟨⟨table, hmem, htable⟩, halphabetic, hunderscore, hnewest⟩
    obtain ⟨hdecimal, hother, hhyphen, hquote⟩ := looseTables_apart table hmem
    have hne : ∀ d : Char, within table d.toNat = false → c ≠ d := by
      rintro d hd rfl
      rw [hd] at htable
      cases htable
    constructor
    · simp only [looseTables, List.mem_cons, List.not_mem_nil, or_false] at hmem
      rcases hmem with rfl | rfl | rfl <;> simp [isWord, htable, hnewest]
    · simp [joins, isAlphanumeric, halphabetic, not_within_of_apart hdecimal htable,
        not_within_of_apart hother htable, hunderscore, hne _ hhyphen, hne _ hquote]
  · rintro ⟨hword, hjoins⟩
    simp only [joins, isAlphanumeric, Bool.or_eq_false_iff, beq_eq_false_iff_ne] at hjoins
    obtain ⟨⟨⟨⟨⟨halphabetic, hdecimal⟩, _⟩, hunderscore⟩, _⟩, _⟩ := hjoins
    simp only [isWord, halphabetic, hdecimal, Bool.false_or, Bool.or_false, Bool.and_eq_true,
      Bool.or_eq_true, Bool.not_eq_true'] at hword
    refine ⟨?_, halphabetic, hunderscore, hword.2⟩
    rcases hword.1 with (hmark | hconnector) | hjoiner
    · exact ⟨_, .head _, hmark⟩
    · exact ⟨_, .tail _ (.head _), hconnector⟩
    · exact ⟨_, .tail _ (.tail _ (.head _)), hjoiner⟩

theorem not_isLoose_of_letter (h : 'b' ≤ c ∧ c ≤ 'z') : isLoose c = false := by
  have htable : ∀ n < 0x7B, 0x62 ≤ n → within alphabetic n = true := by decide +kernel
  have hlow : 0x62 ≤ c.toNat := h.1
  have hhigh : c.toNat ≤ 0x7A := h.2
  simp [isLoose, htable c.toNat (by omega) hlow]

theorem not_isLoose_of_isDigit (h : c.isDigit = true) : isLoose c = false := by
  by_contra hloose
  rw [Bool.not_eq_false] at hloose
  have hjoins := (isLoose_iff.mp hloose).2
  rw [joins_of_isDigit h] at hjoins
  cases hjoins

end Character

open LexicalRule Character

variable {text : String} {rule : LexicalRule} {before : Option Char}
  {cs rest front front' : List Char} {lexeme : Lexeme} {c : Char} {s : Spanned}

theorem openings_not_loose : ∀ rule ∈ catalog, ∀ o ∈ rule.openings,
    o.toList.head?.any isLoose = false := by
  decide +kernel

theorem LexicalRule.Opens.not_loose (h : rule.Opens (c :: rest)) : isLoose c = false := by
  rcases h.head with ⟨o, hmem, hhead⟩ | hletter | hdigit
  · have hloose := openings_not_loose rule (mem_catalog rule) o hmem
    rw [hhead] at hloose
    exact hloose
  · exact not_isLoose_of_letter hletter
  · exact not_isLoose_of_isDigit hdigit

theorem winner?_loose (before : Option Char) (rest : List Char) (h : isLoose c = true) :
    winner? catalog before (c :: rest) = some (background, ⟨[c], none⟩) := by
  refine winner?_of_not_opens fun rule hopens => ?_
  rw [hopens.not_loose] at h
  cases h

/-- A letter behind a loose character is read as if it stood alone. -/
theorem winner?_behind_loose (h : isLoose c = true) :
    winner? catalog (some c) ['x'] = some (loneLetter, ⟨['x'], some (.identifier "x")⟩) := by
  have hjoins := (isLoose_iff.mp h).2
  have hmatches : loneLetter.Matches (some c) ⟨['x'], some (.identifier "x")⟩ [] :=
    .loneLetter (by simp [Lexeme.startsWord, hjoins]) (by decide) rfl
  have hfind : loneLetter.find? (some c) ['x'] = some ⟨['x'], some (.identifier "x")⟩ :=
    find?_eq_some_iff.mpr ⟨[], rfl, hmatches⟩
  exact winner?_of_find? hfind (by simp) (by simp)

theorem reading_behind_loose (h : isLoose c = true) :
    Reading none [c, 'x'] [⟨[c], none⟩, ⟨['x'], some (.identifier "x")⟩] := by
  have hletter : Reading (some c) ['x'] [⟨['x'], some (.identifier "x")⟩] :=
    @Reading.found (some c) [] loneLetter ⟨['x'], _⟩ [] (winner?_behind_loose h) .ended
  exact @Reading.found none ['x'] background ⟨[c], none⟩ _ (winner?_loose none ['x'] h) hletter

/-- A place in a text is known by its offset. -/
theorem place_unique {cs' : List Char} (h : text.toList = front ++ cs)
    (h' : text.toList = front' ++ cs') (hoffset : byteLength front = byteLength front') :
    front.getLast? = front'.getLast? ∧ cs = cs' := by
  have hplace := placeAt?_append none front cs
  rw [← h, h', hoffset, placeAt?_append] at hplace
  simpa [eq_comm] using hplace

namespace Spanned

theorem ReadBy.exists_matches (h : s.ReadBy text rule) :
    ∃ front lexeme back, text.toList = front ++ lexeme.text ++ back ∧
      rule.Matches front.getLast? lexeme back ∧ s.start = byteLength front ∧
      s.stop = byteLength (front ++ lexeme.text) := by
  obtain ⟨hmem, found, hfound⟩ := h
  obtain ⟨front, rule', lexeme, back, htext, hwinner, _, hstart, hstop⟩ := exists_of_mem_ofText hmem
  rw [hstart, recognize?_append (htext.trans (List.append_assoc ..)), hwinner] at hfound
  obtain rfl : rule' = rule := congrArg Prod.fst (Option.some.inj hfound)
  obtain ⟨rest, hrest, hmatches⟩ := matches_of_winner? hwinner
  cases List.append_cancel_left hrest
  exact ⟨front, lexeme, back, htext, hmatches, hstart, by rw [hstop, hstart, byteLength_append]⟩

end Spanned

theorem LexicalRule.Matches.plain_ends (h : rule.Matches before lexeme rest)
    (hplain : rule.IsPlain) :
    Lexeme.startsWord before = true ∧ Lexeme.endsWord rest = true := by
  cases h with
  | loneLetter hbefore hletter hafter => exact ⟨hbefore, hafter⟩
  | numeral hbefore hrun hafter hn => exact ⟨hbefore, hafter⟩
  | wording hmem => rcases hplain with rfl | rfl <;> cases hmem
  | _ => rcases hplain with hplain | hplain <;> cases hplain

namespace Spanned

theorem Follows.getLast? (h : s.Follows text c) (htext : text.toList = front ++ cs)
    (hstart : s.start = byteLength front) : front.getLast? = some c := by
  obtain ⟨front', back, htext', hstart'⟩ := h
  have hoffset : byteLength front = byteLength (front' ++ [c]) := by
    rw [← hstart, hstart', byteLength_append, byteLength_cons, byteLength_nil, Nat.add_zero]
  have htext' : text.toList = (front' ++ [c]) ++ back := by simp [htext']
  rw [(place_unique htext htext' hoffset).1, List.getLast?_concat]

theorem Precedes.head? (h : s.Precedes text c) (htext : text.toList = front ++ cs)
    (hstop : s.stop = byteLength front) : cs.head? = some c := by
  obtain ⟨front', back, htext', hstop'⟩ := h
  rw [(place_unique htext htext' (hstop.symm.trans hstop')).2, List.head?_cons]

theorem ReadBy.neighbours (h : s.ReadBy text rule) (hplain : rule.IsPlain) :
    (∀ c, s.Follows text c → joins c = false) ∧ ∀ c, s.Precedes text c → isWord c = false := by
  obtain ⟨front, lexeme, back, htext, hmatches, hstart, hstop⟩ := h.exists_matches
  obtain ⟨hbefore, hafter⟩ := hmatches.plain_ends hplain
  constructor
  · intro c hfollows
    rw [hfollows.getLast? (htext.trans (List.append_assoc ..)) hstart] at hbefore
    simpa [Lexeme.startsWord] using hbefore
  · intro c hprecedes
    simpa [Lexeme.endsWord, hprecedes.head? htext hstop] using hafter

theorem exists_behind_loose (h : isLoose c = true) :
    ∃ s, ReadBy (String.ofList [c, 'x']) loneLetter s ∧ s.Follows (String.ofList [c, 'x']) c := by
  have htext : (String.ofList [c, 'x']).toList = [c] ++ ['x'] := String.toList_ofList
  have hreading := reading_behind_loose h
  rw [← String.toList_ofList (l := [c, 'x'])] at hreading
  refine ⟨⟨byteLength [c], byteLength [c] + byteLength ['x'], .identifier "x"⟩, ⟨?_, ?_⟩,
    [], ['x'], htext, ?_⟩
  · rw [hreading.ofText]
    simp [along]
  · rw [recognize?_append htext, List.getLast?_singleton, winner?_behind_loose h]
    exact ⟨_, rfl⟩
  · simp

/-- No character of a word stands directly behind a letter or number that stands alone. Directly in
front of it there is one just when it is a loose one, and every loose character can stand there. -/
theorem plain_neighbours (text : String) (c : Char) :
    (∀ rule s, rule.IsPlain → ReadBy text rule s →
      (s.Precedes text c → isWord c = false) ∧
        (s.Follows text c → (isWord c = false ↔ isLoose c = false))) ∧
      (isLoose c = true → isWord c = true ∧
        ∃ s, ReadBy (String.ofList [c, 'x']) loneLetter s ∧
          s.Follows (String.ofList [c, 'x']) c) := by
  refine ⟨fun rule s hplain hread => ?_, fun hloose =>
    ⟨(isLoose_iff.mp hloose).1, exists_behind_loose hloose⟩⟩
  obtain ⟨hfront, hbehind⟩ := hread.neighbours hplain
  refine ⟨hbehind c, fun hfollows => ?_⟩
  have hiff : isLoose c = true ↔ isWord c = true := by
    simp [isLoose_iff, hfront c hfollows]
  rw [Bool.eq_false_iff, Bool.eq_false_iff, Ne, Ne, hiff]

/-- A number in parentheses, and a letter behind an acute accent. -/
theorem plain_neighbours_of_numeral :
    (ReadBy "cost(12)" numeral ⟨5, 7, .constant 12⟩ ∧
        Follows "cost(12)" '(' ⟨5, 7, .constant 12⟩ ∧
        Precedes "cost(12)" ')' ⟨5, 7, .constant 12⟩) ∧
      (isWord '(' = false ↔ isLoose '(' = false) ∧ isWord ')' = false ∧
      isLoose '\u0301' = true ∧ isWord '\u0301' = true := by
  have hread : ReadBy "cost(12)" numeral ⟨5, 7, .constant 12⟩ :=
    ⟨by decide +kernel, ⟨['1', '2'], some (.constant 12)⟩, by decide +kernel⟩
  have hfollows : Follows "cost(12)" '(' ⟨5, 7, .constant 12⟩ :=
    ⟨"cost".toList, "12)".toList, by decide, by decide⟩
  have hprecedes : Precedes "cost(12)" ')' ⟨5, 7, .constant 12⟩ :=
    ⟨"cost(12".toList, [], by decide, by decide⟩
  have hloose : isLoose '\u0301' = true := by decide +kernel
  have hfront := ((plain_neighbours "cost(12)" '(').1 _ _ (.inr rfl) hread).2 hfollows
  have hbehind := ((plain_neighbours "cost(12)" ')').1 _ _ (.inr rfl) hread).1 hprecedes
  exact ⟨⟨hread, hfollows, hprecedes⟩, hfront, hbehind, hloose,
    ((plain_neighbours "" '\u0301').2 hloose).1⟩

/-- A word may go on behind a loose character: the last letter of `cafés`, with the accent as a
character of its own, is read as a variable. -/
theorem plain_neighbours_not_all :
    ¬ ∀ text rule s, rule.IsPlain → ReadBy text rule s →
      (∀ c, s.Follows text c → isWord c = false) ∧ ∀ c, s.Precedes text c → isWord c = false := by
  intro h
  have hread : ReadBy "cafe\u0301s" loneLetter ⟨6, 7, .identifier "s"⟩ :=
    ⟨by decide +kernel, ⟨['s'], some (.identifier "s")⟩, by decide +kernel⟩
  have hfollows : Follows "cafe\u0301s" '\u0301' ⟨6, 7, .identifier "s"⟩ :=
    ⟨['c', 'a', 'f', 'e'], ['s'], by decide, by decide⟩
  have hword : isWord '\u0301' = true := by decide +kernel
  rw [(h _ _ _ (.inl rfl) hread).1 _ hfollows] at hword
  cases hword

end Spanned

end Dossier
