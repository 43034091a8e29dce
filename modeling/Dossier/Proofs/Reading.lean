import Mathlib.Data.String.Basic
import Dossier.Lexeme.Tiling
import Dossier.Proofs.LexemePlaces

namespace Dossier

open LexicalRule

@[simp] theorem byteLength_nil : byteLength [] = 0 := rfl

@[simp] theorem byteLength_cons (c : Char) (cs : List Char) :
    byteLength (c :: cs) = c.utf8Size + byteLength cs := rfl

@[simp] theorem byteLength_append (cs ds : List Char) :
    byteLength (cs ++ ds) = byteLength cs + byteLength ds := by
  induction cs with
  | nil => simp
  | cons c cs ih => simp [ih, Nat.add_assoc]

theorem byteLength_pos {cs : List Char} (h : cs ≠ []) : 0 < byteLength cs := by
  cases cs with
  | nil => exact absurd rfl h
  | cons c cs => exact Nat.add_pos_left c.utf8Size_pos _

theorem utf8Len_eq_byteLength (cs : List Char) : String.utf8Len cs = byteLength cs := by
  induction cs with
  | nil => rfl
  | cons c cs ih => rw [String.utf8Len_cons, byteLength_cons, ih, Nat.add_comm]

theorem byteLength_toList (text : String) : byteLength text.toList = text.utf8ByteSize := by
  rw [← utf8Len_eq_byteLength, ← String.utf8ByteSize_ofList, String.ofList_toList]

/-- The lexemes of a text that follows `before`, each one found where the one before it ends. -/
inductive Reading : (before : Option Char) → List Char → List Lexeme → Prop
  | ended {before : Option Char} : Reading before [] []
  | found {before : Option Char} {rest : List Char} {rule : LexicalRule} {lexeme : Lexeme}
      {lexemes : List Lexeme}
      (hwinner : winner? catalog before (lexeme.text ++ rest) = some (rule, lexeme))
      (hrest : Reading (lexeme.text.getLast?.or before) rest lexemes) :
      Reading before (lexeme.text ++ rest) (lexeme :: lexemes)

variable {before before' : Option Char} {cs rest : List Char} {rule : LexicalRule}
  {lexeme : Lexeme} {lexemes : List Lexeme}

theorem matches_of_winner? {rules : List LexicalRule}
    (h : winner? rules before cs = some (rule, lexeme)) :
    ∃ rest, cs = lexeme.text ++ rest ∧ rule.Matches before lexeme rest :=
  find?_eq_some_iff.mp (find?_of_winner? h)

theorem nonempty_of_winner? {rules : List LexicalRule}
    (h : winner? rules before cs = some (rule, lexeme)) : lexeme.text ≠ [] := by
  obtain ⟨_, _, hmatches⟩ := matches_of_winner? h
  exact hmatches.nonempty

theorem exists_reading (before : Option Char) (cs : List Char) :
    ∃ lexemes, Reading before cs lexemes := by
  by_cases hcs : cs = []
  · exact ⟨[], hcs ▸ .ended⟩
  · obtain ⟨rule, lexeme, hwinner⟩ := exists_winner? before hcs
    obtain ⟨rest, rfl, hmatches⟩ := matches_of_winner? hwinner
    have hlt : rest.length < (lexeme.text ++ rest).length := by
      have hpos := List.length_pos_iff.mpr hmatches.nonempty
      simp only [List.length_append]
      omega
    obtain ⟨lexemes, hrest⟩ := exists_reading (lexeme.text.getLast?.or before) rest
    exact ⟨lexeme :: lexemes, .found hwinner hrest⟩
termination_by cs.length

/-- Scanning goes on behind the lexeme that the winner covers. -/
theorem scan_found {rules : List LexicalRule}
    (hwinner : winner? rules before (lexeme.text ++ rest) = some (rule, lexeme)) (start : Nat) :
    Spanned.scan rules before start (lexeme.text ++ rest) =
      lexeme.token.toList.map (⟨start, start + byteLength lexeme.text, ·⟩) ++
        Spanned.scan rules (lexeme.text.getLast?.or before) (start + byteLength lexeme.text)
          rest := by
  cases htext : lexeme.text with
  | nil => exact absurd htext (nonempty_of_winner? hwinner)
  | cons c cs =>
    rw [htext, List.cons_append] at hwinner
    rw [List.cons_append, Spanned.scan, hwinner]
    simp only [htext, List.length_cons, Nat.add_sub_cancel, List.drop_left]
    cases lexeme.token <;> rfl

theorem Reading.scan (h : Reading before cs lexemes) (start : Nat) :
    Spanned.scan catalog before start cs = Spanned.along start lexemes := by
  induction h generalizing start with
  | ended => rw [Spanned.scan, Spanned.along]
  | found hwinner hrest ih => rw [scan_found hwinner, ih, Spanned.along]

/-- The tokens of a text are those of its reading. -/
theorem Reading.ofText {text : String} (h : Reading none text.toList lexemes) :
    Spanned.ofText text = Spanned.along 0 lexemes :=
  h.scan 0

theorem Reading.flatMap (h : Reading before cs lexemes) : lexemes.flatMap Lexeme.text = cs := by
  induction h with
  | ended => rfl
  | found hwinner hrest ih => rw [List.flatMap_cons, ih]

/-- At the beginning of a line a text is read as if nothing stood before it. -/
theorem Reading.of_startsWord (h : Reading before cs lexemes)
    (hbefore : Lexeme.startsWord before = Lexeme.startsWord before') :
    Reading before' cs lexemes := by
  cases h with
  | ended => exact .ended
  | @found _ _ _ lexeme _ hwinner hrest =>
    have hlast : lexeme.text.getLast?.or before = lexeme.text.getLast?.or before' := by
      rw [List.getLast?_eq_some_getLast (nonempty_of_winner? hwinner)]
      rfl
    rw [winner?_of_startsWord hbefore] at hwinner
    exact .found hwinner (hlast ▸ hrest)

/-- Each lexeme of a reading is what wins at its place. -/
theorem Reading.winner {earlier later : List Lexeme}
    (h : Reading before cs (earlier ++ lexeme :: later)) :
    ∃ rule, winner? catalog ((earlier.flatMap Lexeme.text).getLast?.or before)
      (lexeme.text ++ later.flatMap Lexeme.text) = some (rule, lexeme) := by
  induction earlier generalizing before cs with
  | nil =>
    cases h with
    | found hwinner hrest => exact ⟨_, hrest.flatMap ▸ hwinner⟩
  | cons first earlier ih =>
    cases h with
    | found hwinner hrest =>
      obtain ⟨rule, hrule⟩ := ih hrest
      refine ⟨rule, ?_⟩
      rwa [List.flatMap_cons, List.getLast?_append, Option.or_assoc]

namespace Spanned

/-- The tokens along a row of lexemes come from its members. -/
theorem exists_of_mem_along {start : Nat} {s : Spanned} (h : s ∈ along start lexemes) :
    ∃ earlier lexeme later, lexemes = earlier ++ lexeme :: later ∧
      lexeme.token = some s.token ∧ s.start = start + byteLength (earlier.flatMap Lexeme.text) ∧
      s.stop = s.start + byteLength lexeme.text := by
  induction lexemes generalizing start with
  | nil => cases h
  | cons first lexemes ih =>
    rcases List.mem_append.mp h with h | h
    · obtain ⟨token, htoken, rfl⟩ := List.mem_map.mp h
      exact ⟨[], first, lexemes, rfl, Option.mem_toList.mp htoken, rfl, rfl⟩
    · obtain ⟨earlier, lexeme, later, rfl, htoken, hstart, hstop⟩ := ih h
      exact ⟨first :: earlier, lexeme, later, rfl, htoken, by simp [hstart, Nat.add_assoc], hstop⟩

/-- What stands between two stretches of text is what is cut out between their offsets. -/
theorem word_of_append {text : String} {front middle back : List Char} {s : Spanned}
    (htext : text.toList = front ++ middle ++ back) (hstart : s.start = byteLength front)
    (hstop : s.stop = s.start + byteLength middle) : s.word text = String.ofList middle := by
  have hcut := String.extract_of_valid front middle back
  rw [utf8Len_eq_byteLength, utf8Len_eq_byteLength, ← htext, String.ofList_toList] at hcut
  rw [word, hstop, hstart, hcut]

/-- Each token of a text is what the winner makes of the text at its place. -/
theorem exists_of_mem_ofText {text : String} {s : Spanned} (h : s ∈ ofText text) :
    ∃ front rule lexeme back, text.toList = front ++ lexeme.text ++ back ∧
      winner? catalog front.getLast? (lexeme.text ++ back) = some (rule, lexeme) ∧
      lexeme.token = some s.token ∧ s.start = byteLength front ∧
      s.stop = s.start + byteLength lexeme.text := by
  obtain ⟨lexemes, hreading⟩ := exists_reading none text.toList
  rw [hreading.ofText] at h
  obtain ⟨earlier, lexeme, later, rfl, htoken, hstart, hstop⟩ := exists_of_mem_along h
  obtain ⟨rule, hwinner⟩ := hreading.winner
  rw [Option.or_none] at hwinner
  refine ⟨_, rule, lexeme, _, ?_, hwinner, htoken, by rw [hstart, Nat.zero_add], hstop⟩
  simp [← hreading.flatMap]

end Spanned

end Dossier
