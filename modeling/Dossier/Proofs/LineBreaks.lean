import Dossier.Proofs.Reading

namespace Dossier

open LexicalRule

variable {before : Option Char} {cs ds : List Char} {lexemes others : List Lexeme}

theorem Reading.append_break (h : Reading before cs lexemes) (hbehind : Reading none ds others) :
    Reading before (cs ++ '\n' :: ds) (lexemes ++ ⟨['\n'], none⟩ :: others) := by
  induction h with
  | @ended before =>
    have hbegin : Reading (some '\n') ds others :=
      hbehind.of_startsWord Lexeme.startsWord_break.symm
    exact @Reading.found before ds _ ⟨['\n'], none⟩ others winner?_break hbegin
  | @found before rest rule lexeme _ hwinner hrest ih =>
    have hne : lexeme.text ++ rest ≠ [] := by simp [nonempty_of_winner? hwinner]
    have hsame : winner? catalog before (lexeme.text ++ (rest ++ '\n' :: ds)) =
        some (rule, lexeme) := by
      rw [← List.append_assoc, winner?_append_break hne, hwinner]
    rw [List.append_assoc]
    exact .found hsame ih

namespace Spanned

theorem along_append (start : Nat) (lexemes others : List Lexeme) :
    along start (lexemes ++ others) =
      along start lexemes ++ along (start + byteLength (lexemes.flatMap Lexeme.text)) others := by
  induction lexemes generalizing start with
  | nil => simp [along]
  | cons lexeme lexemes ih => simp [along, ih, Nat.add_assoc]

theorem along_shift (bytes start : Nat) (lexemes : List Lexeme) :
    along (bytes + start) lexemes = (along start lexemes).map (shift bytes) := by
  induction lexemes generalizing start with
  | nil => rfl
  | cons lexeme lexemes ih =>
    rw [along, along, Nat.add_assoc, ih, List.map_append, List.map_map]
    rfl

/-- Where a text begins only moves its tokens. -/
theorem scan_eq_shift (before : Option Char) (start : Nat) (cs : List Char) :
    scan catalog before start cs = (scan catalog before 0 cs).map (shift start) := by
  obtain ⟨lexemes, h⟩ := exists_reading before cs
  rw [h.scan, h.scan, ← along_shift, Nat.add_zero]

theorem scan_append_break (before : Option Char) (start : Nat) (cs ds : List Char) :
    scan catalog before start (cs ++ '\n' :: ds) =
      scan catalog before start cs ++
        (scan catalog none 0 ds).map (shift (start + byteLength cs + 1)) := by
  obtain ⟨lexemes, h⟩ := exists_reading before cs
  obtain ⟨others, hbehind⟩ := exists_reading none ds
  rw [(h.append_break hbehind).scan, h.scan, ← scan_eq_shift, hbehind.scan, along_append, h.flatMap]
  rfl

theorem toList_two_lines (a b : String) :
    (a ++ "\n" ++ b).toList = a.toList ++ '\n' :: b.toList := by
  simp

/-- A text of two lines has the tokens of its lines, those of the second line at their places behind
the first line and the break. -/
theorem ofText_append_break (a b : String) :
    ofText (a ++ "\n" ++ b) = ofText a ++ (ofText b).map (shift (a.utf8ByteSize + 1)) := by
  rw [ofText, toList_two_lines, scan_append_break, byteLength_toList, Nat.zero_add]
  rfl

end Spanned

namespace Token

theorem ofText_two_lines (a b : String) : ofText (a ++ "\n" ++ b) = ofText a ++ ofText b := by
  rw [ofText, Spanned.ofText, Spanned.toList_two_lines, Spanned.scan_append_break, List.map_append,
    List.map_map]
  rfl

/-- Texts on lines of their own are read one by one. -/
theorem ofText_intercalate (texts : List String) :
    ofText ("\n".intercalate texts) = texts.flatMap ofText := by
  induction texts with
  | nil => simp [ofText, Spanned.ofText, Spanned.scan]
  | cons text texts ih =>
    cases texts with
    | nil => simp
    | cons next texts =>
      rw [String.intercalate_cons_cons, ofText_two_lines, ih, ← List.flatMap_cons]

end Token

end Dossier
