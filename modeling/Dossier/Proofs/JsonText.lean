import Std.Data.String.ToNat
import Dossier.Json
import Dossier.Proofs.LexemeForms
import Dossier.Proofs.Texts

namespace Dossier

open Lexeme

namespace Json

variable {depth : Nat} {rest rest' : List Char}

def hexValue (c : Char) : Nat :=
  if c.isDigit then c.toNat - '0'.toNat else c.toNat - 'a'.toNat + 10

theorem hexValue_digitChar : ∀ digit < 16, hexValue digit.digitChar = digit := by
  decide

/-- The character that the inside of a quoted text begins with, and the text behind it. At the
closing quote there is none. -/
def unescape? : List Char → Option (Char × List Char)
  | '\\' :: 'u' :: '0' :: '0' :: high :: low :: rest =>
    some (Char.ofNat (16 * hexValue high + hexValue low), rest)
  | '\\' :: 'b' :: rest => some ('\x08', rest)
  | '\\' :: 't' :: rest => some ('\x09', rest)
  | '\\' :: 'n' :: rest => some ('\x0a', rest)
  | '\\' :: 'f' :: rest => some ('\x0c', rest)
  | '\\' :: 'r' :: rest => some ('\x0d', rest)
  | '\\' :: c :: rest => some (c, rest)
  | '"' :: _ => none
  | c :: rest => some (c, rest)
  | [] => none

theorem unescape?_escape (c : Char) (rest : List Char) :
    unescape? (escape c ++ rest) = some (c, rest) := by
  fun_cases escape c with
  | case1 | case2 | case3 | case4 | case5 | case6 | case7 => subst_vars; rfl
  | case8 _ _ _ _ _ _ _ hlt =>
    -- Both digits are below 16, so they can be read back one by one.
    have hhigh := hexValue_digitChar (c.toNat / 16) (by omega)
    have hlow := hexValue_digitChar (c.toNat % 16) (by omega)
    have hvalue : 16 * (c.toNat / 16) + c.toNat % 16 = c.toNat := Nat.div_add_mod _ _
    simp only [List.cons_append, List.nil_append, unescape?, hhigh, hlow, hvalue, Char.ofNat_toNat]
  | case9 _ hbackslash => simp [unescape?, hbackslash]

/-- A quoted text shows where it ends. -/
theorem quote_append_inj {s s' : String}
    (h : (quote s).toList ++ rest = (quote s').toList ++ rest') : s = s' ∧ rest = rest' := by
  have hquote : ∀ (text : String) rest, (quote text).toList ++ rest =
      '"' :: (text.toList.flatMap escape ++ '"' :: rest) := by simp [quote]
  rw [hquote, hquote] at h
  obtain ⟨htext, hrest⟩ := flatMap_append_inj unescape?_escape rfl rfl (List.cons.inj h).2
  exact ⟨String.toList_inj.mp htext, (List.cons.inj hrest).2⟩

inductive Form where
  | null
  | number
  | text
  | list
  | record

def form : Json → Form
  | null => .null
  | number _ => .number
  | text _ => .text
  | list _ => .list
  | record _ => .record

/-- The form of the value that a text begins with. -/
def formOf? : List Char → Option Form
  | 'n' :: _ => some .null
  | '"' :: _ => some .text
  | '[' :: _ => some .list
  | '\x7b' :: _ => some .record
  | c :: _ => if c.isDigit then some .number else none
  | [] => none

theorem formOf?_digit {c : Char} (hc : c.isDigit = true) : formOf? (c :: rest) = some .number := by
  unfold formOf?
  split <;> simp_all

theorem formOf?_pretty (depth : Nat) (value : Json) (rest : List Char) :
    formOf? ((pretty depth value).toList ++ rest) = some value.form := by
  cases value with
  | null => simp [pretty, formOf?, form]
  | number n =>
    cases hrepr : n.repr.toList with
    | nil => exact absurd hrepr (isRun_repr n).nonempty
    | cons c cs =>
      have hc : c.isDigit = true := (isRun_repr n).all c (by simp [hrepr])
      rw [pretty, hrepr, List.cons_append, formOf?_digit hc, form]
  | text s => simp [pretty, quote, formOf?, form]
  | list items => cases items <;> simp [pretty, formOf?, form]
  | record fields => cases fields <;> simp [pretty, formOf?, form]

theorem form_of_pretty {value other : Json}
    (h : (pretty depth value).toList ++ rest = (pretty depth other).toList ++ rest') :
    value.form = other.form := by
  have hform : some value.form = some other.form := by
    rw [← formOf?_pretty depth value rest, h, formOf?_pretty]
  exact Option.some.inj hform

/-- No number goes on here. -/
def Ends (rest : List Char) : Prop := rest.head?.any Char.isDigit = false

/-- A text that begins with what is printed of this shows what it is and where it ends. -/
def Readable {α : Type} (print : α → List Char) (a : α) : Prop :=
  ∀ other rest rest', Ends rest → Ends rest' → print a ++ rest = print other ++ rest' →
    a = other ∧ rest = rest'

section Members

variable {α : Type} {opening closing : Char} {print : α → List Char} {items others : List α}

/-- The members after the first, each on a line, and the closing bracket. -/
def members (depth : Nat) (closing : Char) (print : α → List Char) : List α → List Char
  | [] => '\n' :: ((margin depth).toList ++ [closing])
  | item :: items =>
    ',' :: '\n' ::
      ((margin (depth + 1)).toList ++ (print item ++ members depth closing print items))

/-- Members between brackets. -/
def enclosed (depth : Nat) (opening closing : Char) (print : α → List Char) : List α → List Char
  | [] => [opening, closing]
  | item :: items =>
    opening :: '\n' ::
      ((margin (depth + 1)).toList ++ (print item ++ members depth closing print items))

theorem ends_members (items : List α) (rest : List Char) :
    Ends (members depth closing print items ++ rest) := by
  cases items <;> rfl

/-- A member and what stands behind it, be it further members or the bracket. -/
theorem member_append_inj {item other : α} (hitem : Readable print item)
    (h : (margin (depth + 1)).toList ++ (print item ++ members depth closing print items) ++ rest =
      (margin (depth + 1)).toList ++ (print other ++ members depth closing print others) ++ rest') :
    item = other ∧
      members depth closing print items ++ rest = members depth closing print others ++ rest' := by
  simp only [List.append_assoc] at h
  exact hitem other _ _ (ends_members items rest) (ends_members others rest')
    (List.append_cancel_left h)

theorem members_append_inj (hitems : ∀ item ∈ items, Readable print item)
    (h : members depth closing print items ++ rest =
      members depth closing print others ++ rest') : items = others ∧ rest = rest' := by
  induction items generalizing others with
  | nil =>
    cases others with
    | nil => exact ⟨rfl, List.append_cancel_left h⟩
    | cons other others => cases (List.cons.inj h).1
  | cons item items ih =>
    cases others with
    -- A comma is no line break, so a member stands against a member only.
    | nil => cases (List.cons.inj h).1
    | cons other others =>
      obtain ⟨rfl, hrest⟩ := member_append_inj (hitems item List.mem_cons_self)
        (List.cons.inj (List.cons.inj h).2).2
      obtain ⟨rfl, hends⟩ := ih (fun _ hmem => hitems _ (List.mem_cons_of_mem _ hmem)) hrest
      exact ⟨rfl, hends⟩

theorem enclosed_append_inj (hclosing : closing ≠ '\n')
    (hitems : ∀ item ∈ items, Readable print item)
    (h : enclosed depth opening closing print items ++ rest =
      enclosed depth opening closing print others ++ rest') : items = others ∧ rest = rest' := by
  cases items with
  | nil =>
    cases others with
    | nil => exact ⟨rfl, List.append_cancel_left h⟩
    | cons other others => exact absurd (List.cons.inj (List.cons.inj h).2).1 hclosing
  | cons item items =>
    cases others with
    | nil => exact absurd (List.cons.inj (List.cons.inj h).2).1.symm hclosing
    | cons other others =>
      obtain ⟨rfl, hrest⟩ := member_append_inj (hitems item List.mem_cons_self)
        (List.cons.inj (List.cons.inj h).2).2
      obtain ⟨rfl, hends⟩ :=
        members_append_inj (fun _ hmem => hitems _ (List.mem_cons_of_mem _ hmem)) hrest
      exact ⟨rfl, hends⟩

end Members

/-- The text of a value, character by character. -/
def chars (depth : Nat) (value : Json) : List Char := (pretty depth value).toList

def fieldChars (depth : Nat) (field : String × Json) : List Char := (prettyField depth field).toList

theorem toList_prettyItems (depth : Nat) (items : List Json) :
    (prettyItems depth items).toList = members depth ']' (chars (depth + 1)) items := by
  induction items with
  | nil => simp [prettyItems, members]
  | cons item items ih => simp [prettyItems, members, chars, ih]

theorem toList_prettyFields (depth : Nat) (fields : List (String × Json)) :
    (prettyFields depth fields).toList =
      members depth '\x7d' (fieldChars (depth + 1)) fields := by
  induction fields with
  | nil => simp [prettyFields, members]
  | cons field fields ih => simp [prettyFields, members, fieldChars, ih]

theorem chars_list (depth : Nat) (items : List Json) :
    chars depth (.list items) = enclosed depth '[' ']' (chars (depth + 1)) items := by
  cases items with
  | nil => simp [chars, pretty, enclosed]
  | cons item items => simp [chars, pretty, enclosed, toList_prettyItems]

theorem chars_record (depth : Nat) (fields : List (String × Json)) :
    chars depth (.record fields) =
      enclosed depth '\x7b' '\x7d' (fieldChars (depth + 1)) fields := by
  cases fields with
  | nil => simp [chars, pretty, enclosed]
  | cons field fields => simp [chars, fieldChars, pretty, enclosed, toList_prettyFields]

theorem null_readable (depth : Nat) : Readable (chars depth) null := by
  intro other rest rest' _ _ h
  cases other with
  | null => exact ⟨rfl, List.append_cancel_left h⟩
  | _ => cases form_of_pretty h

theorem number_readable (depth n : Nat) : Readable (chars depth) (number n) := by
  intro other rest rest' hends hends' h
  cases other with
  | number n' =>
    obtain ⟨hrepr, hrest⟩ :=
      (isRun_repr_of_stops n hends).unique (isRun_repr_of_stops n' hends') h
    rw [Nat.repr_inj.mp (String.toList_inj.mp hrepr)]
    exact ⟨rfl, hrest⟩
  | _ => cases form_of_pretty h

theorem text_readable (depth : Nat) (s : String) : Readable (chars depth) (text s) := by
  intro other rest rest' _ _ h
  cases other with
  | text s' =>
    obtain ⟨rfl, hrest⟩ := quote_append_inj h
    exact ⟨rfl, hrest⟩
  | _ => cases form_of_pretty h

theorem list_readable {items : List Json}
    (hitems : ∀ item ∈ items, Readable (chars (depth + 1)) item) :
    Readable (chars depth) (list items) := by
  intro other rest rest' _ _ h
  cases other with
  | list others =>
    rw [chars_list, chars_list] at h
    obtain ⟨rfl, hrest⟩ := enclosed_append_inj (by decide) hitems h
    exact ⟨rfl, hrest⟩
  | _ => cases form_of_pretty h

theorem record_readable {fields : List (String × Json)}
    (hfields : ∀ field ∈ fields, Readable (fieldChars (depth + 1)) field) :
    Readable (chars depth) (record fields) := by
  intro other rest rest' _ _ h
  cases other with
  | record others =>
    rw [chars_record, chars_record] at h
    obtain ⟨rfl, hrest⟩ := enclosed_append_inj (by decide) hfields h
    exact ⟨rfl, hrest⟩
  | _ => cases form_of_pretty h

theorem field_readable {key : String} {value : Json} (h : Readable (chars depth) value) :
    Readable (fieldChars depth) (key, value) := by
  have hfield : ∀ key value rest, fieldChars depth (key, value) ++ rest =
      (quote key).toList ++ ':' :: ' ' :: (chars depth value ++ rest) := by
    simp [fieldChars, chars, prettyField]
  intro (key', value') rest rest' hends hends' htext
  rw [hfield, hfield] at htext
  obtain ⟨rfl, hvalue⟩ := quote_append_inj htext
  obtain ⟨rfl, hrest⟩ := h value' rest rest' hends hends' (List.cons.inj (List.cons.inj hvalue).2).2
  exact ⟨rfl, hrest⟩

mutual

theorem readable : (value : Json) → (depth : Nat) → Readable (chars depth) value
  | .null, depth => null_readable depth
  | .number n, depth => number_readable depth n
  | .text s, depth => text_readable depth s
  | .list items, depth => list_readable (items_readable items (depth + 1))
  | .record fields, depth => record_readable (fields_readable fields (depth + 1))

theorem items_readable : (items : List Json) → (depth : Nat) →
    ∀ item ∈ items, Readable (chars depth) item
  | [], _ => by simp
  | item :: items, depth =>
    List.forall_mem_cons.mpr ⟨readable item depth, items_readable items depth⟩

theorem fields_readable : (fields : List (String × Json)) → (depth : Nat) →
    ∀ field ∈ fields, Readable (fieldChars depth) field
  | [], _ => by simp
  | (_, value) :: fields, depth =>
    List.forall_mem_cons.mpr ⟨field_readable (readable value depth), fields_readable fields depth⟩

end

/-- Different values have different texts. -/
theorem render_injective {value other : Json} (h : value.render = other.render) :
    value = other := by
  have happend : chars 0 value ++ [] = chars 0 other ++ [] :=
    congrArg (fun text => text.toList ++ []) h
  exact (readable value 0 other [] [] rfl rfl happend).1

end Json

end Dossier
