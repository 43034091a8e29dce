import Mathlib.Data.List.Forall2
import Dossier.Proofs.Kinds
import Dossier.Proofs.NodeLabels
import Dossier.Proofs.Spelling
import Dossier.Proofs.Texts

namespace Dossier

open Lexeme

/-- The words that a description begins with. Where a kind carries nothing they are all of it. -/
def Kind.opening : Kind → String
  | itemNumber => "item number "
  | objectClass => "object class "
  | addendum => "addendum "
  | identifier => "identifier '"
  | verb => "verb '"
  | constant => "constant "
  | kind => (kind.token?.map Token.describe).getD ""

theorem Kind.openings_prefixFree : PrefixFree (all.map fun kind => (kind.opening, kind)) := by
  decide +kernel

theorem Verb.word_injective {v other : Verb} (h : v.word = other.word) : v = other := by
  revert h
  cases v <;> cases other <;> decide

namespace Token

variable {t u : Token}

theorem describe_addendum (number : Nat) (letter : Option Char) :
    (addendum number letter).describe.toList =
      "addendum ".toList ++ (number.repr.toList ++ Label.ending letter) := by
  cases letter <;> simp [describe, Label.ending]

theorem exists_opening (t : Token) :
    ∃ rest, t.describe.toList = t.kind.opening.toList ++ rest := by
  cases t with
  | itemNumber number => exact ⟨number.repr.toList, by simp [describe, kind, Kind.opening]⟩
  | objectClass c => exact ⟨c.name.toList, by simp [describe, kind, Kind.opening]⟩
  | addendum number letter => exact ⟨_, describe_addendum number letter⟩
  | identifier name => exact ⟨name.toList ++ ['\x27'], by simp [describe, kind, Kind.opening]⟩
  | verb v => exact ⟨v.word.toList ++ ['\x27'], by simp [describe, kind, Kind.opening]⟩
  | constant value => exact ⟨value.repr.toList, by simp [describe, kind, Kind.opening]⟩
  | _ => exact ⟨[], (List.append_nil _).symm⟩

theorem kind_of_describe (h : t.describe = u.describe) : t.kind = u.kind := by
  -- Names may hold anything, quotes too: only the openings are known to differ.
  obtain ⟨rest, hrest⟩ := exists_opening t
  obtain ⟨rest', hrest'⟩ := exists_opening u
  have hmem : ∀ kind : Kind, (kind.opening, kind) ∈ Kind.all.map fun kind => (kind.opening, kind) :=
    fun kind => List.mem_map.mpr ⟨kind, kind.mem_all, rfl⟩
  have heq : t.kind.opening.toList ++ rest = u.kind.opening.toList ++ rest' := by
    rw [← hrest, ← hrest', h]
  exact congrArg Prod.snd (Kind.openings_prefixFree.eq_of_append (hmem _) (hmem _) heq)

/-- A description can be read in one way, whatever the names and letters in it are. -/
theorem describe_injective (h : t.describe = u.describe) : t = u := by
  cases sameKind_of_kind (kind_of_describe h) with
  | itemNumber number other =>
    obtain rfl : number = other := Nat.repr_inj.mp (by simpa [describe] using h)
    rfl
  | objectClass c other =>
    obtain rfl : c = other := ObjectClass.name_injective (by simpa [describe] using h)
    rfl
  | addendum number other letter letter' =>
    have hlist : (addendum number letter).describe.toList =
        (addendum other letter').describe.toList := congrArg String.toList h
    rw [describe_addendum, describe_addendum] at hlist
    obtain ⟨hnumber, hletter⟩ := (Label.isRun_number number letter).unique
      (Label.isRun_number other letter') (List.append_cancel_left hlist)
    rw [Nat.repr_inj.mp (String.toList_inj.mp hnumber), Label.ending_injective hletter]
  | identifier name other =>
    obtain rfl : name = other := by simpa [describe] using h
    rfl
  | verb v other =>
    obtain rfl : v = other := Verb.word_injective (by simpa [describe] using h)
    rfl
  | constant value other =>
    obtain rfl : value = other := Nat.repr_inj.mp (by simpa [describe] using h)
    rfl
  | fixed => rfl

theorem not_mem_toDigits (number : Nat) {c : Char} (hc : c.isDigit = false) :
    c ∉ Nat.toDigits 10 number := by
  rw [← Nat.toList_repr]
  exact (isRun_repr number).not_mem hc

theorem number_no_break (number : Nat) : '\n' ∉ Nat.toDigits 10 number :=
  not_mem_toDigits number rfl

theorem name_no_break {name : String} (h : IsName name ∨ IsReference name) :
    '\n' ∉ name.toList := by
  rcases h with ⟨_, hall⟩ | ⟨digits, parts, hdigits, hparts, hname⟩
  · intro hmem
    cases hall _ hmem
  · have hno : ∀ digits, IsDigits digits → '\n' ∉ digits := by
      intro digits hdigits hmem
      cases hdigits.2 _ hmem
    rw [hname]
    simp [hno digits hdigits, hno parts hparts]

/-- What a text can hold is described on one line. -/
theorem Lexable.describe_no_break (h : t.Lexable) : '\n' ∉ t.describe.toList := by
  cases t with
  | itemNumber number => simp [describe, number_no_break]
  | objectClass c => cases c <;> decide
  | addendum number letter =>
    rw [describe_addendum]
    cases letter with
    | none => simp [Label.ending, number_no_break]
    | some c =>
      have hc : '\n' ≠ c := by
        rintro rfl
        cases h.2 _ rfl
      simp [Label.ending, number_no_break, hc]
  | identifier name => simp [describe, name_no_break h]
  | verb v => cases v <;> decide
  | constant value => simp [describe, number_no_break]
  | _ => decide

end Token

namespace Spanned

variable {s s' : Spanned} {text : String}

theorem lexable_of_mem (h : s ∈ ofText text) : s.token.Lexable := by
  obtain ⟨front, rule, lexeme, back, _, hwinner, htoken, _⟩ := exists_of_mem_ofText h
  obtain ⟨rest, _, hmatches⟩ := matches_of_winner? hwinner
  exact hmatches.lexable htoken

/-- The offsets of a token, as its line has them in front. -/
def offsets (s : Spanned) : String := s.start.repr ++ ".." ++ s.stop.repr ++ " "

theorem describe_eq (s : Spanned) : s.describe = s.offsets ++ s.token.describe := rfl

theorem toList_describe (s : Spanned) : s.describe.toList =
    s.start.repr.toList ++
      '.' :: '.' :: (s.stop.repr.toList ++ ' ' :: s.token.describe.toList) := by
  simp [describe]

theorem describe_injective (h : s.describe = s'.describe) : s = s' := by
  have hlist : s.describe.toList = s'.describe.toList := congrArg String.toList h
  rw [toList_describe, toList_describe] at hlist
  -- The digits of a number end where no digit follows: at the dots, and at the blank.
  obtain ⟨hstart, hbehind⟩ := (isRun_repr_of_stops s.start rfl).unique
    (isRun_repr_of_stops s'.start rfl) hlist
  obtain ⟨hstop, htoken⟩ := (isRun_repr_of_stops s.stop rfl).unique
    (isRun_repr_of_stops s'.stop rfl) (List.cons.inj (List.cons.inj hbehind).2).2
  obtain ⟨start, stop, token⟩ := s
  obtain ⟨start', stop', token'⟩ := s'
  obtain rfl : start = start' := Nat.repr_inj.mp (String.toList_inj.mp hstart)
  obtain rfl : stop = stop' := Nat.repr_inj.mp (String.toList_inj.mp hstop)
  obtain rfl : token = token' :=
    Token.describe_injective (String.toList_inj.mp (List.cons.inj htoken).2)
  rfl

theorem offsets_no_break (s : Spanned) : '\n' ∉ s.offsets.toList := by
  simp [offsets, Token.number_no_break]

theorem describe_no_break (h : s ∈ ofText text) : '\n' ∉ s.describe.toList := by
  rw [describe_eq, String.toList_append, List.mem_append, not_or]
  exact ⟨s.offsets_no_break, (lexable_of_mem h).describe_no_break⟩

end Spanned

namespace Dump

/-- What stands behind the first blank of a line. -/
def behindBlank (line : List Char) : List Char := (line.dropWhile (· ≠ ' ')).drop 1

theorem behindBlank_offsets (s : Spanned) (rest : List Char) :
    behindBlank (s.offsets.toList ++ rest) = rest := by
  have hblank : ∀ number, ' ' ∉ Nat.toDigits 10 number :=
    fun number => Token.not_mem_toDigits number rfl
  have hno : ∀ c ∈ (s.start.repr ++ ".." ++ s.stop.repr).toList, (c ≠ ' ' : Bool) = true := by
    intro c hc
    apply decide_eq_true
    rintro rfl
    simp [hblank] at hc
  have hsplit : s.offsets.toList ++ rest =
      (s.start.repr ++ ".." ++ s.stop.repr).toList ++ ' ' :: rest := by simp [Spanned.offsets]
  rw [hsplit, behindBlank, List.dropWhile_append_of_pos hno]
  rfl

theorem behindBlank_describe (s : Spanned) :
    behindBlank s.describe.toList = s.token.describe.toList := by
  rw [Spanned.describe_eq, String.toList_append, behindBlank_offsets]

theorem token_lines_no_break (text : String) :
    ∀ line ∈ (Token.ofText text).map Token.describe, '\n' ∉ line.toList := by
  intro line hline
  obtain ⟨t, ht, rfl⟩ := List.mem_map.mp hline
  obtain ⟨s, hs, rfl⟩ := List.mem_map.mp ht
  exact (Spanned.lexable_of_mem hs).describe_no_break

theorem spanned_lines_no_break (text : String) :
    ∀ line ∈ (Spanned.ofText text).map Spanned.describe, '\n' ∉ line.toList := by
  intro line hline
  obtain ⟨s, hs, rfl⟩ := List.mem_map.mp hline
  exact Spanned.describe_no_break hs

theorem splitOn_spanned (text : String) : (ofSpanned (Spanned.ofText text)).toList.splitOn '\n' =
    ((Spanned.ofText text).map fun s => s.describe.toList) ++ [[]] := by
  rw [ofSpanned, lines, splitOn_lines (spanned_lines_no_break text), List.map_map]
  rfl

theorem splitOn_tokens (text : String) :
    (lines ((Token.ofText text).map Token.describe)).toList.splitOn '\n' =
      ((Spanned.ofText text).map fun s => s.token.describe.toList) ++ [[]] := by
  rw [lines, splitOn_lines (token_lines_no_break text), Token.ofText, List.map_map, List.map_map]
  rfl

/-- The plain dumps of a text lose nothing of its tokens: texts with the same list of tokens have
the same tokens, and if the offsets are listed too then these are the same as well. The list with
offsets has one line for each token, with the offsets of that token in front; without them its lines
are those of the plain list. -/
theorem plain_dumps_of_text :
    (∀ text other, ofText ⟨.tokens, .simple⟩ text = ofText ⟨.tokens, .simple⟩ other ↔
      Token.ofText text = Token.ofText other) ∧
    (∀ text other, ofText ⟨.tokens, .rawSimple⟩ text = ofText ⟨.tokens, .rawSimple⟩ other ↔
      Spanned.ofText text = Spanned.ofText other) ∧
    ∀ text, ∃ raw plain rows, ofText ⟨.tokens, .rawSimple⟩ text = .ok raw ∧
      ofText ⟨.tokens, .simple⟩ text = .ok plain ∧
      raw.toList.splitOn '\n' = rows ++ [[]] ∧
      List.Forall₂ (fun s row => row = s.offsets.toList ++ behindBlank row) (Spanned.ofText text)
        rows ∧
      plain.toList.splitOn '\n' = rows.map behindBlank ++ [[]] := by
  refine ⟨fun text other => ⟨fun h => ?_, fun h => ?_⟩,
    fun text other => ⟨fun h => ?_, fun h => ?_⟩, fun text => ?_⟩
  · have hlines := lines_injective (token_lines_no_break text) (token_lines_no_break other)
      (Except.ok.inj h)
    exact List.map_injective_iff.mpr (fun _ _ => Token.describe_injective) hlines
  · rw [ofText, ofText, h]
  · have hlines := lines_injective (spanned_lines_no_break text) (spanned_lines_no_break other)
      (Except.ok.inj h)
    exact List.map_injective_iff.mpr (fun _ _ => Spanned.describe_injective) hlines
  · rw [ofText, ofText, h]
  · refine ⟨_, _, (Spanned.ofText text).map fun s => s.describe.toList, rfl, rfl,
      splitOn_spanned text, ?_, ?_⟩
    · rw [List.forall₂_map_right_iff, List.forall₂_same]
      intro s _
      rw [behindBlank_describe, Spanned.describe_eq, String.toList_append]
    · rw [splitOn_tokens, List.map_map]
      simp only [Function.comp_def, behindBlank_describe]

end Dump

end Dossier
