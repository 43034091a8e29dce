import Dossier.Proofs.Endings
import Dossier.Proofs.Places

namespace Dossier

open Grammar

variable {tokens ts : List Token} {ctx : Context} {kind : Kind} {pos index : Nat} {t : Token}
  {α β : Type} {progress after : Progress}

/-- A search comes out in front of all that follows a token of its kind. -/
theorem finds_of_sublist (pos : Nat) (h : (t :: ts).Sublist (tokens.drop pos)) :
    ∃ index u, Finds tokens .root t.kind pos index u ∧ ts.Sublist (tokens.drop (index + 1)) := by
  obtain ⟨front, back, hdrop, hmem, hsub⟩ := List.cons_sublist_iff.mp h
  obtain ⟨offset, ht⟩ := List.mem_iff_getElem?.mp hmem
  have hoffset : offset < front.length := (List.getElem?_eq_some_iff.mp ht).1
  have hget : tokens[pos + offset]? = some t := by
    rw [← List.getElem?_drop, hdrop, List.getElem?_append_left hoffset, ht]
  have hback : tokens.drop (pos + front.length) = back := by
    rw [← List.drop_drop, hdrop, List.drop_left]
  obtain ⟨p, hp, hle⟩ := run_token_of_unforbidden (rfl : Context.root.forbidden = none)
    (Nat.le_add_right pos offset) hget rfl
  obtain ⟨hfinds, hnext⟩ := run_token_eq_some_iff.mp hp
  rw [← hback] at hsub
  exact ⟨p.start, p.value, hfinds, hsub.trans (List.drop_sublist_drop_left tokens (by omega))⟩

/-- It fails only if there is no token of its kind up to the end of the stream. -/
theorem run_token_eq_none_iff (hctx : ctx.forbidden = none) :
    Id.run (token tokens ctx kind pos) = none ↔ Free tokens kind pos tokens.length := by
  constructor
  · intro hnone i t hle _ ht
    exact kind_ne_of_unforbidden hctx hnone hle ht
  · intro hfree
    cases hfound : Id.run (token tokens ctx kind pos) with
    | none => rfl
    | some p =>
      have hlt := (List.getElem?_eq_some_iff.mp (run_token_eq_some_iff.mp hfound).1.at_index).1
      have hle := hfree.le_start (Nat.le_refl pos) hfound
      omega

/-- A search for a token pushes the mark to where it ends, and a failed one leaves it. -/
theorem run_token_progress :
    StateT.run (token tokens ctx kind pos : StateM Progress _) progress =
      (Id.run (token tokens ctx kind pos),
        progress.reach ((Id.run (token tokens ctx kind pos)).nextOr 0)) := by
  have hstay : progress.reach 0 = progress := by
    rw [Progress.reach, Mark.reach_zero]
  rw [Grammar.run_token]
  simp only [token]
  cases firstOf ctx kind pos (tokens.drop pos) with
  | none => exact congrArg (Prod.mk none) hstay.symm
  | some found => rfl

theorem run_read_progress {f : α → Option β} {rule : Rule (StateM Progress) α} :
    StateT.run (rule.read f pos) progress =
      ((StateT.run (rule pos) progress).1.read f, (StateT.run (rule pos) progress).2) := rfl

theorem run_itemNumber_progress :
    StateT.run (itemNumber tokens ctx pos : StateM Progress _) progress =
      (Id.run (itemNumber tokens ctx pos),
        progress.reach ((Id.run (token tokens ctx .itemNumber pos)).nextOr 0)) := by
  rw [itemNumber, run_read_progress, run_token_progress]
  rfl

theorem run_objectClass_progress :
    StateT.run (objectClass tokens ctx pos : StateM Progress _) progress =
      (Id.run (objectClass tokens ctx pos),
        progress.reach ((Id.run (token tokens ctx .objectClass pos)).nextOr 0)) := by
  rw [objectClass, run_read_progress, run_token_progress]
  rfl

theorem run_take_progress {rule : Rule (StateM Progress) α} {next : α → Steps (StateM Progress) β}
    {seq : Sequence} :
    StateT.run ((Steps.take rule >>= next) seq) progress =
      match StateT.run (rule seq.position) progress with
      | (none, after) => (none, after)
      | (some p, after) => StateT.run (next p.value (seq.advance p)) after := by
  have htake : StateT.run (Steps.take rule seq) progress =
      (seq.step (StateT.run (rule seq.position) progress).1,
        (StateT.run (rule seq.position) progress).2) := rfl
  rw [run_progress_bind, htake]
  rcases StateT.run (rule seq.position) progress with ⟨_ | p, after⟩
  · rfl
  · rfl

theorem run_rule_fails {steps : Steps (StateM Progress) α}
    (h : StateT.run (steps (.empty pos)) progress = (none, after)) :
    StateT.run (steps.rule pos) progress = (none, after) := by
  have hrule : StateT.run (steps.rule pos) progress =
      ((StateT.run (steps (.empty pos)) progress).1.map fun r => r.2.finish r.1,
        (StateT.run (steps (.empty pos)) progress).2) := rfl
  rw [hrule, h]
  rfl

theorem Rule.run_read_of_none {f : α → Option β} {rule : Rule Id α}
    (h : Id.run (rule pos) = none) : Id.run (rule.read f pos) = none := by
  change (Id.run (rule pos)).read f = none
  rw [h]
  rfl

theorem Token.exists_itemNumber (h : t.kind = .itemNumber) : ∃ number, t = .itemNumber number := by
  cases t <;> simp_all [Token.kind]

theorem Token.exists_objectClass (h : t.kind = .objectClass) :
    ∃ objectClass, t = .objectClass objectClass := by
  cases t <;> simp_all [Token.kind]

theorem Finds.run_token (h : Finds tokens ctx kind pos index t) :
    Id.run (token tokens ctx kind pos) = some ⟨t, index, index + 1⟩ :=
  run_token_eq_some_iff.mpr ⟨h, rfl⟩

theorem Finds.run_itemNumber {number : Nat}
    (h : Finds tokens ctx .itemNumber pos index (.itemNumber number)) :
    Id.run (itemNumber tokens ctx pos) = some ⟨number, index, index + 1⟩ :=
  Grammar.run_itemNumber.mpr h.run_token

theorem Finds.run_objectClass {objectClass : ObjectClass}
    (h : Finds tokens ctx .objectClass pos index (.objectClass objectClass)) :
    Id.run (Grammar.objectClass tokens ctx pos) = some ⟨objectClass, index, index + 1⟩ :=
  Grammar.run_objectClass.mpr h.run_token

/-- From a position on there is a first token of a kind, or none. -/
theorem finds_or_free (tokens : List Token) (kind : Kind) (pos : Nat) :
    (∃ index t, Finds tokens .root kind pos index t) ∨ Free tokens kind pos tokens.length := by
  cases hfound : Id.run (token tokens .root kind pos) with
  | none => exact .inr ((run_token_eq_none_iff rfl).mp hfound)
  | some p => exact .inl ⟨p.start, p.value, (run_token_eq_some_iff.mp hfound).1⟩

namespace Document

variable {number : Nat} {objectClass : ObjectClass} {i j k : Nat}

/-- Without a document the error is where the mark was left. -/
theorem ofTokens_of_fails
    (h : StateT.run (document .pruned tokens .root 0 : StateM Progress _) .start = (none, after)) :
    ofTokens tokens = .error (.noDocument after.furthest) := by
  rw [ofTokens, ofTokensBy, h]

theorem ofTokens_of_no_number (h : Free tokens .itemNumber 0 tokens.length) :
    ofTokens tokens = .error (.noDocument 0) := by
  have htoken : Id.run (token tokens .root .itemNumber 0) = none :=
    (run_token_eq_none_iff rfl).mpr h
  have hnumber : Id.run (itemNumber tokens .root 0) = none := Rule.run_read_of_none htoken
  have hfails : StateT.run (document .pruned tokens .root 0 : StateM Progress _) .start =
      (none, Progress.start.reach 0) := by
    apply run_rule_fails
    rw [run_take_progress, run_itemNumber_progress, Sequence.position_empty, htoken, hnumber]
    rfl
  exact ofTokens_of_fails hfails

theorem ofTokens_of_no_class (hnumber : Finds tokens .root .itemNumber 0 i (.itemNumber number))
    (h : Free tokens .objectClass (i + 1) tokens.length) :
    ofTokens tokens = .error (.noDocument (i + 1)) := by
  have htoken : Id.run (token tokens .root .objectClass (i + 1)) = none :=
    (run_token_eq_none_iff rfl).mpr h
  have hclass : Id.run (Grammar.objectClass tokens .root (i + 1)) = none :=
    Rule.run_read_of_none htoken
  have hfails : StateT.run (document .pruned tokens .root 0 : StateM Progress _) .start =
      (none, (Progress.start.reach (i + 1)).reach 0) := by
    apply run_rule_fails
    rw [run_take_progress, run_itemNumber_progress, Sequence.position_empty,
      hnumber.run_itemNumber, hnumber.run_token]
    dsimp only
    rw [run_take_progress, run_objectClass_progress, Sequence.position_advance, htoken, hclass]
    rfl
  rw [ofTokens_of_fails hfails]
  simp [Progress.reach, Mark.reach, Progress.start, Mark.start]

theorem ofTokens_of_no_heading (hnumber : Finds tokens .root .itemNumber 0 i (.itemNumber number))
    (hclass : Finds tokens .root .objectClass (i + 1) j (.objectClass objectClass))
    (h : Free tokens .procedures (j + 1) tokens.length) :
    ofTokens tokens = .error (.noDocument (j + 1)) := by
  have htoken : Id.run (token tokens .root .procedures (j + 1)) = none :=
    (run_token_eq_none_iff rfl).mpr h
  have hfails : StateT.run (document .pruned tokens .root 0 : StateM Progress _) .start =
      (none, ((Progress.start.reach (i + 1)).reach (j + 1)).reach 0) := by
    apply run_rule_fails
    rw [run_take_progress, run_itemNumber_progress, Sequence.position_empty,
      hnumber.run_itemNumber, hnumber.run_token]
    dsimp only
    rw [run_take_progress, run_objectClass_progress, Sequence.position_advance,
      hclass.run_objectClass, hclass.run_token]
    dsimp only
    rw [run_progress_bind, expect, run_take_progress, run_token_progress,
      Sequence.position_advance, htoken]
    rfl
  have hle : i ≤ j := Nat.le_of_lt hclass.le
  rw [ofTokens_of_fails hfails]
  simp [Progress.reach, Mark.reach, Progress.start, Mark.start, hle]

/-- Behind the header the body never fails: it ends where there is no part to be found. -/
theorem ofTokens_of_header (hnumber : Finds tokens .root .itemNumber 0 i (.itemNumber number))
    (hclass : Finds tokens .root .objectClass (i + 1) j (.objectClass objectClass))
    (hheading : Finds tokens .root .procedures (j + 1) k .procedures) :
    ∃ parts, ofTokens tokens = .ok ⟨number, objectClass, parts⟩ := by
  have hbody : Id.run (bodyParts .pruned tokens .root tokens.length ⟨some i, k + 1⟩) ≠ none := by
    intro hnone
    have hbound := (token_spans .procedures hheading.run_token).rest_lt
    obtain ⟨stuck, _, hturn⟩ := parts_loop.failed_turn hbound hnone
    rw [partTurn, Steps.run_perhaps] at hturn
    cases hturn
  obtain ⟨⟨parts, after⟩, hparts⟩ := Option.ne_none_iff_exists'.mp hbody
  refine ⟨parts, ofTokensBy_eq_ok_iff.mpr ⟨after.finish ⟨number, objectClass, parts⟩, ?_, rfl⟩⟩
  rw [run_document]
  simp only [hnumber.run_itemNumber, hclass.run_objectClass, hheading.run_token, hparts,
    Option.bind_eq_bind, Option.bind_some]
  rfl

/-- The header is complete, or there is a first token of it that is missing. -/
theorem header_cases (tokens : List Token) :
    Free tokens .itemNumber 0 tokens.length ∨
    ∃ i number, Finds tokens .root .itemNumber 0 i (.itemNumber number) ∧
      (Free tokens .objectClass (i + 1) tokens.length ∨
      ∃ j objectClass, Finds tokens .root .objectClass (i + 1) j (.objectClass objectClass) ∧
        (Free tokens .procedures (j + 1) tokens.length ∨
        ∃ k, Finds tokens .root .procedures (j + 1) k .procedures)) := by
  obtain ⟨i, t, hnumber⟩ | hfree := finds_or_free tokens .itemNumber 0
  · obtain ⟨number, rfl⟩ := Token.exists_itemNumber hnumber.kind_eq
    refine .inr ⟨i, number, hnumber, ?_⟩
    obtain ⟨j, t, hclass⟩ | hfree := finds_or_free tokens .objectClass (i + 1)
    · obtain ⟨objectClass, rfl⟩ := Token.exists_objectClass hclass.kind_eq
      refine .inr ⟨j, objectClass, hclass, ?_⟩
      obtain ⟨k, t, hheading⟩ | hfree := finds_or_free tokens .procedures (j + 1)
      · obtain rfl : t = .procedures := Token.eq_of_kind (by rw [hheading.kind_eq]; rfl)
        exact .inr ⟨k, hheading⟩
      · exact .inl hfree
    · exact .inl hfree
  · exact .inl hfree

/-- A document is found exactly behind a header. -/
theorem ofTokens_eq_ok_iff_finds :
    (∃ parts, ofTokens tokens = .ok ⟨number, objectClass, parts⟩) ↔
      ∃ i j k, Finds tokens .root .itemNumber 0 i (.itemNumber number) ∧
        Finds tokens .root .objectClass (i + 1) j (.objectClass objectClass) ∧
        Finds tokens .root .procedures (j + 1) k .procedures := by
  constructor
  · rintro ⟨parts, hdoc⟩
    obtain hfree | ⟨i, n, hnumber, hfree | ⟨j, c, hclass, hfree | ⟨k, hheading⟩⟩⟩ :=
      header_cases tokens
    · rw [ofTokens_of_no_number hfree] at hdoc
      cases hdoc
    · rw [ofTokens_of_no_class hnumber hfree] at hdoc
      cases hdoc
    · rw [ofTokens_of_no_heading hnumber hclass hfree] at hdoc
      cases hdoc
    · obtain ⟨others, hsame⟩ := ofTokens_of_header hnumber hclass hheading
      rw [hsame] at hdoc
      cases hdoc
      exact ⟨i, j, k, hnumber, hclass, hheading⟩
  · rintro ⟨i, j, k, hnumber, hclass, hheading⟩
    exact ofTokens_of_header hnumber hclass hheading

/-- Where the header breaks off, the error is behind the last token of it that was found. -/
theorem ofTokens_eq_error_iff {error : ParseError} :
    ofTokens tokens = .error error ↔
      (Free tokens .itemNumber 0 tokens.length ∧ error = .noDocument 0) ∨
      (∃ i number, Finds tokens .root .itemNumber 0 i (.itemNumber number) ∧
        Free tokens .objectClass (i + 1) tokens.length ∧ error = .noDocument (i + 1)) ∨
      ∃ i number j objectClass, Finds tokens .root .itemNumber 0 i (.itemNumber number) ∧
        Finds tokens .root .objectClass (i + 1) j (.objectClass objectClass) ∧
        Free tokens .procedures (j + 1) tokens.length ∧ error = .noDocument (j + 1) := by
  constructor
  · intro herror
    obtain hfree | ⟨i, n, hnumber, hfree | ⟨j, c, hclass, hfree | ⟨k, hheading⟩⟩⟩ :=
      header_cases tokens
    · rw [ofTokens_of_no_number hfree] at herror
      cases herror
      exact .inl ⟨hfree, rfl⟩
    · rw [ofTokens_of_no_class hnumber hfree] at herror
      cases herror
      exact .inr (.inl ⟨i, n, hnumber, hfree, rfl⟩)
    · rw [ofTokens_of_no_heading hnumber hclass hfree] at herror
      cases herror
      exact .inr (.inr ⟨i, n, j, c, hnumber, hclass, hfree, rfl⟩)
    · obtain ⟨others, hsame⟩ := ofTokens_of_header hnumber hclass hheading
      rw [hsame] at herror
      cases herror
  · rintro (⟨hfree, rfl⟩ | ⟨i, n, hnumber, hfree, rfl⟩ | ⟨i, n, j, c, hnumber, hclass, hfree, rfl⟩)
    · exact ofTokens_of_no_number hfree
    · exact ofTokens_of_no_class hnumber hfree
    · exact ofTokens_of_no_heading hnumber hclass hfree

/-- The three tokens of a header, with anything between them, are all that it takes. -/
theorem header_iff_sublist :
    (∃ number objectClass i j k, Finds tokens .root .itemNumber 0 i (.itemNumber number) ∧
      Finds tokens .root .objectClass (i + 1) j (.objectClass objectClass) ∧
      Finds tokens .root .procedures (j + 1) k .procedures) ↔
    ∃ number objectClass,
      [.itemNumber number, .objectClass objectClass, .procedures].Sublist tokens := by
  constructor
  · rintro ⟨number, objectClass, i, j, k, hnumber, hclass, hheading⟩
    refine ⟨number, objectClass, ?_⟩
    have hlast := cons_sublist_drop hheading.at_index hheading.le (List.nil_sublist _)
    have hbehind := cons_sublist_drop hclass.at_index hclass.le hlast
    exact cons_sublist_drop hnumber.at_index hnumber.le hbehind
  · rintro ⟨_, _, h⟩
    obtain ⟨i, t, hnumber, h⟩ := finds_of_sublist 0 h
    obtain ⟨number, rfl⟩ := Token.exists_itemNumber hnumber.kind_eq
    obtain ⟨j, t, hclass, h⟩ := finds_of_sublist (i + 1) h
    obtain ⟨objectClass, rfl⟩ := Token.exists_objectClass hclass.kind_eq
    obtain ⟨k, t, hheading, _⟩ := finds_of_sublist (j + 1) h
    obtain rfl : t = .procedures := Token.eq_of_kind (by rw [hheading.kind_eq]; rfl)
    exact ⟨number, objectClass, i, j, k, hnumber, hclass, hheading⟩

/-- The header decides. There is a document exactly if an item number, an object class and the
heading of the procedures stand in the stream in this order; its number and its class are those of
the first item number and of the first object class behind it, whatever the body holds. Otherwise
the error is behind the last of these that was found. -/
theorem ofTokens_by_header (tokens : List Token) :
    ((∃ doc, ofTokens tokens = .ok doc) ↔ ∃ number objectClass,
      [.itemNumber number, .objectClass objectClass, .procedures].Sublist tokens) ∧
    (∀ number objectClass, (∃ parts, ofTokens tokens = .ok ⟨number, objectClass, parts⟩) ↔
      ∃ i j k, Finds tokens .root .itemNumber 0 i (.itemNumber number) ∧
        Finds tokens .root .objectClass (i + 1) j (.objectClass objectClass) ∧
        Finds tokens .root .procedures (j + 1) k .procedures) ∧
    ∀ error, ofTokens tokens = .error error ↔
      (Free tokens .itemNumber 0 tokens.length ∧ error = .noDocument 0) ∨
      (∃ i number, Finds tokens .root .itemNumber 0 i (.itemNumber number) ∧
        Free tokens .objectClass (i + 1) tokens.length ∧ error = .noDocument (i + 1)) ∨
      ∃ i number j objectClass, Finds tokens .root .itemNumber 0 i (.itemNumber number) ∧
        Finds tokens .root .objectClass (i + 1) j (.objectClass objectClass) ∧
        Free tokens .procedures (j + 1) tokens.length ∧ error = .noDocument (j + 1) := by
  refine ⟨?_, fun _ _ => ofTokens_eq_ok_iff_finds, fun _ => ofTokens_eq_error_iff⟩
  rw [← header_iff_sublist]
  constructor
  · rintro ⟨⟨number, objectClass, parts⟩, hdoc⟩
    exact ⟨number, objectClass, ofTokens_eq_ok_iff_finds.mp ⟨parts, hdoc⟩⟩
  · rintro ⟨number, objectClass, hheader⟩
    obtain ⟨parts, hdoc⟩ := ofTokens_eq_ok_iff_finds.mpr hheader
    exact ⟨⟨number, objectClass, parts⟩, hdoc⟩

/-- An object class in front of the item number is not part of the header. -/
example : Document.ofTokens [.objectClass .safe, .itemNumber 173, .procedures] =
    .error (.noDocument 2) :=
  rfl

end Document

end Dossier
