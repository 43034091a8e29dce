import Mathlib.Data.List.Basic
import Dossier.Dump

namespace Dossier

/-- A reader that takes off one escape at a time tells apart what was escaped, and where that ends
in front of something that it cannot read. -/
theorem flatMap_append_inj {escape : Char → List Char}
    {unescape? : List Char → Option (Char × List Char)}
    (hread : ∀ c rest, unescape? (escape c ++ rest) = some (c, rest)) {cs ds rest rest' : List Char}
    (hrest : unescape? rest = none) (hrest' : unescape? rest' = none)
    (h : cs.flatMap escape ++ rest = ds.flatMap escape ++ rest') : cs = ds ∧ rest = rest' := by
  induction cs generalizing ds with
  | nil =>
    cases ds with
    | nil => exact ⟨rfl, h⟩
    | cons d ds =>
      have hd := hread d (ds.flatMap escape ++ rest')
      rw [← List.append_assoc, ← List.flatMap_cons, ← h] at hd
      rw [List.flatMap_nil, List.nil_append, hrest] at hd
      cases hd
  | cons c cs ih =>
    have hc := hread c (cs.flatMap escape ++ rest)
    rw [← List.append_assoc, ← List.flatMap_cons, h] at hc
    cases ds with
    | nil =>
      rw [List.flatMap_nil, List.nil_append, hrest'] at hc
      cases hc
    | cons d ds =>
      rw [List.flatMap_cons, List.append_assoc, hread] at hc
      obtain ⟨rfl, htail⟩ := Prod.mk.inj (Option.some.inj hc)
      obtain ⟨rfl, hends⟩ := ih htail.symm
      exact ⟨rfl, hends⟩

/-- Lines that each end with a break are what their text is split into at its breaks. -/
theorem splitOn_lines {lines : List String} (h : ∀ line ∈ lines, '\n' ∉ line.toList) :
    (String.join (lines.map (· ++ "\n"))).toList.splitOn '\n' =
      lines.map String.toList ++ [[]] := by
  induction lines with
  | nil => rfl
  | cons line lines ih =>
    have htext : (String.join ((line :: lines).map (· ++ "\n"))).toList =
        line.toList ++ '\n' :: (String.join (lines.map (· ++ "\n"))).toList := by simp
    have hline : ∀ c ∈ line.toList, (c == '\n') = false := by
      intro c hc
      rw [beq_eq_false_iff_ne]
      rintro rfl
      exact h line List.mem_cons_self hc
    rw [htext, List.splitOn_eq_splitOnP, List.splitOnP_append_cons _ _ rfl,
      List.splitOnP_eq_singleton hline, ← List.splitOn_eq_splitOnP,
      ih fun other hother => h other (List.mem_cons_of_mem _ hother)]
    rfl

/-- Lines without breaks can be told from the text that they make up. -/
theorem Dump.lines_injective {texts others : List String}
    (h : ∀ text ∈ texts, '\n' ∉ text.toList) (h' : ∀ text ∈ others, '\n' ∉ text.toList)
    (heq : lines texts = lines others) : texts = others := by
  have hsplit : texts.map String.toList ++ [[]] = others.map String.toList ++ [[]] := by
    rw [← splitOn_lines h, ← splitOn_lines h']
    exact congrArg (fun text => text.toList.splitOn '\n') heq
  exact List.map_injective_iff.mpr (fun _ _ => String.toList_inj.mp)
    (List.append_cancel_right hsplit)

end Dossier
