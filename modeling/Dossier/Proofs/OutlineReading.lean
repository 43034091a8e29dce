import Mathlib.Data.List.Forall2
import Dossier.Proofs.LexemeForms
import Dossier.Proofs.OutlineLines
import Dossier.Proofs.Texts

namespace Dossier

namespace Node

open Outline Lexeme

variable {node other : Node} {nodes others : List Node} {lead : String} {rest rest' : List Char}
  {isLast isLast' : Bool} {type type' : NodeType} {label label' : String}

/-- The same types of nodes at the same addresses. -/
def SameTypes (node other : Node) : Prop :=
  ∀ address, (node.at? address).map Node.type = (other.at? address).map Node.type

theorem SameTypes.of_children (type : NodeType) (label label' : String)
    (h : List.Forall₂ SameTypes nodes others) :
    SameTypes (mk type label nodes) (mk type label' others) := by
  have hturns : ∀ (turn : Nat) (address : List Nat),
      ((nodes[turn]?.bind (at? · address)).map Node.type) =
        (others[turn]?.bind (at? · address)).map Node.type := by
    induction h with
    | nil => exact fun _ _ => rfl
    | cons hfirst hrest ih =>
      intro turn address
      cases turn with
      | zero => exact hfirst address
      | succ turn => exact ih turn address
  intro address
  cases address with
  | nil => rfl
  | cons turn address => exact hturns turn address

theorem corner_append_inj
    (h : (corner isLast).toList ++ rest = (corner isLast').toList ++ rest') :
    isLast = isLast' ∧ rest = rest' := by
  cases isLast <;> cases isLast' <;> simp_all [corner]

theorem isRun_caption (type : NodeType) (h : '\n' ∉ label.toList) (rest : List Char) :
    IsRun (· ≠ '\n') (caption type label).toList ('\n' :: rest) where
  nonempty := by
    rw [toList_caption]
    cases type <;> simp [NodeType.name]
  all c hc := by
    apply decide_eq_true
    rintro rfl
    exact caption_no_break type h hc
  stops := rfl

theorem isRun_name (type : NodeType) (label : String) :
    IsRun (· ≠ ':') type.name.toList (remark label) where
  nonempty := by cases type <;> decide
  all := by
    have hall : type.name.toList.all (· ≠ ':') = true := by cases type <;> decide
    exact fun c hmem => List.all_eq_true.mp hall c hmem
  stops := by
    rw [remark]
    split <;> rfl

theorem name_injective (h : type.name = type'.name) : type = type' := by
  revert h
  cases type <;> cases type' <;> decide

theorem caption_type (h : (caption type label).toList = (caption type' label').toList) :
    type = type' := by
  rw [toList_caption, toList_caption] at h
  obtain ⟨hname, _⟩ := (isRun_name type label).unique (isRun_name type' label') h
  exact name_injective (String.toList_inj.mp hname)

/-- The text does not go on with what is drawn behind a lead. -/
def Ends (lead : String) (rest : List Char) : Prop :=
  ∀ c more, rest = lead.toList ++ c :: more → c ∉ [' ', '│', '├', '└']

theorem toList_outline (label : String) (children : List Node) (rest : List Char) :
    (outline lead isLast (mk type label children)).toList ++ rest =
      lead.toList ++ ((corner isLast).toList ++ ' ' :: ((caption type label).toList ++
        '\n' :: ((outlines (lead ++ rail isLast) children).toList ++ rest))) := by
  simp [outline]

theorem toList_outlines (node : Node) (nodes : List Node) (rest : List Char) :
    (outlines lead (node :: nodes)).toList ++ rest =
      (outline lead nodes.isEmpty node).toList ++ ((outlines lead nodes).toList ++ rest) := by
  simp [outlines]

/-- Behind its lead a line begins with a corner. -/
theorem exists_outline (lead : String) (isLast : Bool) (node : Node) (rest : List Char) :
    ∃ c more, (outline lead isLast node).toList ++ rest = lead.toList ++ c :: more ∧
      c ∈ ['├', '└'] := by
  obtain ⟨type, label, children⟩ := node
  rw [toList_outline]
  cases isLast with
  | false => exact ⟨'├', _, rfl, by decide⟩
  | true => exact ⟨'└', _, rfl, by decide⟩

theorem Ends.not_outline (h : Ends lead rest) :
    rest ≠ (outline lead isLast node).toList ++ rest' := by
  obtain ⟨c, more, houtline, hc⟩ := exists_outline lead isLast node rest'
  rw [houtline]
  intro hrest
  exact h c more hrest (List.mem_cons_of_mem _ (List.mem_cons_of_mem _ hc))

/-- What is drawn below a node ends where a later sibling begins, or all of its siblings end. -/
theorem Ends.below (h : Ends lead rest) (isLast : Bool) (nodes : List Node) :
    Ends (lead ++ rail isLast) ((outlines lead nodes).toList ++ rest) := by
  obtain ⟨d, ds, hrail, hd⟩ : ∃ d ds, (rail isLast).toList = d :: ds ∧ d ∈ [' ', '│'] := by
    cases isLast with
    | false => exact ⟨'│', [' '], rfl, by decide⟩
    | true => exact ⟨' ', [' '], rfl, by decide⟩
  intro c more htext
  rw [String.toList_append, hrail, List.append_assoc] at htext
  cases nodes with
  | nil => exact absurd (List.mem_append_left ['├', '└'] hd) (h d _ htext)
  | cons node nodes =>
    rw [toList_outlines] at htext
    obtain ⟨e, more', houtline, he⟩ := exists_outline lead nodes.isEmpty node
      ((outlines lead nodes).toList ++ rest)
    rw [houtline] at htext
    obtain ⟨rfl, _⟩ := List.cons.inj (List.append_cancel_left htext)
    rcases List.mem_pair.mp he with rfl | rfl <;> simp at hd

mutual

/-- A text that begins with the outline of a node shows where that ends. -/
theorem outline_append_inj : (node other : Node) → (lead : String) → (isLast isLast' : Bool) →
    (rest rest' : List Char) → node.OneLine → other.OneLine → Ends (lead ++ rail isLast) rest →
      Ends (lead ++ rail isLast') rest' →
        (outline lead isLast node).toList ++ rest = (outline lead isLast' other).toList ++ rest' →
          SameTypes node other ∧ rest = rest'
  | .mk type label children, .mk type' label' children', lead, isLast, isLast', rest, rest', h, h',
      hends, hends', htext => by
    rw [toList_outline, toList_outline] at htext
    obtain ⟨rfl, hline⟩ := corner_append_inj (List.append_cancel_left htext)
    obtain ⟨hcaption, hlater⟩ := (isRun_caption type h.here _).unique
      (isRun_caption type' h'.here _) (List.cons.inj hline).2
    obtain rfl : type = type' := caption_type hcaption
    obtain ⟨hchildren, hrest⟩ := outlines_append_inj children children' (lead ++ rail isLast)
      rest rest' (fun _ => h.below) (fun _ => h'.below) hends hends' (List.cons.inj hlater).2
    exact ⟨.of_children type label label' hchildren, hrest⟩

theorem outlines_append_inj : (nodes others : List Node) → (lead : String) →
    (rest rest' : List Char) → (∀ node ∈ nodes, node.OneLine) → (∀ node ∈ others, node.OneLine) →
      Ends lead rest → Ends lead rest' →
        (outlines lead nodes).toList ++ rest = (outlines lead others).toList ++ rest' →
          List.Forall₂ SameTypes nodes others ∧ rest = rest'
  | [], [], lead, rest, rest', _, _, _, _, htext => ⟨.nil, htext⟩
  | [], other :: others, lead, rest, rest', _, _, hends, _, htext => by
    rw [toList_outlines] at htext
    exact absurd htext hends.not_outline
  | node :: nodes, [], lead, rest, rest', _, _, _, hends', htext => by
    rw [toList_outlines] at htext
    exact absurd htext.symm hends'.not_outline
  | node :: nodes, other :: others, lead, rest, rest', h, h', hends, hends', htext => by
    rw [toList_outlines, toList_outlines] at htext
    obtain ⟨hfirst, hlater⟩ := outline_append_inj node other lead nodes.isEmpty others.isEmpty
      _ _ (h node List.mem_cons_self) (h' other List.mem_cons_self) (hends.below _ nodes)
      (hends'.below _ others) htext
    obtain ⟨hsame, hrest⟩ := outlines_append_inj nodes others lead rest rest'
      (fun _ hmem => h _ (List.mem_cons_of_mem _ hmem))
      (fun _ hmem => h' _ (List.mem_cons_of_mem _ hmem)) hends hends' hlater
    exact ⟨.cons hfirst hsame, hrest⟩

end

end Node

namespace Document

open Node

theorem outline_eq_lines (doc : Document) :
    doc.outline = String.join ((doc.node.addresses.map doc.node.line).map (· ++ "\n")) := by
  have hlines := outlines_eq_lines doc.node.children doc.node 0 "" rfl
  simp only [String.empty_append] at hlines
  rw [List.map_map]
  exact hlines

theorem sameTypes_of_outline {doc other : Document} (h : doc.node.OneLine)
    (h' : other.node.OneLine) (heq : doc.outline = other.outline) :
    SameTypes doc.node other.node := by
  have hends : Ends "" [] := by simp [Ends]
  have htext : (outlines "" doc.node.children).toList ++ [] =
      (outlines "" other.node.children).toList ++ [] := by
    rw [List.append_nil, List.append_nil]
    exact congrArg String.toList heq
  exact .of_children .document _ _ (outlines_append_inj _ _ "" [] [] (fun _ => h.below)
    (fun _ => h'.below) hends hends htext).1

/-- The outline of a document shows its tree. It has one line for each node below the root, in the
order of their addresses, so that a node comes before those below it and these before its later
siblings. The groups, the corner and the caption of each line are those of `Node.line`. Documents
with the same outline have nodes of the same types at the same addresses. -/
theorem outline_shows_tree {doc : Document} (h : doc.node.OneLine) :
    doc.outline.toList.splitOn '\n' =
        doc.node.addresses.map (fun address => (doc.node.line address).toList) ++ [[]] ∧
      (∀ address, address ∈ doc.node.addresses ↔
        address ≠ [] ∧ (doc.node.at? address).isSome = true) ∧
      doc.node.addresses.Pairwise (· < ·) ∧
      ∀ other : Document, other.node.OneLine → other.outline = doc.outline →
        SameTypes other.node doc.node := by
  refine ⟨?_, mem_addresses_iff doc.node, addresses_ascending doc.node,
    fun other h' heq => sameTypes_of_outline h' h heq⟩
  have hlines : ∀ line ∈ doc.node.addresses.map doc.node.line, '\n' ∉ line.toList := by
    intro line hmem
    obtain ⟨address, _, rfl⟩ := List.mem_map.mp hmem
    exact line_no_break h address
  rw [outline_eq_lines, splitOn_lines hlines, List.map_map]
  rfl

/-- Number and class are in the label of the root, which has no line. -/
theorem outline_shows_tree_of_two_parts :
    (Document.mk 1 .safe [.block [.increment "n"], .label .description]).node.OneLine ∧
      (Document.mk 2 .keter [.block [.increment "n"], .label .description]).node.OneLine ∧
      (Document.mk 1 .safe [.block [.increment "n"], .label .description]).outline.toList.splitOn
        '\n' = ["├─ Block: 1 statement".toList, "│ └─ Increment: n++".toList,
          "└─ Label: Description".toList, []] ∧
      SameTypes (Document.mk 2 .keter [.block [.increment "n"], .label .description]).node
        (Document.mk 1 .safe [.block [.increment "n"], .label .description]).node := by
  have hparts : ∀ node ∈ [BodyPart.block [.increment "n"], .label .description].map BodyPart.node,
      node.OneLine := by
    have hincrement : (Statement.increment "n").node.OneLine :=
      oneLine_of_children (by decide +kernel) (by simp)
    have hblock : (Block.node [.increment "n"]).OneLine :=
      oneLine_of_children (by decide +kernel) (List.forall_mem_singleton.mpr hincrement)
    have hlabel : (Label.node .description).OneLine :=
      oneLine_of_children (by decide +kernel) (by simp)
    exact List.forall_mem_cons.mpr ⟨hblock, List.forall_mem_singleton.mpr hlabel⟩
  have h : (Document.mk 1 .safe [.block [.increment "n"], .label .description]).node.OneLine :=
    oneLine_of_children (by decide +kernel) hparts
  have h' : (Document.mk 2 .keter [.block [.increment "n"], .label .description]).node.OneLine :=
    oneLine_of_children (by decide +kernel) hparts
  obtain ⟨hlines, _, _, hsame⟩ := outline_shows_tree h
  exact ⟨h, h', hlines.trans (by decide +kernel), hsame _ h' rfl⟩

end Document

end Dossier
