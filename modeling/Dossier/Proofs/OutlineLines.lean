import Dossier.Tree.Address

namespace Dossier

namespace Node

open Outline

variable {root node child : Node} {address : List Nat} {turn : Nat} {nodes : List Node}

theorem at?_cons (hchild : root.children[turn]? = some child) (address : List Nat) :
    root.at? (turn :: address) = child.at? address := by
  rw [at?, hchild, Option.bind_some]

theorem hasLater_singleton (root : Node) (turn : Nat) :
    root.hasLater [turn] = root.children[turn + 1]?.isSome := by
  change (root.at? [turn + 1]).isSome = _
  cases h : root.children[turn + 1]? with
  | none => simp [at?, h]
  | some child => simp [at?, h]

theorem hasLater_cons (hchild : root.children[turn]? = some child) (hne : address ≠ []) :
    root.hasLater (turn :: address) = child.hasLater address := by
  obtain ⟨next, more, rfl⟩ := List.exists_cons_of_ne_nil hne
  rw [hasLater, hasLater, List.getLast?_cons_cons, List.dropLast_cons_cons]
  cases (next :: more).getLast? with
  | none => rfl
  | some last =>
    change (root.at? (turn :: ((next :: more).dropLast ++ [last + 1]))).isSome = _
    rw [at?_cons hchild]

mutual

/-- The addresses of the nodes below a node are the ways that go down from it. -/
theorem mem_addresses_iff : (node : Node) → (address : List Nat) →
    (address ∈ node.addresses ↔ address ≠ [] ∧ (node.at? address).isSome = true)
  | .mk type label children, address => by
    rw [addresses, mem_addressesFrom_iff children 0 address]
    constructor
    · rintro ⟨place, below, node, rfl, hnode, hbelow⟩
      rw [Nat.zero_add, at?_cons hnode]
      exact ⟨List.cons_ne_nil _ _, hbelow⟩
    · rintro ⟨hne, hsome⟩
      obtain ⟨place, below, rfl⟩ := List.exists_cons_of_ne_nil hne
      cases hnode : children[place]? with
      | none => simp [at?, Node.children, hnode] at hsome
      | some node =>
        rw [at?_cons hnode] at hsome
        exact ⟨place, below, node, by rw [Nat.zero_add], hnode, hsome⟩

theorem mem_addressesFrom_iff : (nodes : List Node) → (turn : Nat) → (address : List Nat) →
    (address ∈ addressesFrom turn nodes ↔ ∃ place below node,
      address = (turn + place) :: below ∧ nodes[place]? = some node ∧
        (node.at? below).isSome = true)
  | [], turn, address => by simp [addressesFrom]
  | first :: nodes, turn, address => by
    rw [addressesFrom, List.mem_append, List.mem_cons, List.mem_map,
      mem_addressesFrom_iff nodes (turn + 1) address]
    constructor
    · rintro ((rfl | ⟨below, hbelow, rfl⟩) | ⟨place, below, node, rfl, hnode, hbelow⟩)
      · exact ⟨0, [], first, rfl, rfl, rfl⟩
      · exact ⟨0, below, first, rfl, rfl, ((mem_addresses_iff first below).mp hbelow).2⟩
      · exact ⟨place + 1, below, node, by rw [Nat.add_assoc, Nat.add_comm 1], hnode, hbelow⟩
    · rintro ⟨place, below, node, rfl, hnode, hbelow⟩
      cases place with
      | zero =>
        obtain rfl : first = node := Option.some.inj hnode
        left
        by_cases hne : below = []
        · exact .inl (by rw [hne, Nat.add_zero])
        · exact .inr ⟨below, (mem_addresses_iff first below).mpr ⟨hne, hbelow⟩, rfl⟩
      | succ place =>
        exact .inr ⟨place, below, node, by rw [Nat.add_assoc, Nat.add_comm 1], hnode, hbelow⟩

end

mutual

/-- Nodes come before those below them, and these before later siblings. -/
theorem addresses_ascending : (node : Node) → node.addresses.Pairwise (· < ·)
  | .mk _ _ children => addressesFrom_ascending children 0

theorem addressesFrom_ascending : (nodes : List Node) → (turn : Nat) →
    (addressesFrom turn nodes).Pairwise (· < ·)
  | [], _ => .nil
  | node :: nodes, turn => by
    rw [addressesFrom, List.pairwise_append, List.pairwise_cons, List.pairwise_map]
    refine ⟨⟨?_, ?_⟩, addressesFrom_ascending nodes (turn + 1), ?_⟩
    · intro address hmem
      obtain ⟨below, hbelow, rfl⟩ := List.mem_map.mp hmem
      have hne := ((mem_addresses_iff node below).mp hbelow).1
      obtain ⟨next, more, rfl⟩ := List.exists_cons_of_ne_nil hne
      exact List.cons_lt_cons_iff.mpr (.inr ⟨rfl, List.nil_lt_cons next more⟩)
    · exact (addresses_ascending node).imp fun hlt => List.cons_lt_cons_iff.mpr (.inr ⟨rfl, hlt⟩)
    · intro address hmem later hlater
      obtain ⟨place, below, _, rfl, _, _⟩ :=
        (mem_addressesFrom_iff nodes (turn + 1) later).mp hlater
      have hlt : turn < turn + 1 + place := by omega
      rcases List.mem_cons.mp hmem with rfl | hmem
      · exact List.cons_lt_cons_iff.mpr (.inl hlt)
      · obtain ⟨below, _, rfl⟩ := List.mem_map.mp hmem
        exact List.cons_lt_cons_iff.mpr (.inl hlt)

end

theorem rail_eq (root : Node) (address : List Nat) :
    rail (!root.hasLater address) = if root.hasLater address then "│ " else "  " := by
  cases root.hasLater address <;> rfl

theorem corner_eq (root : Node) (address : List Nat) :
    corner (!root.hasLater address) = if root.hasLater address then "├─" else "└─" := by
  cases root.hasLater address <;> rfl

theorem line_singleton (hnode : root.children[turn]? = some node) :
    root.line [turn] =
      corner (!root.hasLater [turn]) ++ " " ++ caption node.type node.label := by
  have hat : root.at? [turn] = some node := by rw [at?_cons hnode]; rfl
  rw [corner_eq, line, hat]
  simp [String.join]

/-- Below a node every line begins with what is drawn beside the node. -/
theorem line_cons (hnode : root.children[turn]? = some node) (hne : address ≠ []) :
    root.line (turn :: address) = rail (!root.hasLater [turn]) ++ node.line address := by
  obtain ⟨next, more, rfl⟩ := List.exists_cons_of_ne_nil hne
  have hgroup : ∀ depth, root.hasLater ((turn :: next :: more).take (depth + 1 + 1)) =
      node.hasLater ((next :: more).take (depth + 1)) := by
    intro depth
    rw [List.take_succ_cons, hasLater_cons hnode (by simp)]
  rw [rail_eq, line, line, at?_cons hnode, hasLater_cons hnode hne]
  simp only [List.length_cons, Nat.add_sub_cancel, List.range_succ_eq_map, List.map_cons,
    List.map_map, Function.comp_def, Nat.succ_eq_add_one, hgroup, String.join_cons,
    String.append_assoc]
  rfl

/-- The first of the children that are left, and those behind it. -/
theorem children_of_drop (hnodes : root.children.drop turn = node :: nodes) :
    root.children[turn]? = some node ∧ root.children.drop (turn + 1) = nodes ∧
      (!root.hasLater [turn]) = nodes.isEmpty := by
  have hplace : ∀ place, root.children[turn + place]? = (node :: nodes)[place]? := by
    intro place
    rw [← hnodes, List.getElem?_drop]
  refine ⟨hplace 0, ?_, ?_⟩
  · rw [← List.drop_drop, hnodes, List.drop_one, List.tail_cons]
  · rw [hasLater_singleton, hplace 1]
    cases nodes <;> rfl

mutual

/-- The outline of a node that has its place among the children of another one. -/
theorem outline_eq_lines : (node : Node) → (root : Node) → (turn : Nat) → (lead : String) →
    root.children[turn]? = some node →
      node.outline lead (!root.hasLater [turn]) =
        String.join (([turn] :: node.addresses.map (turn :: ·)).map fun address =>
          lead ++ root.line address ++ "\n")
  | .mk type label children, root, turn, lead, hnode => by
    have hbelow : ∀ address ∈ (mk type label children).addresses,
        lead ++ rail (!root.hasLater [turn]) ++ (mk type label children).line address ++ "\n" =
          lead ++ root.line (turn :: address) ++ "\n" := by
      intro address hmem
      rw [line_cons hnode ((mem_addresses_iff _ address).mp hmem).1]
      simp only [String.append_assoc]
    rw [outline, outlines_eq_lines children (mk type label children) 0 _ rfl, List.map_cons,
      String.join_cons, line_singleton hnode, List.map_map]
    congr 1
    · simp only [String.append_assoc, Node.type, Node.label]
    · exact congrArg String.join (List.map_congr_left hbelow)

/-- The outline of the children of a node, from one of them on. -/
theorem outlines_eq_lines : (nodes : List Node) → (root : Node) → (turn : Nat) → (lead : String) →
    root.children.drop turn = nodes →
      outlines lead nodes = String.join ((addressesFrom turn nodes).map fun address =>
        lead ++ root.line address ++ "\n")
  | [], root, turn, lead, _ => rfl
  | node :: nodes, root, turn, lead, hnodes => by
    obtain ⟨hnode, hlater, hlast⟩ := children_of_drop hnodes
    rw [outlines, addressesFrom, ← hlast, outline_eq_lines node root turn lead hnode,
      outlines_eq_lines nodes root (turn + 1) lead hlater, List.map_append, String.join_append]

end

theorem OneLine.here (h : root.OneLine) : '\n' ∉ root.label.toList :=
  h [] root rfl

theorem OneLine.below (h : root.OneLine) (hchild : child ∈ root.children) : child.OneLine := by
  obtain ⟨turn, hturn⟩ := List.mem_iff_getElem?.mp hchild
  intro address node hnode
  exact h (turn :: address) node (by rw [at?_cons hturn, hnode])

theorem oneLine_of_children {type : NodeType} {label : String} (hlabel : '\n' ∉ label.toList)
    (hchildren : ∀ node ∈ nodes, node.OneLine) : (mk type label nodes).OneLine := by
  intro address node hnode
  cases address with
  | nil =>
    cases hnode
    exact hlabel
  | cons turn address =>
    obtain ⟨child, hchild, hbelow⟩ := Option.bind_eq_some_iff.mp hnode
    exact hchildren child (List.mem_of_getElem? hchild) address node hbelow

theorem name_no_break (type : NodeType) : '\n' ∉ type.name.toList := by
  cases type <;> decide

theorem clip_no_break {label : String} (h : '\n' ∉ label.toList) : '\n' ∉ (clip label).toList := by
  rw [clip]
  split
  · have hdots : '\n' ∉ "...".toList := by decide
    rw [String.toList_append, String.toList_ofList, List.mem_append, not_or]
    exact ⟨fun hmem => h (List.mem_of_mem_take hmem), hdots⟩
  · exact h

/-- What a caption has behind the type. -/
def remark (label : String) : List Char :=
  if clip label = "" then [] else ':' :: ' ' :: (clip label).toList

theorem toList_caption (type : NodeType) (label : String) :
    (caption type label).toList = type.name.toList ++ remark label := by
  rw [caption, remark]
  split
  · next h => simp [h]
  · next h =>
    rw [if_neg (fun hempty => h hempty)]
    simp

theorem caption_no_break {label : String} (type : NodeType) (h : '\n' ∉ label.toList) :
    '\n' ∉ (caption type label).toList := by
  rw [toList_caption, List.mem_append, not_or]
  refine ⟨name_no_break type, ?_⟩
  rw [remark]
  split
  · simp
  · simp [clip_no_break h]

theorem line_no_break (h : root.OneLine) (address : List Nat) :
    '\n' ∉ (root.line address).toList := by
  have hgroup : ∀ later : Bool, '\n' ∉ (if later then "│ " else "  ").toList := by
    intro later
    cases later <;> decide
  have hcorner : '\n' ∉ (if root.hasLater address then "├─" else "└─").toList := by
    cases root.hasLater address <;> decide
  have hcaption : '\n' ∉
      (((root.at? address).map fun node => caption node.type node.label).getD "").toList := by
    cases hnode : root.at? address with
    | none => simp
    | some node => exact caption_no_break node.type (h address node hnode)
  simp only [line, String.toList_append, String.toList_join, List.mem_append, not_or]
  refine ⟨⟨⟨?_, hcorner⟩, by decide⟩, hcaption⟩
  intro hmem
  obtain ⟨group, hgroups, hbreak⟩ := List.mem_flatMap.mp hmem
  obtain ⟨depth, _, rfl⟩ := List.mem_map.mp hgroups
  exact hgroup _ hbreak

end Node

end Dossier
