import Dossier.Proofs.NodeLabels
import Dossier.Proofs.Texts
import Dossier.Tree.Markup

namespace Dossier

open Lexeme

namespace Markup

/-- The character that an escaped text begins with, and the text behind it. -/
def unescape? : List Char → Option (Char × List Char)
  | '&' :: 'a' :: 'm' :: 'p' :: ';' :: rest => some ('&', rest)
  | '&' :: 'l' :: 't' :: ';' :: rest => some ('<', rest)
  | '&' :: 'g' :: 't' :: ';' :: rest => some ('>', rest)
  | '&' :: 'q' :: 'u' :: 'o' :: 't' :: ';' :: rest => some ('"', rest)
  | '&' :: 'a' :: 'p' :: 'o' :: 's' :: ';' :: rest => some ('\x27', rest)
  | c :: rest => some (c, rest)
  | [] => none

theorem unescape?_escape (c : Char) (rest : List Char) :
    unescape? (escape c ++ rest) = some (c, rest) := by
  fun_cases escape c with
  | case1 | case2 | case3 | case4 | case5 => subst_vars; rfl
  | case6 hand => simp [unescape?, hand]

theorem open_not_mem_escape (c : Char) : '<' ∉ escape c := by
  fun_cases escape c with
  | case1 | case2 | case3 | case4 | case5 => decide
  | case6 _ hopen =>
    intro hmem
    exact hopen (List.mem_singleton.mp hmem).symm

def escaped (label : String) : List Char := label.toList.flatMap escape

theorem escaped_injective {label other : String} (h : escaped label = escaped other) :
    label = other := by
  have happend : escaped label ++ [] = escaped other ++ [] := congrArg (· ++ []) h
  exact String.toList_inj.mp (flatMap_append_inj unescape?_escape rfl rfl happend).1

def passesTag (c : Char) : Bool := c ≠ '>'

def passesLabel (c : Char) : Bool := c ≠ '<'

theorem isRun_tag (type : NodeType) (rest : List Char) :
    IsRun passesTag type.tag.toList ('>' :: rest) where
  nonempty := by cases type <;> decide
  all := by
    have hall : type.tag.toList.all passesTag = true := by cases type <;> rfl
    exact fun c hmem => List.all_eq_true.mp hall c hmem
  stops := rfl

/-- With the bracket in front, since a label may be empty. -/
theorem isRun_label (label : String) (rest : List Char) :
    IsRun passesLabel ('>' :: escaped label) ('<' :: rest) where
  nonempty := List.cons_ne_nil _ _
  all := by
    intro c hmem
    apply decide_eq_true
    rintro rfl
    rcases List.mem_cons.mp hmem with hbracket | hmem
    · cases hbracket
    · obtain ⟨d, _, hd⟩ := List.mem_flatMap.mp hmem
      exact open_not_mem_escape d hd
  stops := rfl

end Markup

namespace NodeType

def ofTag? (tag : String) : Option NodeType :=
  [document, block, label, assignment, increment, goto, conditional, expressionStatement, comment,
    invalid, equality, .variable, add, constant, functionCall, square].find? fun type =>
      type.tag == tag

theorem ofTag?_tag (type : NodeType) : ofTag? type.tag = some type := by
  cases type <;> rfl

theorem tag_injective {type other : NodeType} (h : type.tag = other.tag) : type = other := by
  have hsome : some type = some other := by rw [← ofTag?_tag type, h, ofTag?_tag]
  exact Option.some.inj hsome

end NodeType

theorem toList_margin_succ (depth : Nat) :
    (margin (depth + 1)).toList = (margin depth).toList ++ [' ', ' '] := by
  rw [margin, List.replicate_succ', String.join_append, String.toList_append]
  rfl

namespace Node

open Markup

variable {depth : Nat} {type : NodeType} {rest rest' : List Char}

/-- What stands behind the label of an element. -/
def tail (depth : Nat) (type : NodeType) : List Node → List Char
  | [] => '/' :: (type.tag.toList ++ ">\n".toList)
  | children =>
    'c' :: ("hildren>\n".toList ++ ((markups (depth + 1) children).toList ++
      ((margin depth).toList ++ '<' :: '/' ::
        ("children></".toList ++ (type.tag.toList ++ ">\n".toList)))))

theorem toList_markup (label : String) (children : List Node) :
    (markup depth (.mk type label children)).toList ++ rest =
      (margin depth).toList ++ '<' ::
        (type.tag.toList ++ '>' ::
          (escaped label ++ '<' :: (tail depth type children ++ rest))) := by
  cases children with
  | nil => simp [markup, tail, escaped]
  | cons child children => simp [markup, markups, tail, escaped]

/-- Below an element its nodes go on for as long as the margin is that of one more level. -/
theorem tail_inj {children others : List Node}
    (hchildren : ∀ rest rest', (markups (depth + 1) children).toList ++
        ((margin depth).toList ++ '<' :: '/' :: rest) =
          (markups (depth + 1) others).toList ++ ((margin depth).toList ++ '<' :: '/' :: rest') →
      children = others ∧ rest = rest')
    (h : tail depth type children ++ rest = tail depth type others ++ rest') :
    children = others ∧ rest = rest' := by
  cases children with
  | nil =>
    cases others with
    | nil => exact ⟨rfl, List.append_cancel_left h⟩
    | cons => cases (List.cons.inj h).1
  | cons child children =>
    cases others with
    | nil => cases (List.cons.inj h).1
    | cons other others =>
      simp only [tail, List.cons_append, List.append_assoc, List.cons.injEq, true_and] at h
      obtain ⟨hsame, hrest⟩ := hchildren _ _ (List.append_cancel_left h)
      refine ⟨hsame, ?_⟩
      exact List.append_cancel_left (List.append_cancel_left (List.append_cancel_left hrest))

/-- An element of the next level does not begin where a tag of this level stands. -/
theorem markup_ne_tag (node : Node) :
    (markup (depth + 1) node).toList ++ rest ≠ (margin depth).toList ++ '<' :: rest' := by
  intro h
  obtain ⟨type, label, children⟩ := node
  rw [toList_markup, toList_margin_succ, List.append_assoc] at h
  cases (List.cons.inj (List.append_cancel_left h)).1

mutual

/-- Markup that goes on behind an element is read in one way. -/
theorem markup_append_inj : (node other : Node) → (depth : Nat) → (rest rest' : List Char) →
    (markup depth node).toList ++ rest = (markup depth other).toList ++ rest' →
      node = other ∧ rest = rest'
  | .mk type label children, .mk type' label' children', depth, rest, rest', h => by
    rw [toList_markup, toList_markup] at h
    have hopened := (List.cons.inj (List.append_cancel_left h)).2
    obtain ⟨htag, hlabelled⟩ := (isRun_tag type _).unique (isRun_tag type' _) hopened
    obtain rfl : type = type' := NodeType.tag_injective (String.toList_inj.mp htag)
    obtain ⟨hlabel, htail⟩ := (isRun_label label _).unique (isRun_label label' _) hlabelled
    obtain rfl : label = label' := escaped_injective (List.cons.inj hlabel).2
    obtain ⟨rfl, hrest⟩ :=
      tail_inj (markups_append_inj children children' depth) (List.cons.inj htail).2
    exact ⟨rfl, hrest⟩

theorem markups_append_inj : (nodes others : List Node) → (depth : Nat) →
    (rest rest' : List Char) →
    (markups (depth + 1) nodes).toList ++ ((margin depth).toList ++ '<' :: '/' :: rest) =
        (markups (depth + 1) others).toList ++ ((margin depth).toList ++ '<' :: '/' :: rest') →
      nodes = others ∧ rest = rest'
  | [], [], _, rest, rest', h => by
    have hrest := List.append_cancel_left (List.append_cancel_left h)
    cases hrest
    exact ⟨rfl, rfl⟩
  | [], other :: others, depth, rest, rest', h => by
    rw [markups, markups, String.toList_append, List.append_assoc] at h
    exact absurd h.symm (markup_ne_tag other)
  | node :: nodes, [], depth, rest, rest', h => by
    rw [markups, markups, String.toList_append, List.append_assoc] at h
    exact absurd h (markup_ne_tag node)
  | node :: nodes, other :: others, depth, rest, rest', h => by
    rw [markups, markups, String.toList_append, String.toList_append, List.append_assoc,
      List.append_assoc] at h
    obtain ⟨rfl, hnodes⟩ := markup_append_inj node other (depth + 1) _ _ h
    obtain ⟨rfl, hrest⟩ := markups_append_inj nodes others depth rest rest' hnodes
    exact ⟨rfl, hrest⟩

end

end Node

/-- Markup loses nothing: two documents have the same markup only if they are the same, whatever
their names are made of and whether or not they can be read from tokens. -/
theorem Document.markup_eq_iff {doc other : Document} :
    doc.markup = other.markup ↔ doc = other := by
  constructor
  · intro h
    have happend : (doc.node.markup 0).toList ++ [] = (other.node.markup 0).toList ++ [] :=
      congrArg (fun text => text.toList ++ []) h
    exact Document.node_injective (Node.markup_append_inj _ _ 0 [] [] happend).1
  · rintro rfl
    rfl

end Dossier
