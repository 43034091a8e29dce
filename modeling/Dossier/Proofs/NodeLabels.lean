import Mathlib.Data.List.Basic
import Std.Data.String.ToNat
import Dossier.Proofs.LexemeForms
import Dossier.Tree.Node

namespace Dossier

open Lexeme

namespace Label

/-- What stands behind the number of an addendum. -/
def ending : Option Char → List Char
  | none => []
  | some letter => ['-', letter]

theorem text_addendum (number : Nat) (letter : Option Char) :
    (addendum number letter).text.toList =
      "Addendum ".toList ++ (number.repr.toList ++ ending letter) := by
  cases letter with
  | none => simp [text, ending]
  | some letter => simp [text, ending]

theorem ending_injective {letter other : Option Char} (h : ending letter = ending other) :
    letter = other := by
  cases letter <;> cases other <;> simp_all [ending]

theorem isRun_number (number : Nat) (letter : Option Char) :
    IsRun Char.isDigit number.repr.toList (ending letter) := by
  apply (isRun_repr number).of_stops
  cases letter with
  | none => exact id
  | some _ => exact fun _ => rfl

theorem text_injective {label other : Label} (h : label.text = other.text) : label = other := by
  have hlist : label.text.toList = other.text.toList := congrArg String.toList h
  cases label with
  | addendum number letter =>
    rw [text_addendum] at hlist
    cases other with
    | addendum number' letter' =>
      rw [text_addendum] at hlist
      obtain ⟨hnumber, hletter⟩ := (isRun_number number letter).unique
        (isRun_number number' letter') (List.append_cancel_left hlist)
      rw [Nat.repr_inj.mp (String.toList_inj.mp hnumber), ending_injective hletter]
    | description =>
      have hhead : some 'A' = some 'D' := congrArg List.head? hlist
      cases hhead
  | description =>
    cases other with
    | addendum number letter =>
      rw [text_addendum] at hlist
      have hhead : some 'D' = some 'A' := congrArg List.head? hlist
      cases hhead
    | description => rfl

theorem node_injective {label other : Label} (h : label.node = other.node) : label = other :=
  text_injective (congrArg Node.label h)

end Label

namespace Expression

mutual

theorem node_injective : (e other : Expression) → e.node = other.node → e = other
  | .variable name, other, h => by
    cases other with
    | «variable» name' => exact congrArg Expression.variable (congrArg Node.label h)
    | _ => cases congrArg Node.type h
  | .add left right, other, h => by
    cases other with
    | add left' right' =>
      obtain rfl : right = right' :=
        node_injective right right' (List.cons.inj (congrArg Node.children h)).1
      have htext : left ++ " + " ++ right.text = left' ++ " + " ++ right.text :=
        congrArg Node.label h
      obtain rfl : left = left' := by simpa using htext
      rfl
    | _ => cases congrArg Node.type h
  | .constant value, other, h => by
    cases other with
    | constant value' =>
      have htext : value.repr = value'.repr := congrArg Node.label h
      rw [Nat.repr_inj.mp htext]
    | _ => cases congrArg Node.type h
  | .call name args, other, h => by
    cases other with
    | call name' args' =>
      obtain rfl : args = args' := nodes_injective args args' (congrArg Node.children h)
      have htext : name ++ "(" ++ ", ".intercalate (texts args) ++ ")" =
          name' ++ "(" ++ ", ".intercalate (texts args) ++ ")" := congrArg Node.label h
      obtain rfl : name = name' := by simpa using htext
      rfl
    | _ => cases congrArg Node.type h
  | .square name, other, h => by
    cases other with
    | square name' =>
      have htext : "square(" ++ name ++ ")" = "square(" ++ name' ++ ")" := congrArg Node.label h
      obtain rfl : name = name' := by simpa using htext
      rfl
    | _ => cases congrArg Node.type h

theorem nodes_injective : (args others : List Expression) → nodes args = nodes others →
    args = others
  | [], [], _ => rfl
  | [], _ :: _, h => nomatch h
  | _ :: _, [], h => nomatch h
  | e :: es, other :: others, h => by
    obtain ⟨hfirst, hrest⟩ := List.cons.inj h
    rw [node_injective e other hfirst, nodes_injective es others hrest]

end

end Expression

theorem Equality.node_injective {e other : Equality} (h : e.node = other.node) : e = other := by
  obtain ⟨hleft, hright⟩ := List.cons.inj (congrArg Node.children h)
  obtain ⟨left, right⟩ := e
  obtain ⟨left', right'⟩ := other
  rw [left.node_injective left' hleft, right.node_injective right' (List.cons.inj hright).1]

namespace Statement

mutual

theorem node_injective : (s other : Statement) → s.node = other.node → s = other
  | .assignment target value, other, h => by
    cases other with
    | assignment target' value' =>
      obtain rfl : value = value' :=
        value.node_injective value' (List.cons.inj (congrArg Node.children h)).1
      have htext : target ++ " := " ++ value.text = target' ++ " := " ++ value.text :=
        congrArg Node.label h
      obtain rfl : target = target' := by simpa using htext
      rfl
    | _ => cases congrArg Node.type h
  | .increment target, other, h => by
    cases other with
    | increment target' =>
      have htext : target ++ "++" = target' ++ "++" := congrArg Node.label h
      obtain rfl : target = target' := by simpa using htext
      rfl
    | _ => cases congrArg Node.type h
  | .goto label, other, h => by
    cases other with
    | goto label' => exact congrArg Statement.goto (Label.text_injective (congrArg Node.label h))
    | _ => cases congrArg Node.type h
  | .conditional condition body, other, h => by
    cases other with
    | conditional condition' body' =>
      obtain ⟨hcondition, hbody⟩ := List.cons.inj (congrArg Node.children h)
      obtain rfl : condition = condition' := Equality.node_injective hcondition
      have hnodes : nodes body = nodes body' :=
        congrArg Node.children (List.cons.inj hbody).1
      rw [nodes_injective body body' hnodes]
    | _ => cases congrArg Node.type h
  | .expression e, other, h => by
    cases other with
    | expression e' =>
      rw [e.node_injective e' (List.cons.inj (congrArg Node.children h)).1]
    | _ => cases congrArg Node.type h
  | .comment, other, h => by
    cases other with
    | comment => rfl
    | _ => cases congrArg Node.type h
  | .invalid, other, h => by
    cases other with
    | invalid => rfl
    | _ => cases congrArg Node.type h

theorem nodes_injective : (block other : List Statement) → nodes block = nodes other →
    block = other
  | [], [], _ => rfl
  | [], _ :: _, h => nomatch h
  | _ :: _, [], h => nomatch h
  | s :: ss, other :: others, h => by
    obtain ⟨hfirst, hrest⟩ := List.cons.inj h
    rw [node_injective s other hfirst, nodes_injective ss others hrest]

end

end Statement

theorem BodyPart.node_injective {part other : BodyPart} (h : part.node = other.node) :
    part = other := by
  cases part with
  | block b =>
    cases other with
    | block b' => exact congrArg block (Statement.nodes_injective b b' (congrArg Node.children h))
    | label l' => cases congrArg Node.type h
  | label l =>
    cases other with
    | block b' => cases congrArg Node.type h
    | label l' => exact congrArg label (Label.node_injective h)

theorem ObjectClass.ofName?_name (c : ObjectClass) : ofName? c.name = some c := by
  cases c <;> rfl

theorem ObjectClass.name_injective {c other : ObjectClass} (h : c.name = other.name) :
    c = other := by
  have hsome : some c = some other := by rw [← ofName?_name c, h, ofName?_name]
  exact Option.some.inj hsome

namespace Document

/-- The digits of an item number behind the zeros that make them three. -/
def itemDigits (number : Nat) : List Char :=
  List.replicate (3 - (Nat.toDigits 10 number).length) '0' ++ Nat.toDigits 10 number

theorem itemDigits_injective {number other : Nat} (h : itemDigits number = itemDigits other) :
    number = other := by
  have hvalue : ∀ n, Nat.ofDigitChars 10 (itemDigits n) 0 = n := by
    intro n
    rw [itemDigits, Nat.ofDigitChars_append, Nat.ofDigitChars_replicate_zero, Nat.mul_zero,
      Nat.ofDigitChars_ten_toDigits]
  rw [← hvalue number, h, hvalue]

theorem isRun_itemDigits (number : Nat) (rest : List Char) :
    IsRun Char.isDigit (itemDigits number) (' ' :: rest) := by
  have hdigits := isRun_repr number
  rw [Nat.toList_repr] at hdigits
  refine ⟨fun hempty => hdigits.nonempty (List.append_eq_nil_iff.mp hempty).2, ?_, rfl⟩
  intro c hmem
  rcases List.mem_append.mp hmem with hzero | hdigit
  · rw [List.eq_of_mem_replicate hzero]
    rfl
  · exact hdigits.all c hdigit

theorem text_eq (doc : Document) :
    doc.text.toList = "SCP-".toList ++
      (itemDigits doc.number ++ ' ' :: '(' :: (doc.objectClass.name.toList ++ [')'])) := by
  simp [text, itemText, itemDigits]

/-- A document can be told from its node. -/
theorem node_injective {doc other : Document} (h : doc.node = other.node) : doc = other := by
  have htext : doc.text.toList = other.text.toList :=
    congrArg (fun node => node.label.toList) h
  rw [text_eq, text_eq] at htext
  obtain ⟨hnumber, hrest⟩ := (isRun_itemDigits doc.number _).unique
    (isRun_itemDigits other.number _) (List.append_cancel_left htext)
  obtain ⟨number, objectClass, parts⟩ := doc
  obtain ⟨number', objectClass', parts'⟩ := other
  obtain rfl : number = number' := itemDigits_injective hnumber
  obtain rfl : objectClass = objectClass' := by
    have hname : objectClass.name.toList = objectClass'.name.toList :=
      List.append_cancel_right (List.cons.inj (List.cons.inj hrest).2).2
    exact ObjectClass.name_injective (String.toList_inj.mp hname)
  have hparts : parts.map BodyPart.node = parts'.map BodyPart.node := congrArg Node.children h
  obtain rfl : parts = parts' :=
    List.map_injective_iff.mpr (fun _ _ => BodyPart.node_injective) hparts
  rfl

end Document

end Dossier
