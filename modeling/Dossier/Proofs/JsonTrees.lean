import Dossier.Dump
import Dossier.Proofs.JsonText
import Dossier.Proofs.Kinds
import Dossier.Proofs.NodeLabels

namespace Dossier

theorem Verb.name_injective {v other : Verb} (h : v.name = other.name) : v = other := by
  revert h
  cases v <;> cases other <;> decide

/-- A missing letter is told from any letter. -/
theorem Json.ofAddendum_injective {number other : Nat} {letter letter' : Option Char}
    (h : ofAddendum number letter = ofAddendum other letter') :
    number = other ∧ letter = letter' := by
  cases letter with
  | none =>
    cases letter' with
    | none => simpa [ofAddendum] using h
    | some c' => simp [ofAddendum] at h
  | some c =>
    cases letter' with
    | none => simp [ofAddendum] at h
    | some c' => simpa [ofAddendum] using h

/-- The name that a value is filed under. -/
def Json.tag? : Json → Option String
  | text s => some s
  | record ((tag, _) :: _) => some tag
  | _ => none

namespace Token

variable {t u : Token}

theorem tag?_toJson (t : Token) : t.toJson.tag? = some t.kind.name := by
  cases t <;> rfl

theorem toJson_injective (h : t.toJson = u.toJson) : t = u := by
  have hname : some t.kind.name = some u.kind.name := by
    rw [← tag?_toJson t, h, tag?_toJson]
  cases sameKind_of_kind (Kind.name_injective (Option.some.inj hname)) with
  | itemNumber number other => simpa [toJson, kind, Json.tagged] using h
  | objectClass c other =>
    obtain rfl : c = other :=
      ObjectClass.name_injective (by simpa [toJson, kind, Json.tagged] using h)
    rfl
  | addendum number other letter letter' =>
    obtain ⟨rfl, rfl⟩ : number = other ∧ letter = letter' :=
      Json.ofAddendum_injective (by simpa [toJson, kind, Json.tagged] using h)
    rfl
  | identifier name other => simpa [toJson, kind, Json.tagged] using h
  | verb v other =>
    obtain rfl : v = other := Verb.name_injective (by simpa [toJson, kind, Json.tagged] using h)
    rfl
  | constant value other => simpa [toJson, kind, Json.tagged] using h
  | fixed => rfl

end Token

theorem Label.toJson_injective {label other : Label} (h : label.toJson = other.toJson) :
    label = other := by
  cases label with
  | addendum number letter =>
    cases other with
    | addendum number' letter' =>
      obtain ⟨rfl, rfl⟩ : number = number' ∧ letter = letter' :=
        Json.ofAddendum_injective (by simpa [toJson, Json.tagged] using h)
      rfl
    | description => simp [toJson, Json.tagged] at h
  | description =>
    cases other with
    | addendum number' letter' => simp [toJson, Json.tagged] at h
    | description => rfl

namespace Expression

mutual

theorem toJson_injective : (e other : Expression) → e.toJson = other.toJson → e = other
  | .variable name, other, h => by
    cases other with
    | «variable» name' => simpa [toJson, Json.tagged] using h
    | _ => simp [toJson, Json.tagged] at h
  | .add left right, other, h => by
    cases other with
    | add left' right' =>
      obtain ⟨rfl, hright⟩ : left = left' ∧ right.toJson = right'.toJson := by
        simpa [toJson, Json.tagged] using h
      rw [toJson_injective right right' hright]
    | _ => simp [toJson, Json.tagged] at h
  | .constant value, other, h => by
    cases other with
    | constant value' => simpa [toJson, Json.tagged] using h
    | _ => simp [toJson, Json.tagged] at h
  | .call name args, other, h => by
    cases other with
    | call name' args' =>
      obtain ⟨rfl, hargs⟩ : name = name' ∧ toJsons args = toJsons args' := by
        simpa [toJson, Json.tagged] using h
      rw [toJsons_injective args args' hargs]
    | _ => simp [toJson, Json.tagged] at h
  | .square name, other, h => by
    cases other with
    | square name' => simpa [toJson, Json.tagged] using h
    | _ => simp [toJson, Json.tagged] at h

theorem toJsons_injective : (args others : List Expression) → toJsons args = toJsons others →
    args = others
  | [], [], _ => rfl
  | [], _ :: _, h => nomatch h
  | _ :: _, [], h => nomatch h
  | e :: es, other :: others, h => by
    obtain ⟨hfirst, hrest⟩ := List.cons.inj h
    rw [toJson_injective e other hfirst, toJsons_injective es others hrest]

end

end Expression

theorem Equality.toJson_injective {e other : Equality} (h : e.toJson = other.toJson) :
    e = other := by
  obtain ⟨left, right⟩ := e
  obtain ⟨left', right'⟩ := other
  obtain ⟨hleft, hright⟩ : left.toJson = left'.toJson ∧ right.toJson = right'.toJson := by
    simpa [toJson] using h
  rw [left.toJson_injective left' hleft, right.toJson_injective right' hright]

namespace Statement

mutual

theorem toJson_injective : (s other : Statement) → s.toJson = other.toJson → s = other
  | .assignment target value, other, h => by
    cases other with
    | assignment target' value' =>
      obtain ⟨rfl, hvalue⟩ : target = target' ∧ value.toJson = value'.toJson := by
        simpa [toJson, Json.tagged] using h
      rw [value.toJson_injective value' hvalue]
    | _ => simp [toJson, Json.tagged] at h
  | .increment target, other, h => by
    cases other with
    | increment target' => simpa [toJson, Json.tagged] using h
    | _ => simp [toJson, Json.tagged] at h
  | .goto label, other, h => by
    cases other with
    | goto label' =>
      have hlabel : label.toJson = label'.toJson := by simpa [toJson, Json.tagged] using h
      rw [Label.toJson_injective hlabel]
    | _ => simp [toJson, Json.tagged] at h
  | .conditional condition body, other, h => by
    cases other with
    | conditional condition' body' =>
      obtain ⟨hcondition, hbody⟩ :
          condition.toJson = condition'.toJson ∧ toJsons body = toJsons body' := by
        simpa [toJson, Json.tagged, Json.ofBlock] using h
      rw [Equality.toJson_injective hcondition, toJsons_injective body body' hbody]
    | _ => simp [toJson, Json.tagged] at h
  | .expression e, other, h => by
    cases other with
    | expression e' =>
      have he : e.toJson = e'.toJson := by simpa [toJson, Json.tagged] using h
      rw [e.toJson_injective e' he]
    | _ => simp [toJson, Json.tagged] at h
  | .comment, other, h => by
    cases other with
    | comment => rfl
    | _ => simp [toJson, Json.tagged] at h
  | .invalid, other, h => by
    cases other with
    | invalid => rfl
    | _ => simp [toJson, Json.tagged] at h

theorem toJsons_injective : (block other : List Statement) → toJsons block = toJsons other →
    block = other
  | [], [], _ => rfl
  | [], _ :: _, h => nomatch h
  | _ :: _, [], h => nomatch h
  | s :: ss, other :: others, h => by
    obtain ⟨hfirst, hrest⟩ := List.cons.inj h
    rw [toJson_injective s other hfirst, toJsons_injective ss others hrest]

end

end Statement

theorem BodyPart.toJson_injective {part other : BodyPart} (h : part.toJson = other.toJson) :
    part = other := by
  cases part with
  | block b =>
    cases other with
    | block b' =>
      have hblock : Statement.toJsons b = Statement.toJsons b' := by
        simpa [toJson, Json.tagged, Json.ofBlock] using h
      rw [Statement.toJsons_injective b b' hblock]
    | label l' => simp [toJson, Json.tagged] at h
  | label l =>
    cases other with
    | block b' => simp [toJson, Json.tagged] at h
    | label l' =>
      have hlabel : l.toJson = l'.toJson := by simpa [toJson, Json.tagged] using h
      rw [Label.toJson_injective hlabel]

theorem Document.toJson_injective {doc other : Document} (h : doc.toJson = other.toJson) :
    doc = other := by
  obtain ⟨number, objectClass, parts⟩ := doc
  obtain ⟨number', objectClass', parts'⟩ := other
  obtain ⟨rfl, hclass, hparts⟩ : number = number' ∧ objectClass.name = objectClass'.name ∧
      parts.map BodyPart.toJson = parts'.map BodyPart.toJson := by simpa [toJson] using h
  obtain rfl : objectClass = objectClass' := ObjectClass.name_injective hclass
  obtain rfl : parts = parts' :=
    List.map_injective_iff.mpr (fun _ _ => BodyPart.toJson_injective) hparts
  rfl

/-- JSON loses nothing: lists of tokens with the same JSON are the same, and so are documents,
whatever their names and letters are made of and whether or not they can be read from a text. -/
theorem Dump.json_eq_iff :
    (∀ tokens others, ofTokens .json tokens = ofTokens .json others ↔ tokens = others) ∧
      ∀ doc other, ofDocument .json doc = ofDocument .json other ↔ doc = other := by
  refine ⟨fun tokens others => ⟨fun h => ?_, ?_⟩, fun doc other => ⟨fun h => ?_, ?_⟩⟩
  · have hlist : Json.list (tokens.map Token.toJson) = .list (others.map Token.toJson) :=
      Json.render_injective (Except.ok.inj h)
    exact List.map_injective_iff.mpr (fun _ _ => Token.toJson_injective) (Json.list.inj hlist)
  · rintro rfl
    rfl
  · exact Document.toJson_injective (Json.render_injective (Except.ok.inj h))
  · rintro rfl
    rfl

end Dossier
