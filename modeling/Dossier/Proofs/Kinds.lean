import Dossier.Proofs.Search

namespace Dossier

namespace Kind

theorem mem_all (kind : Kind) : kind ∈ all := by
  cases kind <;> decide

theorem ofName?_name (kind : Kind) : ofName? kind.name = some kind := by
  cases kind <;> rfl

theorem name_injective {kind other : Kind} (h : kind.name = other.name) : kind = other := by
  have hsome : some kind = some other := by rw [← ofName?_name kind, h, ofName?_name]
  exact Option.some.inj hsome

end Kind

namespace Token

/-- Two tokens that differ at most in what they carry. -/
inductive SameKind : Token → Token → Prop
  | itemNumber (number other : Nat) : SameKind (itemNumber number) (itemNumber other)
  | objectClass (c other : ObjectClass) : SameKind (objectClass c) (objectClass other)
  | addendum (number other : Nat) (letter letter' : Option Char) :
      SameKind (addendum number letter) (addendum other letter')
  | identifier (name other : String) : SameKind (identifier name) (identifier other)
  | verb (v other : Verb) : SameKind (verb v) (verb other)
  | constant (value other : Nat) : SameKind (constant value) (constant other)
  | fixed (t : Token) : SameKind t t

theorem sameKind_of_kind {t u : Token} (h : t.kind = u.kind) : SameKind t u := by
  cases t with
  | itemNumber number => cases u <;> cases h; exact .itemNumber _ _
  | objectClass c => cases u <;> cases h; exact .objectClass _ _
  | addendum number letter => cases u <;> cases h; exact .addendum _ _ _ _
  | identifier name => cases u <;> cases h; exact .identifier _ _
  | verb v => cases u <;> cases h; exact .verb _ _
  | constant value => cases u <;> cases h; exact .constant _ _
  | _ => rw [Token.eq_of_kind (t := u) (by rw [← h]; rfl)]; exact .fixed _

end Token

end Dossier
