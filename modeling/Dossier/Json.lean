import Dossier.Token

namespace Dossier

/-- Two spaces for each level, in JSON and in markup alike. -/
def margin (depth : Nat) : String := String.join (List.replicate depth "  ")

inductive Json where
  | null
  | number (n : Nat)
  | text (s : String)
  | list (items : List Json)
  | record (fields : List (String × Json))

namespace Json

/-- Only quotes, backslashes and the characters below the space are escaped. -/
def escape (c : Char) : List Char :=
  if c = '"' then ['\\', '"']
  else if c = '\\' then ['\\', '\\']
  else if c = '\x08' then ['\\', 'b']
  else if c = '\x09' then ['\\', 't']
  else if c = '\x0a' then ['\\', 'n']
  else if c = '\x0c' then ['\\', 'f']
  else if c = '\x0d' then ['\\', 'r']
  else if c.toNat < 0x20 then
    ['\\', 'u', '0', '0', (c.toNat / 16).digitChar, (c.toNat % 16).digitChar]
  else [c]

def quote (s : String) : String := "\"" ++ String.ofList (s.toList.flatMap escape) ++ "\""

mutual

/-- The text of a value whose opening bracket stands at `depth`. -/
def pretty (depth : Nat) : Json → String
  | null => "null"
  | number n => n.repr
  | text s => quote s
  | list [] => "[]"
  | list (item :: items) =>
    "[\n" ++ margin (depth + 1) ++ pretty (depth + 1) item ++ prettyItems depth items
  | record [] => "\x7b\x7d"
  | record (field :: fields) =>
    "\x7b\n" ++ margin (depth + 1) ++ prettyField (depth + 1) field ++ prettyFields depth fields

/-- The items after the first, and the closing bracket. -/
def prettyItems (depth : Nat) : List Json → String
  | [] => "\n" ++ margin depth ++ "]"
  | item :: items =>
    ",\n" ++ margin (depth + 1) ++ pretty (depth + 1) item ++ prettyItems depth items

def prettyField (depth : Nat) : String × Json → String
  | (key, value) => quote key ++ ": " ++ pretty depth value

/-- The fields after the first, and the closing brace. -/
def prettyFields (depth : Nat) : List (String × Json) → String
  | [] => "\n" ++ margin depth ++ "\x7d"
  | field :: fields =>
    ",\n" ++ margin (depth + 1) ++ prettyField (depth + 1) field ++ prettyFields depth fields

end

/-- Two spaces a level, one member a line, fields in the order given. -/
def render (value : Json) : String := pretty 0 value

end Json

/-- A value filed under the name of its case. -/
def Json.tagged (tag : String) (value : Json) : Json := .record [(tag, value)]

def Verb.name : Verb → String
  | does => "Does"
  | has => "Has"
  | is => "Is"

/-- An addendum's number and, if it has one, its letter. -/
def Json.ofAddendum (number : Nat) (letter : Option Char) : Json :=
  .record [("number", .number number), ("letter", (letter.map (.text ·.toString)).getD .null)]

/-- A token that carries nothing is its kind's name, any other is a record with that name as its one
key. -/
def Token.toJson (token : Token) : Json :=
  let tag := token.kind.name
  match token with
  | itemNumber n => .tagged tag (.number n)
  | objectClass c => .tagged tag (.text c.name)
  | addendum number letter => .tagged tag (.ofAddendum number letter)
  | identifier name => .tagged tag (.text name)
  | verb v => .tagged tag (.text v.name)
  | constant n => .tagged tag (.number n)
  | _ => .text tag

end Dossier
