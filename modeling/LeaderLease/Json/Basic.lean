import LeaderLease.Number.Numeral

/-!
# JSON documents

A `Json` is a document as it is written: numbers keep their digits and objects keep their members in
order, repeated keys included. A string literal may hold half of a surrogate pair and then names no
text; it stands as `none`. `Json.text` writes a document without blanks.
-/

set_option autoImplicit false

namespace LeaderLease

inductive Json where
  | null
  | bool (b : Bool)
  | number (n : Numeral)
  | string (s : Option String)
  | array (items : List Json)
  | object (members : List (Option String × Json))
deriving Repr

namespace Json

def ofString (s : String) : Json := .string (some s)

def ofNat (n : Nat) : Json := .number (.ofNat n)

def ofInt (i : Int) : Json := .number (.ofInt i)

/-- An object with the given members in order. -/
def ofMembers (members : List (String × Json)) : Json :=
  .object (members.map fun (key, value) => (some key, value))

/-! ## Writing -/

/-- A lower-case hexadecimal digit. -/
def hexDigit (n : Nat) : Char := Nat.digitChar n

/-- A character inside a string literal. Quote, backslash and controls are escaped. -/
def escapeChar (c : Char) : List Char :=
  if c = '"' then ['\\', '"']
  else if c = '\\' then ['\\', '\\']
  else if c = '\x08' then ['\\', 'b']
  else if c = '\x0c' then ['\\', 'f']
  else if c = '\n' then ['\\', 'n']
  else if c = '\r' then ['\\', 'r']
  else if c = '\t' then ['\\', 't']
  else if c.toNat < 0x20 then
    ['\\', 'u', '0', '0', hexDigit (c.toNat / 16), hexDigit (c.toNat % 16)]
  else [c]

/-- A literal for a text, or one that names no text. -/
def stringText : Option String → List Char
  | some s => '"' :: s.toList.flatMap escapeChar ++ ['"']
  | none => ['"', '\\', 'u', 'd', '8', '0', '0', '"']

mutual

def text : Json → List Char
  | .null => ['n', 'u', 'l', 'l']
  | .bool true => ['t', 'r', 'u', 'e']
  | .bool false => ['f', 'a', 'l', 's', 'e']
  | .number n => n.text
  | .string s => stringText s
  | .array [] => ['[', ']']
  | .array (item :: items) => '[' :: text item ++ itemsText items
  | .object [] => ['{', '}']
  | .object (member :: members) =>
    '{' :: stringText member.1 ++ ':' :: text member.2 ++ membersText members

/-- The items behind the first one, and the closing bracket. -/
def itemsText : List Json → List Char
  | [] => [']']
  | item :: items => ',' :: text item ++ itemsText items

/-- The members behind the first one, and the closing brace. -/
def membersText : List (Option String × Json) → List Char
  | [] => ['}']
  | (key, value) :: members =>
    ',' :: stringText key ++ ':' :: text value ++ membersText members

end

end Json

end LeaderLease
