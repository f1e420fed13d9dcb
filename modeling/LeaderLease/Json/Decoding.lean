import LeaderLease.Json.Basic

/-!
# Reading typed values from JSON

Scalars are read by type without conversion. A structure may be given as an object, whose known keys
occur at most once, or as an array of its fields in order. `Json.fields` finds the fields either
way; what a missing field means is left to the structure.
-/

set_option autoImplicit false

namespace LeaderLease

namespace Json

def toBool? : Json → Option Bool
  | .bool b => some b
  | _ => none

def toString? : Json → Option String
  | .string s => s
  | _ => none

/-- An integer literal from zero up to but not including `bound`. -/
def toNatBelow? (bound : Nat) : Json → Option Nat
  | .number n => n.toNatBelow? bound
  | _ => none

/-- The value under a key that occurs at most once: missing, or present, or refused. -/
def memberOnce (key : String) (members : List (Option String × Json)) : Option (Option Json) :=
  match members.filter fun member => member.1 = some key with
  | [] => some none
  | [member] => some (some member.2)
  | _ => none

/-- The named fields of a structure, each found or missing. In an object every key must be a text,
and `closed` refuses keys that name no field; an array holds the first fields in order. -/
def fields (names : List String) (closed : Bool) : Json → Option (List (Option Json))
  | .object members =>
    if members.all fun member =>
        match member.1 with
        | none => false
        | some key => !closed || names.contains key
    then names.mapM fun name => memberOnce name members
    else none
  | .array items =>
    if items.length ≤ names.length then
      some (items.map some ++ List.replicate (names.length - items.length) none)
    else none
  | _ => none

/-- A member of an object by key, the first one if the key is repeated. -/
def member? (key : String) : Json → Option Json
  | .object members => (members.find? fun member => member.1 = some key).map (·.2)
  | _ => none

/-- The items of an array; other values have none. -/
def items : Json → List Json
  | .array items => items
  | _ => []

end Json

end LeaderLease
