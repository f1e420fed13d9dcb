/-!
# TOML values

What a TOML document says. Numbers that are not integers and moments of time are kept as they are
written; the keys of a table differ from one another.
-/

set_option autoImplicit false

namespace LeaderLease

inductive Toml where
  | text (s : String)
  | int (i : Int)
  | real (written : List Char)
  | bool (b : Bool)
  | moment (written : List Char)
  | list (items : List Toml)
  | table (members : List (String × Toml))
deriving Repr

namespace Toml

def toText? : Toml → Option String
  | .text s => some s
  | _ => none

def toInt? : Toml → Option Int
  | .int i => some i
  | _ => none

def toBool? : Toml → Option Bool
  | .bool b => some b
  | _ => none

/-- The fields of a structure, each found or missing. A list holds the first of them in order and
may go on behind the last; a moment of time has none. -/
def fields (names : List String) : Toml → Option (List (Option Toml))
  | .table members => some (names.map fun name => members.lookup name)
  | .list items => some ((List.range names.length).map fun i => items[i]?)
  | .moment _ => some (names.map fun _ => none)
  | _ => none

end Toml

end LeaderLease
