import LeaderLease.Json.Reader
import LeaderLease.Json.Value

/-!
# Objects

An object of an external store has a kind, a namespace and a name, and data that nobody here looks
into. Its text form is JSON with the members in a fixed order. Reading accepts arrays of the fields
too, at either level, and an object without data has null.
-/

set_option autoImplicit false

namespace LeaderLease

/-! ## Keys -/

structure ObjectKey where
  ns : String
  name : String
deriving DecidableEq, Repr

namespace ObjectKey

/-- An empty namespace is left out. -/
def text (k : ObjectKey) : String := if k.ns = "" then k.name else k.ns ++ "/" ++ k.name

/-- By namespace first, and then by name. -/
def le (k l : ObjectKey) : Bool := k.ns < l.ns || (k.ns = l.ns && !(l.name < k.name))

def toJson (k : ObjectKey) : Json :=
  .ofMembers [("namespace", .ofString k.ns), ("name", .ofString k.name)]

def ofJson? (j : Json) : Option ObjectKey := do
  let [some ns, some name] ← j.fields ["namespace", "name"] false | none
  some { ns := ← ns.toString?, name := ← name.toString? }

def decode? (s : String) : Option ObjectKey := do ofJson? (← Json.read s.toList)

def encode (k : ObjectKey) : String := String.ofList k.toJson.text

end ObjectKey

/-! ## Kinds -/

structure ObjectKind where
  group : String
  version : String
  kind : String
deriving DecidableEq, Repr

namespace ObjectKind

/-- An empty group is left out. -/
def text (k : ObjectKind) : String :=
  if k.group = "" then k.version ++ "/" ++ k.kind
  else k.group ++ "/" ++ k.version ++ "/" ++ k.kind

def toJson (k : ObjectKind) : Json :=
  .ofMembers [("group", .ofString k.group), ("version", .ofString k.version),
    ("kind", .ofString k.kind)]

def ofJson? (j : Json) : Option ObjectKind := do
  let [some group, some version, some kind] ← j.fields ["group", "version", "kind"] false | none
  some { group := ← group.toString?, version := ← version.toString?, kind := ← kind.toString? }

def decode? (s : String) : Option ObjectKind := do ofJson? (← Json.read s.toList)

def encode (k : ObjectKind) : String := String.ofList k.toJson.text

end ObjectKind

/-! ## Objects -/

structure Object where
  kind : ObjectKind
  ns : String
  name : String
  data : JsonValue
deriving Repr

namespace Object

def key (o : Object) : ObjectKey := ⟨o.ns, o.name⟩

def toJson (o : Object) : Json :=
  .ofMembers [("kind", o.kind.toJson), ("namespace", .ofString o.ns), ("name", .ofString o.name),
    ("data", o.data.toJson)]

/-- The data of an object lie one level deep already. -/
def dataOfJson? : Option Json → Option JsonValue
  | none => some .null
  | some j => JsonValue.ofJson? (JsonValue.nestingLimit - 1) j

def ofJson? (j : Json) : Option Object := do
  let [some kind, some ns, some name, data] ← j.fields ["kind", "namespace", "name", "data"] false
    | none
  some {
    kind := ← ObjectKind.ofJson? kind
    ns := ← ns.toString?
    name := ← name.toString?
    data := ← dataOfJson? data }

def decode? (s : String) : Option Object := do ofJson? (← Json.read s.toList)

def encode (o : Object) : String := String.ofList o.toJson.text

end Object

end LeaderLease
