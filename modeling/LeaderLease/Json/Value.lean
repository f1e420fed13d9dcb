import LeaderLease.Json.Decoding
import LeaderLease.Number.Shortest

/-!
# JSON values

A `JsonValue` is what a document means: object members are sorted by key with the later of two equal
keys kept, and numbers are integers of 64 bits or finite binary64 numbers. `JsonValue.ofJson?`
bounds the nesting, and `JsonValue.toJson` is the value's one written form.
-/

set_option autoImplicit false

namespace LeaderLease

inductive JsonValue where
  | null
  | bool (b : Bool)
  | int (i : Int)
  | real (negative : Bool) (size : Magnitude)
  | text (s : String)
  | list (items : List JsonValue)
  | record (members : List (String × JsonValue))
deriving Repr

namespace JsonValue

/-- Real numbers from `1e-5` up to `1e16` are written without an exponent. -/
def realFormat : NumberFormat := ⟨-5, 15, 2⟩

/-! ## Numbers -/

/-- Digits are taken while the significand stays below `2 ^ 64`; the count is of those taken. -/
def takeDigits (significand : Nat) : List Char → Nat × Nat
  | [] => (significand, 0)
  | c :: cs =>
    let grown := significand * 10 + Decimal.value [c]
    if grown < Nat.pow 2 64 then
      let (result, count) := takeDigits grown cs
      (result, count + 1)
    else (significand, 0)

/-- The significand and power of ten of a numeral. Digits that do not fit are dropped, with the
scale kept for those before the point. -/
def significandOf (n : Numeral) : Nat × Int :=
  let (whole, taken) := takeDigits 0 n.whole
  let (significand, places) := takeDigits whole n.fraction
  (significand, ((n.whole.length - taken : Nat) : Int) - (places : Int) + n.exponentValue)

def tenTo (k : Nat) : Magnitude := (Magnitude.ofNat (Nat.pow 10 k)).getD .zero

/-- `x * 10 ^ e` by one rounded product or by at most two rounded quotients; nothing when it is too
large. Powers of ten are themselves rounded. -/
def scale (x : Magnitude) (e : Int) : Option Magnitude :=
  if x.mantissa = 0 then some .zero
  else if 308 < e then none
  else if 0 ≤ e then x.mul (tenTo e.toNat)
  else if -308 ≤ e then x.div (tenTo (-e).toNat)
  else if -616 ≤ e then (x.div (tenTo 308)).bind fun y => y.div (tenTo (-(e + 308)).toNat)
  else some .zero

/-- An integer literal in the range of signed or unsigned 64 bits is exact; every other number is
rounded. Minus zero is a real number. -/
def ofNumeral? (n : Numeral) : Option JsonValue :=
  match n.toInt? with
  | some i =>
    if -(Nat.pow 2 63 : Int) ≤ i ∧ i < Nat.pow 2 64 then some (.int i) else rounded
  | none => rounded
where
  rounded : Option JsonValue :=
    let (significand, power) := significandOf n
    (Magnitude.ofNat significand).bind fun x => (scale x power).map fun y => .real n.negative y

/-! ## Values -/

/-- Puts a member into a sorted list; an equal key is replaced. -/
def insertMember (key : String) (value : JsonValue) :
    List (String × JsonValue) → List (String × JsonValue)
  | [] => [(key, value)]
  | member :: members =>
    if key < member.1 then (key, value) :: member :: members
    else if key = member.1 then (key, value) :: members
    else member :: insertMember key value members

/-- Sorted members, the later of two equal keys kept. -/
def ofMembers (members : List (String × JsonValue)) : List (String × JsonValue) :=
  members.foldl (fun sorted member => insertMember member.1 member.2 sorted) []

/-- The depth of nesting that a reader follows. -/
def nestingLimit : Nat := 127

/-- The value of a document whose arrays and objects are nested at most `depth` deep. -/
def ofJson? : Nat → Json → Option JsonValue
  | _, .null => some .null
  | _, .bool b => some (.bool b)
  | _, .number n => ofNumeral? n
  | _, .string s => s.map .text
  | 0, .array _ => none
  | 0, .object _ => none
  | depth + 1, .array items => (items.mapM (ofJson? depth)).map .list
  | depth + 1, .object members =>
    (members.mapM fun (member : Option String × Json) =>
      member.1.bind fun key => (ofJson? depth member.2).map fun value => (key, value)).map
        fun read => .record (ofMembers read)

mutual

def toJson : JsonValue → Json
  | .null => .null
  | .bool b => .bool b
  | .int i => .ofInt i
  | .real negative size => .number (realFormat.write negative size)
  | .text s => .ofString s
  | .list items => .array (itemsToJson items)
  | .record members => .object (membersToJson members)

def itemsToJson : List JsonValue → List Json
  | [] => []
  | item :: items => toJson item :: itemsToJson items

def membersToJson : List (String × JsonValue) → List (Option String × Json)
  | [] => []
  | (key, value) :: members => (some key, toJson value) :: membersToJson members

end

/-- The member of a record under a key. -/
def member? (key : String) : JsonValue → Option JsonValue
  | .record members => (members.find? fun member => member.1 = key).map (·.2)
  | _ => none

end JsonValue

end LeaderLease
