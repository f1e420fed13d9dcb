import LeaderLease.Json.Decoding
import LeaderLease.Json.Reader
import LeaderLease.Number.Binary64
import LeaderLease.Text.Utf8

/-!
# The comparison script

The script reads the stored JSON, takes its `version` and compares it with the expected one. Numbers
are binary64 numbers, so versions from `2 ^ 53` on may be taken for their neighbours. A version that
is a text counts as the number it spells. The script's reader takes in the whole document, members
that nobody asks for included: all literals must name texts, and the nesting is bounded.

`Script.compare` is what the script makes of JSON. Its reader is more lenient than that: it does not
ask whether bytes are a text, reads numbers in base 16 and with leading zeros, and lets control
characters stand in literals. Such values are not `isJson`, and what the script makes of them is not
fixed here (`Server.foreign`).
-/

set_option autoImplicit false

namespace LeaderLease

namespace Redis

namespace Script

/-- Space, tab and the line ends. -/
def isSpace (c : Char) : Bool := c = ' ' || (9 ≤ c.toNat && c.toNat ≤ 13)

def readSign : List Char → Bool × List Char
  | '-' :: cs => (true, cs)
  | '+' :: cs => (false, cs)
  | cs => (false, cs)

/-- Digits, and digits behind a point: the number without the point, and how many were behind. -/
def readMantissa (isDigit : Char → Bool) (cs : List Char) :
    Option (List Char × Nat × List Char) :=
  let whole := cs.takeWhile isDigit
  let rest := cs.drop whole.length
  match rest with
  | '.' :: behind =>
    let fraction := behind.takeWhile isDigit
    if whole = [] ∧ fraction = [] then none
    else some (whole ++ fraction, fraction.length, behind.drop fraction.length)
  | rest => if whole = [] then none else some (whole, 0, rest)

/-- An exponent behind one of its marks; without digits it is not one. -/
def readExponent (mark : Char) (cs : List Char) : Int × List Char :=
  match cs with
  | c :: rest =>
    if c.toLower = mark then
      let (negative, digits) := readSign rest
      let ds := digits.takeWhile Char.isDigit
      if ds = [] then (0, cs)
      else
        let n : Int := Decimal.value ds
        (if negative then -n else n, digits.drop ds.length)
    else (0, cs)
  | [] => (0, cs)

/-- `n * base ^ e` with a sign, rounded; beyond `bound` either way it is infinite or zero. -/
def power (negative : Bool) (n : Nat) (base : Nat) (bound e : Int) : Binary64 :=
  let bounded := max (-bound) (min bound e)
  if 0 ≤ bounded then .ofQuotient negative (n * Nat.pow base bounded.toNat) 1
  else .ofQuotient negative n (Nat.pow base (-bounded).toNat)

def isHexDigit (c : Char) : Bool := (Decimal.hexDigit? c).isSome

/-- The digits behind `0x` or `0X`. -/
def hexBody? : List Char → Option (List Char)
  | '0' :: c :: cs => if c = 'x' ∨ c = 'X' then some cs else none
  | _ => none

/-- A number at the start of a text, decimal or hexadecimal. -/
def readNumber (cs : List Char) : Option (Binary64 × List Char) :=
  let (negative, body) := readSign cs
  match (hexBody? body).bind (readMantissa isHexDigit) with
  | some (ds, places, rest) =>
    let (e, rest) := readExponent 'p' rest
    let bound : Int := 4 * (ds.length : Int) + 2000
    some (power negative ((Decimal.hexValue? ds).getD 0) 2 bound (e - 4 * (places : Int)), rest)
  | none =>
    match readMantissa Char.isDigit body with
    | some (ds, places, rest) =>
      let (e, rest) := readExponent 'e' rest
      let bound : Int := (ds.length : Int) + 2000
      some (power negative (Decimal.value ds) 10 bound (e - (places : Int)), rest)
    | none => none

/-- The number that a text spells, with spaces around it. A zero character ends the text. The names
of infinity and of no number are left out: neither equals a version. -/
def numberOfText (s : String) : Option Binary64 :=
  let cs := s.toList.takeWhile (· ≠ '\x00')
  match readNumber (cs.dropWhile isSpace) with
  | some (x, rest) => if rest.all isSpace then some x else none
  | none => none

/-- A number of a document; one beyond the largest binary64 number is infinite. -/
def numberOfNumeral (n : Numeral) : Binary64 :=
  match n.toInt? with
  | some i => .ofInt i
  | none =>
    let ds := n.whole ++ n.fraction
    let bound : Int := (ds.length : Int) + 2000
    power n.negative (Decimal.value ds) 10 bound (n.exponentValue - (n.fraction.length : Int))

/-- A stored version as a number. -/
def numberOf : Json → Option Binary64
  | .number n => some (numberOfNumeral n)
  | .string s => s.bind numberOfText
  | _ => none

/-- The member `version` of a stored document, the last one if it is repeated. Lists and texts have
no members, and other values cannot be asked for one. -/
def storedVersion : Json → Except String (Option Json)
  | .object members =>
    .ok ((members.filter fun member => member.1 = some "version").getLast?.map (·.2))
  | .array _ => .ok none
  | .string _ => .ok none
  | .number _ => .error "attempt to index a number value"
  | .bool _ => .error "attempt to index a boolean value"
  | .null => .error "attempt to index a userdata value"

/-- The depth of nesting that the script's reader follows. -/
def nestingLimit : Nat := 1000

/-- All literals of the document name texts, and it is nested at most `depth` deep. -/
def isReadable : Nat → Json → Bool
  | _, .null => true
  | _, .bool _ => true
  | _, .number _ => true
  | _, .string s => s.isSome
  | 0, .array _ => false
  | 0, .object _ => false
  | depth + 1, .array items => items.all (isReadable depth)
  | depth + 1, .object members =>
    members.all fun (member : Option String × Json) => member.1.isSome && isReadable depth member.2

/-- The stored bytes are a JSON text. -/
def isJson (stored : List UInt8) : Bool :=
  ((Text.ofBytes? stored).bind fun text => Json.read text.toList).isSome

/-- The stored JSON as a document that the script can read. -/
def decode (stored : List UInt8) : Option Json := do
  let text ← Text.ofBytes? stored
  let document ← Json.read text.toList
  if isReadable nestingLimit document then some document else none

/-- Whether the version in stored JSON equals the expected one as numbers. -/
def compare (stored : List UInt8) (expected : Nat) : Except String Bool :=
  match decode stored with
  | none => .error "the stored value is not JSON"
  | some document =>
    match storedVersion document with
    | .error text => .error text
    | .ok member =>
      match member.bind numberOf with
      | some x => .ok (x.same (.ofInt expected))
      | none => .ok false

end Script

end Redis

end LeaderLease
