import LeaderLease.Json.Basic

/-!
# Generated identities

An identity made from sixteen random bytes, as 32 hexadecimal digits in five groups. Four bits of
the seventh byte and two of the ninth are fixed, to tell that the others are random.
-/

set_option autoImplicit false

namespace LeaderLease

namespace Identity

/-- How many digits there are in each group. -/
def groups : List Nat := [8, 4, 4, 4, 12]

def byteText (b : UInt8) : List Char := [Json.hexDigit (b.toNat / 16), Json.hexDigit (b.toNat % 16)]

/-- Puts the fixed bits into place. -/
def marked (bytes : List UInt8) : List UInt8 :=
  (bytes.modify 6 fun b => b % 16 + 0x40).modify 8 fun b => b % 64 + 0x80

/-- Characters in groups of given lengths. -/
def split : List Nat → List Char → List (List Char)
  | [], _ => []
  | n :: ns, cs => cs.take n :: split ns (cs.drop n)

def ofBytes (bytes : List UInt8) : String :=
  String.ofList (List.intercalate ['-'] (split groups ((marked bytes).flatMap byteText)))

end Identity

end LeaderLease
