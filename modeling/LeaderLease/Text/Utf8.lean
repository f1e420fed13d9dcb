/-!
# Byte texts

A text and its UTF-8 bytes, the reading of bytes that may be ill formed, and percent-encoding.
`lossy` puts the replacement character in place of every longest start of a sequence that does not
lead to a character.
-/

set_option autoImplicit false

namespace LeaderLease.Text

def bytes (s : String) : List UInt8 := s.toByteArray.data.toList

/-- The text that the bytes encode, if they are well formed. -/
def ofBytes? (bs : List UInt8) : Option String := String.fromUTF8? ⟨bs.toArray⟩

theorem ofBytes?_bytes (s : String) : ofBytes? (bytes s) = some s := by
  have same : (⟨(bytes s).toArray⟩ : ByteArray) = s.toByteArray := by
    rw [bytes, Array.toArray_toList]
  rw [ofBytes?, same, String.fromUTF8?, dif_pos s.isValidUTF8]
  rfl

def replacement : Char := '\ufffd'

/-- For the first byte of a longer sequence: how many bytes follow, the bits it contributes, and the
range of the second byte. -/
def leadByte? (b : Nat) : Option (Nat × Nat × Nat × Nat) :=
  if 0xC2 ≤ b ∧ b ≤ 0xDF then some (1, b - 0xC0, 0x80, 0xBF)
  else if b = 0xE0 then some (2, 0, 0xA0, 0xBF)
  else if b = 0xED then some (2, 0xD, 0x80, 0x9F)
  else if 0xE1 ≤ b ∧ b ≤ 0xEF then some (2, b - 0xE0, 0x80, 0xBF)
  else if b = 0xF0 then some (3, 0, 0x90, 0xBF)
  else if 0xF1 ≤ b ∧ b ≤ 0xF3 then some (3, b - 0xF0, 0x80, 0xBF)
  else if b = 0xF4 then some (3, 4, 0x80, 0x8F)
  else none

/-- Takes `count` further bytes, the first one within the given range: the code, if all are there,
and the bytes that were not taken. -/
def takeTail : Nat → Nat → Nat → Nat → List UInt8 → Option Nat × List UInt8
  | 0, code, _, _, bs => (some code, bs)
  | _ + 1, _, _, _, [] => (none, [])
  | count + 1, code, low, high, b :: bs =>
    if low ≤ b.toNat ∧ b.toNat ≤ high then
      takeTail count (code * 64 + (b.toNat - 0x80)) 0x80 0xBF bs
    else (none, b :: bs)

def lossyFrom : Nat → List UInt8 → List Char
  | 0, _ => []
  | _, [] => []
  | fuel + 1, b :: bs =>
    if b.toNat < 0x80 then Char.ofNat b.toNat :: lossyFrom fuel bs
    else
      match leadByte? b.toNat with
      | none => replacement :: lossyFrom fuel bs
      | some (count, bits, low, high) =>
        match takeTail count bits low high bs with
        | (some code, rest) => Char.ofNat code :: lossyFrom fuel rest
        | (none, rest) => replacement :: lossyFrom fuel rest

def lossy (bs : List UInt8) : String := String.ofList (lossyFrom bs.length bs)

/-- The value of a byte that is a hexadecimal digit. -/
def hexByte? (b : UInt8) : Option UInt8 :=
  if 0x30 ≤ b ∧ b ≤ 0x39 then some (b - 0x30)
  else if 0x61 ≤ b ∧ b ≤ 0x66 then some (b - 0x57)
  else if 0x41 ≤ b ∧ b ≤ 0x46 then some (b - 0x37)
  else none

/-- Replaces a percent sign and two hexadecimal digits by the byte they name. -/
def percentDecode : List UInt8 → List UInt8
  | [] => []
  | 0x25 :: a :: b :: bs =>
    match hexByte? a, hexByte? b with
    | some high, some low => (high * 16 + low) :: percentDecode bs
    | _, _ => 0x25 :: percentDecode (a :: b :: bs)
  | b :: bs => b :: percentDecode bs

end LeaderLease.Text
