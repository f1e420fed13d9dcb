/-!
# Blank characters

`isBlank` is the Unicode property `White_Space`, and `trim` removes blank characters from both
ends of a text. Every character that Lean's own `Char.isWhitespace` accepts is blank.
-/

set_option autoImplicit false

namespace LeaderLease.Text

/-- The code points with the property `White_Space`, as closed ranges. -/
def blankRanges : List (Nat × Nat) :=
  [(0x9, 0xD), (0x20, 0x20), (0x85, 0x85), (0xA0, 0xA0), (0x1680, 0x1680), (0x2000, 0x200A),
    (0x2028, 0x2029), (0x202F, 0x202F), (0x205F, 0x205F), (0x3000, 0x3000)]

def isBlank (c : Char) : Bool :=
  blankRanges.any fun range => range.1 ≤ c.toNat && c.toNat ≤ range.2

def trimStart (cs : List Char) : List Char := cs.dropWhile isBlank

def trimEnd (cs : List Char) : List Char := (cs.reverse.dropWhile isBlank).reverse

def trim (cs : List Char) : List Char := trimEnd (trimStart cs)

/-- A text with its blank ends removed. -/
def trimmed (s : String) : String := String.ofList (trim s.toList)

/-- Only the letters A to Z change. -/
def lowerAscii (s : String) : String := String.ofList (s.toList.map Char.toLower)

theorem isBlank_of_isWhitespace (c : Char) (h : c.isWhitespace = true) : isBlank c = true := by
  have e : c = ' ' ∨ c = '\t' ∨ c = '\r' ∨ c = '\n' := by
    simpa [Char.isWhitespace, or_assoc] using h
  rcases e with rfl | rfl | rfl | rfl <;> decide

end LeaderLease.Text
