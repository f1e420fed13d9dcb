import LeaderLease.Number.Binary64
import LeaderLease.Number.Numeral
import LeaderLease.Toml.Basic

/-!
# TOML numbers and moments

Integers have 64 bits; decimal ones may be signed, and hexadecimal, octal and binary ones are not.
Single underscores may stand between digits. A moment is a date, a time of day, or both with or
without an offset from universal time, and has to exist.
-/

set_option autoImplicit false

namespace LeaderLease.Toml

/-! ## Digits -/

/-- Further digits; an underscore is dropped where a digit follows it. -/
def moreDigits (isDigit : Char → Bool) : List Char → List Char × List Char
  | '_' :: c :: cs =>
    if isDigit c then
      let (ds, rest) := moreDigits isDigit cs
      (c :: ds, rest)
    else ([], '_' :: c :: cs)
  | c :: cs =>
    if isDigit c then
      let (ds, rest) := moreDigits isDigit cs
      (c :: ds, rest)
    else ([], c :: cs)
  | [] => ([], [])

/-- At least one digit. -/
def someDigits (isDigit : Char → Bool) : List Char → Option (List Char × List Char)
  | c :: cs =>
    if isDigit c then
      let (ds, rest) := moreDigits isDigit cs
      some (c :: ds, rest)
    else none
  | [] => none

/-- Exactly `count` digits, as a number from `low` to `high`. -/
def fixedDigits (count low high : Nat) (cs : List Char) : Option (Nat × List Char) :=
  let ds := cs.take count
  if ds.length = count ∧ ds.all Char.isDigit ∧ low ≤ Decimal.value ds ∧ Decimal.value ds ≤ high then
    some (Decimal.value ds, cs.drop count)
  else none

/-! ## Moments -/

def daysInMonth (year month : Nat) : Nat :=
  if month = 2 then (if year % 4 = 0 ∧ (year % 100 ≠ 0 ∨ year % 400 = 0) then 29 else 28)
  else if month = 4 ∨ month = 6 ∨ month = 9 ∨ month = 11 then 30
  else 31

/-- One character. -/
def expect (c : Char) : List Char → Option (List Char)
  | d :: cs => if d = c then some cs else none
  | [] => none

/-- What follows a date. -/
def skipDate (cs : List Char) : Option (List Char) := do
  let (year, cs) ← fixedDigits 4 0 9999 cs
  let cs ← expect '-' cs
  let (month, cs) ← fixedDigits 2 1 12 cs
  let cs ← expect '-' cs
  let (_, cs) ← fixedDigits 2 1 (daysInMonth year month) cs
  some cs

/-- What follows the fraction of a second, if there is one. -/
def skipFraction : List Char → List Char
  | '.' :: c :: cs => if c.isDigit then cs.dropWhile Char.isDigit else '.' :: c :: cs
  | cs => cs

/-- What follows a time of day. -/
def skipTime (cs : List Char) : Option (List Char) := do
  let (_, cs) ← fixedDigits 2 0 23 cs
  let cs ← expect ':' cs
  let (_, cs) ← fixedDigits 2 0 59 cs
  let cs ← expect ':' cs
  let (_, cs) ← fixedDigits 2 0 60 cs
  some (skipFraction cs)

/-- What follows an offset, if there is one; a sign has to lead to an offset. -/
def skipOffset : List Char → Option (List Char)
  | c :: cs =>
    if c = 'Z' ∨ c = 'z' then some cs
    else if c = '+' ∨ c = '-' then do
      let (_, cs) ← fixedDigits 2 0 23 cs
      let cs ← expect ':' cs
      let (_, cs) ← fixedDigits 2 0 59 cs
      some cs
    else some (c :: cs)
  | [] => some []

/-- What follows a moment. -/
def skipMoment (cs : List Char) : Option (List Char) :=
  match skipDate cs with
  | none => skipTime cs
  | some rest =>
    match rest with
    | c :: afterMark =>
      if c = 'T' ∨ c = 't' ∨ c = ' ' then
        match skipTime afterMark with
        | some rest => skipOffset rest
        | none => some rest
      else some rest
    | [] => some []

/-! ## Numbers -/

/-- The decimal number is rounded to infinity. -/
def isTooLarge (n : Numeral) : Bool :=
  let size := Decimal.value (n.whole ++ n.fraction)
  let scale := n.exponentValue - (n.fraction.length : Int)
  let top := ((Decimal.digits size).length : Int) + scale
  if size = 0 ∨ top < 309 then false
  else if 309 < top then true
  else (Magnitude.nearest (size * Nat.pow 10 scale.toNat) (Nat.pow 10 (-scale).toNat)).isNone

/-- Digits of an integer without leading zeros. -/
def readWhole : List Char → Option (List Char × List Char)
  | '0' :: cs => some (['0'], cs)
  | cs => someDigits Char.isDigit cs

def readFraction : List Char → Option (List Char × List Char)
  | '.' :: cs => someDigits Char.isDigit cs
  | cs => some ([], cs)

def readExponent : List Char → Option (List Char × List Char)
  | c :: cs =>
    if c = 'e' ∨ c = 'E' then do
      let (sign, cs) := Numeral.readSign cs
      let (ds, cs) ← someDigits Char.isDigit cs
      some (sign ++ ds, cs)
    else some ([], c :: cs)
  | [] => some ([], [])

/-- A decimal number without its sign. Only a positive one can be too large. -/
def readDecimal (negative : Bool) (cs : List Char) : Option (Toml × List Char) := do
  let (whole, cs) ← readWhole cs
  let (fraction, cs) ← readFraction cs
  let (exponent, cs) ← readExponent cs
  let n : Numeral := ⟨negative, whole, fraction, exponent⟩
  if n.isInteger then
    let size := Decimal.value whole
    if negative then if size ≤ Nat.pow 2 63 then some (.int (-(size : Int)), cs) else none
    else if size < Nat.pow 2 63 then some (.int size, cs)
    else none
  else if negative || !isTooLarge n then some (.real n.text, cs)
  else none

def isHexDigit (c : Char) : Bool := (Decimal.hexDigit? c).isSome

def isOctalDigit (c : Char) : Bool := '0' ≤ c && c ≤ '7'

def isBinaryDigit (c : Char) : Bool := c = '0' || c = '1'

/-- Digits of an integer in a base, below `2 ^ 63`. -/
def readBased (base : Nat) (isDigit : Char → Bool) (cs : List Char) :
    Option (Toml × List Char) := do
  let (ds, cs) ← someDigits isDigit cs
  let n := ds.foldl (fun sum c => base * sum + (Decimal.hexDigit? c).getD 0) 0
  if n < Nat.pow 2 63 then some (.int n, cs) else none

/-- A number, or the words for numbers that are not finite. -/
def readNumber : List Char → Option (Toml × List Char)
  | '0' :: 'x' :: cs => readBased 16 isHexDigit cs
  | '0' :: 'o' :: cs => readBased 8 isOctalDigit cs
  | '0' :: 'b' :: cs => readBased 2 isBinaryDigit cs
  | cs =>
    match Numeral.readSign cs with
    | (sign, 'i' :: 'n' :: 'f' :: rest) => some (.real (sign ++ ['i', 'n', 'f']), rest)
    | (sign, 'n' :: 'a' :: 'n' :: rest) => some (.real (sign ++ ['n', 'a', 'n']), rest)
    | (sign, rest) => readDecimal (sign = ['-']) rest

/-- A truth value, a moment or a number. -/
def readScalar : List Char → Option (Toml × List Char)
  | 't' :: 'r' :: 'u' :: 'e' :: cs => some (.bool true, cs)
  | 'f' :: 'a' :: 'l' :: 's' :: 'e' :: cs => some (.bool false, cs)
  | cs =>
    match skipMoment cs with
    | some rest => some (.moment (cs.take (cs.length - rest.length)), rest)
    | none => readNumber cs

end LeaderLease.Toml
