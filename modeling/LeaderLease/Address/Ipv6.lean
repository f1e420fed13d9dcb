import LeaderLease.Number.Decimal

/-!
# IPv6 addresses in text

`Ipv6.isAddress` checks the eight groups of up to four hexadecimal digits, where one double colon
may stand for missing groups and a dotted IPv4 address for the last two.
-/

set_option autoImplicit false

namespace LeaderLease.Ipv6

/-- A decimal number up to 255 without leading zeros. -/
def isOctet (cs : List Char) : Bool :=
  cs ≠ [] && cs.all Char.isDigit && (cs = ['0'] || cs.head? ≠ some '0') &&
    cs.length ≤ 3 && Decimal.value cs ≤ 255

def isDotted (cs : List Char) : Bool :=
  let parts := cs.splitOn '.'
  parts.length = 4 && parts.all isOctet

def isGroup (cs : List Char) : Bool :=
  cs ≠ [] && cs.length ≤ 4 && cs.all fun c => (Decimal.hexDigit? c).isSome

/-- How many groups colon-separated parts fill, if all are groups; the last may be dotted when
`dotted` is set. -/
def groupCount (dotted : Bool) (parts : List (List Char)) : Option Nat :=
  match parts.reverse with
  | [] => some 0
  | last :: rest =>
    if rest.all isGroup then
      if isGroup last then some parts.length
      else if dotted && isDotted last then some (parts.length + 1)
      else none
    else none

/-- Splits at the first double colon. -/
def splitGap : List Char → Option (List Char × List Char)
  | ':' :: ':' :: cs => some ([], cs)
  | c :: cs => (splitGap cs).map fun (before, after) => (c :: before, after)
  | [] => none

def countIn (dotted : Bool) (cs : List Char) : Option Nat :=
  if cs = [] then some 0 else groupCount dotted (cs.splitOn ':')

def isAddress (cs : List Char) : Bool :=
  match splitGap cs with
  | some (before, after) =>
    match countIn false before, countIn true after with
    | some m, some n => m + n ≤ 7
    | _, _ => false
  | none => countIn true cs = some 8

end LeaderLease.Ipv6
