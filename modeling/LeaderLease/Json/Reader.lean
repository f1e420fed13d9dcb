import LeaderLease.Json.Basic

/-!
# Reading JSON

`Json.read` accepts exactly one document with blanks around it. Nesting is not bounded here: a limit
belongs to the reader of a value, and a member that nobody reads may be nested to any depth. The
fuel counts steps; each step but one consumes a character, so twice the length of the text suffices.
-/

set_option autoImplicit false

namespace LeaderLease

namespace Json

/-! ## String literals -/

def isHighHalf (code : Nat) : Bool := 0xD800 ≤ code && code < 0xDC00

def isLowHalf (code : Nat) : Bool := 0xDC00 ≤ code && code < 0xE000

/-- Joins the halves of surrogate pairs; a lone half names no character. -/
def joinHalves (done : List Char) : List Nat → Option (List Char)
  | [] => some done.reverse
  | [code] =>
    if isHighHalf code || isLowHalf code then none else some (Char.ofNat code :: done).reverse
  | code :: next :: rest =>
    if isHighHalf code then
      if isLowHalf next then
        joinHalves (Char.ofNat (0x10000 + (code - 0xD800) * 0x400 + (next - 0xDC00)) :: done) rest
      else none
    else if isLowHalf code then none
    else joinHalves (Char.ofNat code :: done) (next :: rest)

/-- The character that a one-letter escape stands for. -/
def shortEscape? : Char → Option Char
  | '"' => some '"'
  | '\\' => some '\\'
  | '/' => some '/'
  | 'b' => some '\x08'
  | 'f' => some '\x0c'
  | 'n' => some '\n'
  | 'r' => some '\r'
  | 't' => some '\t'
  | _ => none

/-- The codes of a literal up to its closing quote, and what follows it. -/
def readCodes (done : List Nat) : List Char → Option (List Nat × List Char)
  | [] => none
  | '"' :: rest => some (done.reverse, rest)
  | '\\' :: 'u' :: a :: b :: c :: d :: rest =>
    match Decimal.hexValue? [a, b, c, d] with
    | some code => readCodes (code :: done) rest
    | none => none
  | '\\' :: c :: rest =>
    match shortEscape? c with
    | some e => readCodes (e.toNat :: done) rest
    | none => none
  | c :: rest => if c = '\\' ∨ c.toNat < 0x20 then none else readCodes (c.toNat :: done) rest

/-- The rest of a string literal behind its opening quote. -/
def readString (cs : List Char) : Option (Option String × List Char) :=
  (readCodes [] cs).map fun (codes, rest) => ((joinHalves [] codes).map String.ofList, rest)

/-! ## Values -/

def isSpace (c : Char) : Bool := c = ' ' || c = '\t' || c = '\n' || c = '\r'

def skipSpace (cs : List Char) : List Char := cs.dropWhile isSpace

mutual

/-- One value at the start of a text without leading blanks. -/
def readValue : Nat → List Char → Option (Json × List Char)
  | 0, _ => none
  | fuel + 1, cs =>
    match cs with
    | 'n' :: 'u' :: 'l' :: 'l' :: rest => some (.null, rest)
    | 't' :: 'r' :: 'u' :: 'e' :: rest => some (.bool true, rest)
    | 'f' :: 'a' :: 'l' :: 's' :: 'e' :: rest => some (.bool false, rest)
    | '"' :: rest => (readString rest).map fun (s, rest) => (.string s, rest)
    | '[' :: rest =>
      match skipSpace rest with
      | ']' :: rest => some (.array [], rest)
      | rest => (readItems fuel [] rest).map fun (items, rest) => (.array items, rest)
    | '{' :: rest =>
      match skipSpace rest with
      | '}' :: rest => some (.object [], rest)
      | rest => (readMembers fuel [] rest).map fun (members, rest) => (.object members, rest)
    | cs => (Numeral.read cs).map fun (n, rest) => (.number n, rest)

/-- The items from here to the closing bracket. -/
def readItems : Nat → List Json → List Char → Option (List Json × List Char)
  | 0, _, _ => none
  | fuel + 1, done, cs =>
    match readValue fuel cs with
    | none => none
    | some (item, rest) =>
      match skipSpace rest with
      | ',' :: rest => readItems fuel (item :: done) (skipSpace rest)
      | ']' :: rest => some ((item :: done).reverse, rest)
      | _ => none

/-- The members from here to the closing brace. -/
def readMembers :
    Nat → List (Option String × Json) → List Char → Option (List (Option String × Json) × List Char)
  | 0, _, _ => none
  | fuel + 1, done, cs =>
    match cs with
    | '"' :: rest =>
      match readString rest with
      | none => none
      | some (key, rest) =>
        match skipSpace rest with
        | ':' :: rest =>
          match readValue fuel (skipSpace rest) with
          | none => none
          | some (value, rest) =>
            match skipSpace rest with
            | ',' :: rest => readMembers fuel ((key, value) :: done) (skipSpace rest)
            | '}' :: rest => some (((key, value) :: done).reverse, rest)
            | _ => none
        | _ => none
    | _ => none

end

/-- A whole text as one document. -/
def read (cs : List Char) : Option Json :=
  match readValue (2 * cs.length + 2) (skipSpace cs) with
  | some (value, rest) => if skipSpace rest = [] then some value else none
  | none => none

end Json

end LeaderLease
