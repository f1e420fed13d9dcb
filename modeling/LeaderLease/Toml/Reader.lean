import LeaderLease.Toml.Literal
import LeaderLease.Toml.Scalar
import LeaderLease.Toml.Section

/-!
# Reading TOML

`Toml.read` accepts a whole document: lines that are blank, comments, headers in brackets, or pairs
of a key and a value. A byte order mark may stand at its start. Arrays may go over several lines and
end in a comma; tables on one line may not. The fuel counts steps, and every step but one for each
value consumes a character.
-/

set_option autoImplicit false

namespace LeaderLease.Toml

/-- A dotted key as a path and its last part. -/
def splitKey : List String → Option (List String × String)
  | [] => none
  | [key] => some ([], key)
  | part :: parts => (splitKey parts).map fun (path, key) => (part :: path, key)

mutual

/-- A value inside `depth` levels of nesting. -/
def readValue : Nat → Nat → List Char → Option (Toml × List Char)
  | 0, _, _ => none
  | fuel + 1, depth, cs =>
    match cs with
    | '[' :: rest =>
      if depth + 1 < depthLimit then
        (readItems fuel (depth + 1) [] rest).map fun (items, rest) => (.list items, rest)
      else none
    | '{' :: rest =>
      if depth + 1 < depthLimit then
        match skipSpace rest with
        | '}' :: rest => some (.table [], rest)
        | rest => do
          let (pairs, rest) ← readPairs fuel (depth + 1) [] rest
          (ofPairs? pairs).map fun table => (table, rest)
      else none
    | '"' :: _ | '\'' :: _ => (readText cs).map fun (s, rest) => (.text s, rest)
    | _ => readScalar cs

/-- The items from here to the closing bracket. -/
def readItems : Nat → Nat → List Toml → List Char → Option (List Toml × List Char)
  | 0, _, _, _ => none
  | fuel + 1, depth, done, cs =>
    match skipLines false cs with
    | none => none
    | some (']' :: rest) => some (done.reverse, rest)
    | some cs =>
      match readValue fuel depth cs with
      | none => none
      | some (item, rest) =>
        match skipLines false rest with
        | some (',' :: rest) => readItems fuel depth (item :: done) rest
        | some (']' :: rest) => some ((item :: done).reverse, rest)
        | _ => none

/-- The pairs from here to the closing brace. -/
def readPairs : Nat → Nat → List Pair → List Char → Option (List Pair × List Char)
  | 0, _, _, _ => none
  | fuel + 1, depth, done, cs =>
    match readKey cs with
    | some (parts, '=' :: rest) =>
      match splitKey parts, readValue fuel depth (skipSpace rest) with
      | some (path, key), some (value, rest) =>
        match skipSpace rest with
        | ',' :: rest => readPairs fuel depth (⟨path, key, value⟩ :: done) rest
        | '}' :: rest => some ((⟨path, key, value⟩ :: done).reverse, rest)
        | _ => none
      | _, _ => none
    | _ => none

end

/-- A line with a pair, its end included. -/
def readPair (cs : List Char) : Option (Pair × List Char) := do
  let (parts, rest) ← readKey cs
  let (path, key) ← splitKey parts
  let rest ← expect '=' rest
  let (value, rest) ← readValue (2 * rest.length + 2) 0 (skipSpace rest)
  let rest ← endLine false rest
  some (⟨path, key, value⟩, rest)

/-- A header behind its opening brackets, the end of its line included. -/
def readHeader (isItem : Bool) (cs : List Char) : Option (Header × List Char) := do
  let (parts, rest) ← readKey cs
  let (path, key) ← splitKey parts
  let rest ← expect ']' rest
  let rest ← if isItem then expect ']' rest else some rest
  let rest ← endLine false rest
  some (⟨path, key, isItem⟩, rest)

/-- The sections from here on. The one under way has its pairs in reverse. -/
def readSections : Nat → Section → List Char → Option (List Section)
  | 0, _, _ => none
  | fuel + 1, current, cs =>
    let finished : Section := ⟨current.header, current.pairs.reverse⟩
    match skipSpace cs with
    | [] => some [finished]
    | '\n' :: rest => readSections fuel current rest
    | '\r' :: '\n' :: rest => readSections fuel current rest
    | '#' :: rest => (endLine true rest).bind (readSections fuel current)
    | '[' :: '[' :: rest => do
      let (header, rest) ← readHeader true rest
      let sections ← readSections fuel ⟨some header, []⟩ rest
      some (finished :: sections)
    | '[' :: rest => do
      let (header, rest) ← readHeader false rest
      let sections ← readSections fuel ⟨some header, []⟩ rest
      some (finished :: sections)
    | rest => do
      let (pair, rest) ← readPair rest
      readSections fuel ⟨current.header, pair :: current.pairs⟩ rest

def dropMark : List Char → List Char
  | '\ufeff' :: cs => cs
  | cs => cs

/-- The table that a document describes. -/
def read (s : String) : Option Toml := do
  let cs := dropMark s.toList
  ofSections? (← readSections (cs.length + 1) ⟨none, []⟩ cs)

end LeaderLease.Toml
