import LeaderLease.Toml.Basic

/-!
# Sections of a TOML document

A document is a row of sections: pairs without a header first, then pairs under headers. `Node` is a
table under construction. It tells how a table came about, because that decides what may still be
put into it: a table that a header or a literal stated is stated once, one that only stands in the
way of a longer key or header may be stated later or entered by others of its kind.
-/

set_option autoImplicit false

namespace LeaderLease.Toml

/-- How a table came about. -/
inductive Origin where
  /-- By its own header. -/
  | stated
  /-- On the way of a longer header. -/
  | implied
  /-- On the way of a dotted key. -/
  | dotted
deriving DecidableEq, Repr

inductive Node where
  | value (v : Toml)
  | table (origin : Origin) (members : List (String × Node))
  /-- An array of tables, the latest first; never empty. -/
  | tables (items : List (List (String × Node)))

abbrev Members : Type := List (String × Node)

/-- A dotted key, its last part apart, and the value. -/
structure Pair where
  path : List String
  key : String
  value : Toml

structure Header where
  path : List String
  key : String
  /-- The header adds a table to an array of tables. -/
  isItem : Bool

structure Section where
  header : Option Header
  pairs : List Pair

namespace Members

/-- Replaces the node of a key that is present. -/
def replace (key : String) (node : Node) : Members → Members
  | [] => []
  | member :: members =>
    if member.1 = key then (key, node) :: members else member :: replace key node members

/-- Puts a value under a dotted key. The tables on the way must not be stated, and the last of them
must come from a dotted key as well. -/
def putValue (key : String) (v : Toml) : List String → Members → Option Members
  | [], members =>
    match members.lookup key with
    | none => some (members ++ [(key, .value v)])
    | some _ => none
  | part :: path, members =>
    match members.lookup part with
    | none => (putValue key v path []).map fun inner => members ++ [(part, .table .dotted inner)]
    | some (.table origin inner) =>
      if origin = .stated ∨ (path = [] ∧ origin ≠ .dotted) then none
      else (putValue key v path inner).map fun inner =>
        replace part (.table origin inner) members
    | some (.tables (latest :: earlier)) =>
      if path = [] then none
      else (putValue key v path latest).map fun latest =>
        replace part (.tables (latest :: earlier)) members
    | some (.tables []) | some (.value _) => none

/-- The pairs of a section, put into its table one after the other. -/
def putPairs (pairs : List Pair) (members : Members) : Option Members :=
  pairs.foldlM (fun members pair => putValue pair.key pair.value pair.path members) members

/-- Changes the members of the table that a header's path leads to; tables on the way that do not
exist are implied. -/
def within (f : Members → Option Members) : List String → Members → Option Members
  | [], members => f members
  | part :: path, members =>
    match members.lookup part with
    | none => (within f path []).map fun inner => members ++ [(part, .table .implied inner)]
    | some (.table origin inner) =>
      (within f path inner).map fun inner => replace part (.table origin inner) members
    | some (.tables (latest :: earlier)) =>
      (within f path latest).map fun latest => replace part (.tables (latest :: earlier)) members
    | some (.tables []) | some (.value _) => none

/-- States a table with its pairs. Only an implied table may be there already. -/
def state (key : String) (pairs : List Pair) (members : Members) : Option Members :=
  match members.lookup key with
  | none => (putPairs pairs []).map fun inner => members ++ [(key, .table .stated inner)]
  | some (.table .implied inner) =>
    (putPairs pairs inner).map fun inner => replace key (.table .stated inner) members
  | some _ => none

/-- Adds a table with its pairs to an array of tables. -/
def addItem (key : String) (pairs : List Pair) (members : Members) : Option Members :=
  match members.lookup key with
  | none => (putPairs pairs []).map fun item => members ++ [(key, .tables [item])]
  | some (.tables items) =>
    (putPairs pairs []).map fun item => replace key (.tables (item :: items)) members
  | some _ => none

def putSection (members : Members) (s : Section) : Option Members :=
  match s.header with
  | none => putPairs s.pairs members
  | some h =>
    within (if h.isItem then addItem h.key s.pairs else state h.key s.pairs) h.path members

end Members

mutual

def Node.toToml : Node → Toml
  | .value v => v
  | .table _ members => .table (membersToToml members)
  | .tables items => .list (itemsToToml items).reverse

def membersToToml : List (String × Node) → List (String × Toml)
  | [] => []
  | (key, node) :: members => (key, node.toToml) :: membersToToml members

def itemsToToml : List (List (String × Node)) → List Toml
  | [] => []
  | members :: items => .table (membersToToml members) :: itemsToToml items

end

/-- The table that a row of sections describes, if they fit together. -/
def ofSections? (sections : List Section) : Option Toml :=
  (sections.foldlM Members.putSection []).map fun members => .table (membersToToml members)

/-- The table of a literal on one line. -/
def ofPairs? (pairs : List Pair) : Option Toml := ofSections? [⟨none, pairs⟩]

end LeaderLease.Toml
