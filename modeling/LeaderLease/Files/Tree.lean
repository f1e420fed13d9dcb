import LeaderLease.Files.System

/-!
# File trees

A file system given by its files and directories. A path is followed one part at a time from the
working directory or from the root, and everything but its last part has to be a directory; a slash
at the end asks for a directory too.
-/

set_option autoImplicit false

namespace LeaderLease

structure FileTree where
  /-- The working directory, as its names from the root. -/
  current : List String
  files : List (List String × List UInt8)
  directories : List (List String)
deriving Repr

namespace FileTree

/-- The names of a path; empty ones stand for doubled slashes and for one at the end. -/
def splitPath (path : String) : List String :=
  (path.toList.splitOn '/').map String.ofList

def isAbsolute (path : String) : Bool := path.toList.head? = some '/'

/-- Names that count: neither empty nor the directory itself. -/
def plainNames (path : String) : List String :=
  (splitPath path).filter fun name => name ≠ "" && name ≠ "."

/-- A tree of files and directories named relative to the working directory. -/
def ofEntries (current : List String) (files : List (String × List UInt8))
    (directories : List String) : FileTree where
  current
  files := files.map fun (path, bytes) => (current ++ plainNames path, bytes)
  directories := current :: directories.map fun path => current ++ plainNames path

/-- What is found at a place. The directories around a file or a directory exist. -/
def node? (t : FileTree) (place : List String) : Option FileNode :=
  match t.files.lookup place with
  | some bytes => some (.file bytes)
  | none =>
    if place = [] ∨ (t.files.any fun file => place.isPrefixOf file.1) ∨
        (t.directories.any fun directory => place.isPrefixOf directory)
    then some .directory else none

/-- The longest name, in bytes. -/
def nameLimit : Nat := 255

/-- The first length of a path that is refused, in bytes. -/
def pathLimit : Nat := 4096

/-- Follows the names from a place that exists. -/
def follow (t : FileTree) : List String → List String → Except FileError (List String)
  | [], place => .ok place
  | name :: names, place =>
    match t.node? place with
    | none => .error .absent
    | some (.file _) => .error .notDirectory
    | some .directory =>
      if name = "" ∨ name = "." then t.follow names place
      else if name = ".." then t.follow names place.dropLast
      else if nameLimit < name.utf8ByteSize then .error .nameTooLong
      else
        match t.node? (place ++ [name]) with
        | none => .error .absent
        | some _ => t.follow names (place ++ [name])

def resolve (t : FileTree) (path : String) : Except FileError (List String) :=
  if path.toList.contains '\x00' then .error .badName
  else if path = "" then .error .absent
  else if pathLimit ≤ path.utf8ByteSize then .error .nameTooLong
  else t.follow (splitPath path) (if isAbsolute path then [] else t.current)

/-- What is found under each path. -/
def system (t : FileTree) : FileSystem := fun path =>
  match t.resolve path with
  | .error e => .error e
  | .ok place =>
    match t.node? place with
    | some node => .ok node
    | none => .error .absent

end FileTree

end LeaderLease
