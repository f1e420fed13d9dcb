import LeaderLease.Text.Utf8

/-!
# File systems

A file system is what a process finds under each path: a file with its bytes, a directory, or the
reason why there is neither. A path exists if something is found under it, and only files can be
read.
-/

set_option autoImplicit false

namespace LeaderLease

inductive FileError where
  | absent
  | notDirectory
  | isDirectory
  | nameTooLong
  /-- The path contains the character with code zero. -/
  | badName
  /-- The bytes are not a text. -/
  | notText
deriving DecidableEq, Repr

def FileError.message : FileError → String
  | .absent => "No such file or directory (os error 2)"
  | .notDirectory => "Not a directory (os error 20)"
  | .isDirectory => "Is a directory (os error 21)"
  | .nameTooLong => "File name too long (os error 36)"
  | .badName => "file name contained an unexpected NUL byte"
  | .notText => "stream did not contain valid UTF-8"

inductive FileNode where
  | file (bytes : List UInt8)
  | directory
deriving Repr

abbrev FileSystem : Type := String → Except FileError FileNode

namespace FileSystem

def has (fs : FileSystem) (path : String) : Bool :=
  match fs path with
  | .ok _ => true
  | .error _ => false

def readText (fs : FileSystem) (path : String) : Except FileError String :=
  match fs path with
  | .error e => .error e
  | .ok .directory => .error .isDirectory
  | .ok (.file bytes) =>
    match Text.ofBytes? bytes with
    | some s => .ok s
    | none => .error .notText

end FileSystem

end LeaderLease
