import Mathlib.Data.Nat.Notation

/-!
# Files as the code observes them

Regular files with their contents and inode data, symbolic links, and what the
metadata calls return. An identity is all the code compares of a file.
-/

namespace OpenTfMirror.FileStore

abbrev Bytes := List UInt8

/-- `std::io::Error`, with the one kind that the code tells apart. -/
inductive IoError where
  | notFound
  | other (message : String)
  deriving DecidableEq, Repr

/-- `FileIdentity`. -/
structure FileIdentity where
  len : ℕ
  modified : Option ℕ
  dev : ℕ
  ino : ℕ
  deriving DecidableEq, Repr

/-- A regular file. -/
structure File where
  bytes : Bytes
  modified : Option ℕ
  dev : ℕ
  ino : ℕ
  deriving DecidableEq, Repr

/-- `FileIdentity::from_metadata`. -/
def File.identity (file : File) : FileIdentity :=
  ⟨file.bytes.length, file.modified, file.dev, file.ino⟩

/-- What stands at a path. -/
inductive Node where
  | regular (file : File)
  /-- A link, with the regular file that opening it reaches. -/
  | symlink (target : Option File)
  | other
  deriving DecidableEq, Repr

/-- The file that opening the path reads, if any. -/
def Node.opened : Node → Option File
  | .regular file => some file
  | .symlink target => target
  | .other => none

end OpenTfMirror.FileStore
