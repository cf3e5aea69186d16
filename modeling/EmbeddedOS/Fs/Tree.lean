import EmbeddedOS.Stdlib.Strings

/-!
# The tree of directories in memory

`fs_tree`, `FILE` and their union `fs_entry`, as `populate_recur` builds them and `traverse_fs`
reads them. Nothing in the union says which member it holds; that is in the `type` array beside
it. A reader that takes a `FILE` for an `fs_tree` finds the fields of the latter among the
characters of the name, with which a `FILE` begins.
-/

namespace EmbeddedOS
namespace Fs

open Stdlib

/-! ## Nodes -/

/-- What `populate_recur` sets in a `FILE`; `name` is the whole array, of 256 characters. -/
structure FileNode where
  name : List UInt8
  hash : UInt32
  inode : UInt32
  size : UInt32
  create_time : UInt32
  access_time : UInt32
  modify_time : UInt32
  flags : UInt32
  nlink : UInt32
deriving DecidableEq, Repr

mutual

/-- `fs_tree`; the two arrays of `n_entries` elements are one list. -/
inductive FsTree where
  | mk (name : List UInt8) (hash : UInt32) (inode : UInt32) (entries : List FsEntry)

/-- An element of `type` and `entries`: a file, a directory, or another type beside a `NULL`. -/
inductive FsEntry where
  | file (file : FileNode)
  | dir (dir : FsTree)
  | unknown

end

namespace FsTree

def name : FsTree → List UInt8
  | mk name _ _ _ => name

def hash : FsTree → UInt32
  | mk _ hash _ _ => hash

def inode : FsTree → UInt32
  | mk _ _ inode _ => inode

def entries : FsTree → List FsEntry
  | mk _ _ _ entries => entries

end FsTree

abbrev FS_FILE : UInt8 := 1
abbrev FS_DIR : UInt8 := 2

/-! ## Names -/

/-- The string at the start of an array of characters. -/
def cstring (chars : List UInt8) : List UInt8 :=
  chars.takeWhile (· != 0)

theorem cstring_of_nonzero {chars : List UInt8} (h : 0 ∉ chars) : cstring chars = chars := by
  rw [cstring, List.takeWhile_eq_self_iff]
  intro c hc
  have hne : c ≠ 0 := fun heq => h (heq ▸ hc)
  simpa using hne

/-- The name of an entry that has one. -/
def FsEntry.name : FsEntry → Option (List UInt8)
  | .file f => some (cstring f.name)
  | .dir d => some d.name
  | .unknown => none

/-- The entry's element of `type`, for the types that have an entry. -/
def FsEntry.type : FsEntry → UInt8
  | .file _ => FS_FILE
  | .dir _ => FS_DIR
  | .unknown => 0

/-- Every node carries the hash of its name, all the way down. -/
inductive Populated : FsTree → Prop
  | mk {d : FsTree} (files : ∀ f, .file f ∈ d.entries → f.hash = hash32 (cstring f.name))
      (dirs : ∀ d', .dir d' ∈ d.entries → d'.hash = hash32 d'.name)
      (below : ∀ d', .dir d' ∈ d.entries → Populated d') : Populated d

/-! ## A file read as a directory -/

/-- The little-endian word of `n` characters of a file's name, from position `i`. -/
def FileNode.word (f : FileNode) (i n : Nat) : Nat :=
  ((f.name.drop i).take n).foldr (fun c w => c.toNat + 256 * w) 0

/-- The offsets of `hash`, `n_entries` and `entries` in an `fs_tree`. -/
def FileNode.asHash (f : FileNode) : UInt32 := UInt32.ofNat (f.word 8 4)
def FileNode.asCount (f : FileNode) : Nat := f.word 16 4
def FileNode.asEntries (f : FileNode) : Nat := f.word 32 8

/-- `entries[j]->dir->hash`: undefined for a `NULL` entry. -/
def FsEntry.dirHash : FsEntry → Option UInt32
  | .dir d => some d.hash
  | .file f => some f.asHash
  | .unknown => none

end Fs
end EmbeddedOS
