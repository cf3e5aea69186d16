import EmbeddedOS.Base.MachineInt
import EmbeddedOS.Fs.DirEntry
import EmbeddedOS.Fs.Tree

/-!
# Mounting: the tree read from the disk

`populate_recur` and `populate_fs` of `fs/ext2/ext2.c` on the bytes of a partition. What a block
from `new` holds before it is written is up to the heap and a parameter; blocks are told apart by
the path of record numbers that leads to the record they are taken for. A read outside of a block
is undefined.
-/

namespace EmbeddedOS
namespace Fs

open Base Base.ByteMem Stdlib

/-! ## The volume and the heap -/

/-- The bytes of the partition, and what is read of the superblock and the group descriptors. -/
structure Volume where
  bytes : ByteMem
  block_size : Nat
  inode_size : Nat
  inodes_per_group : Nat
  inode_table_addr : List Nat

/-- The bytes that `new` hands out: for the blocks of a directory, for the name of a file, behind
that name, and behind the name of the root. -/
structure Heap where
  raw : List Nat → ByteMem
  name : List Nat → ByteMem
  behind : List Nat → List UInt8
  rootName : List UInt8

/-- Byte `i` of sector `sector` and those that follow. -/
def Volume.sectors (v : Volume) (sector : Nat) : ByteMem := fun i => v.bytes (512 * sector + i)

/-! ## Inodes -/

def nSectors (m : ByteMem) : Nat := load m 28 4
def sizeLower (m : ByteMem) : Nat := load m 4 4
def blockPtr (m : ByteMem) (i : Nat) : Nat := load m (40 + 4 * i) 4

/-- `sizeof(inode_base_t)` -/
abbrev INODE_SIZE : Nat := 128

/-- The inode's bytes, copied out of the sectors at the start of its block. -/
def read_inode_metadata (v : Volume) (index : Nat) : Option ByteMem :=
  let i := u32 ((index : Int) - 1)
  match v.inode_table_addr[i / v.inodes_per_group]? with
  | none => none
  | some inode_table_block =>
      let idx := i % v.inodes_per_group
      let block_num := inode_table_block + idx * v.inode_size / v.block_size
      let offset_in_block := idx * v.inode_size % v.block_size
      let n_sectors := v.inode_size / 512 + 1
      if offset_in_block / 2 * 2 + v.inode_size ≤ n_sectors * 512 ∧ v.inode_size ≤ INODE_SIZE then
        some fun x => v.sectors (block_num * 8) (offset_in_block / 2 * 2 + x)
      else
        none

/-! ## The entries of a directory -/

section Populate

variable (v : Volume) (h : Heap)

/-- `strncmp` against both names, each on its own first character. -/
def recurses (name : List UInt8) : Bool :=
  strncmp name [46] 1 ≠ 0 ∧ strncmp name [46, 46] 1 ≠ 0

/-- The `FILE` of a record: its name is copied without a terminator. -/
def fileNode (path : List Nat) (r : Record) (inode : ByteMem) : FileNode :=
  let name := strncpy r.name r.name.length ++ bytesAt (h.name path) r.name.length
    (256 - r.name.length)
  { name := name
    hash := hash32 (if 0 ∈ name then cstring name else name ++ h.behind path)
    inode := UInt32.ofNat r.inode_number
    size := UInt32.ofNat (sizeLower inode)
    create_time := UInt32.ofNat (load inode 12 4)
    access_time := UInt32.ofNat (load inode 8 4)
    modify_time := UInt32.ofNat (load inode 16 4)
    flags := 0
    nlink := UInt32.ofNat (load inode 26 2) }

/-- The entry of a record; `sub` populates a directory. -/
def entryOf (sub : List Nat → Nat → Option (List FsEntry)) (path : List Nat) (r : Record) :
    Option FsEntry :=
  if r.type = FS_FILE then
    (read_inode_metadata v r.inode_number).map fun inode => .file (fileNode h path r inode)
  else if r.type = FS_DIR then
    let name := cstring (strncpy r.name r.name.length)
    let entries := if recurses name then sub path r.inode_number else some []
    entries.map fun entries =>
      .dir (.mk name (hash32 name) (UInt32.ofNat r.inode_number) entries)
  else
    some .unknown

/-- The `do` loop over the records in `raw_block`, of `size` bytes. -/
def direntLoop (sub : List Nat → Nat → Option (List FsEntry)) (path : List Nat) (raw : ByteMem)
    (size : Nat) : Nat → Nat → Nat → Option (List FsEntry)
  | 0, _, _ => none
  | fuel + 1, cur_offset, j =>
      if size < cur_offset + 8 then
        none
      else if recType raw cur_offset = 0 then
        some []
      else if size < cur_offset + 8 + nameLen raw cur_offset then
        none
      else do
        let e ← entryOf v h sub (path ++ [j]) (recordAt raw cur_offset)
        let es ← direntLoop sub path raw size fuel (cur_offset + recSize raw cur_offset) (j + 1)
        some (e :: es)

/-- The loop that reads the first `n` blocks, eight sectors each. -/
def readBlocks (inode : ByteMem) (stale : ByteMem) : Nat → ByteMem
  | 0 => stale
  | i + 1 => fun x =>
      if v.block_size * i ≤ x ∧ x < v.block_size * i + 4096 then
        v.sectors (blockPtr inode i * 8) (x - v.block_size * i)
      else
        readBlocks inode stale i x

/-- `populate_recur`: the entries of a directory. -/
def populate_recur : Nat → List Nat → Nat → Option (List FsEntry)
  | 0, _, _ => none
  | fuel + 1, path, index => do
      let inode ← read_inode_metadata v index
      let n_blocks := nSectors inode / 8 + 1
      let size := v.block_size * n_blocks % 4294967296
      if size < v.block_size * (min n_blocks 12 - 1) + 4096 then
        none
      else
        direntLoop v h (populate_recur fuel) path
          (readBlocks v inode (h.raw path) (min n_blocks 12)) size fuel 0 0

/-- `populate_fs`: the root of the tree. -/
def populate_fs (fuel : Nat) : Option FsTree := do
  let _root_inode ← read_inode_metadata v 2
  let entries ← populate_recur v h fuel [] 2
  some (.mk (47 :: h.rootName) (hash32 (47 :: h.rootName)) 2 entries)

end Populate

end Fs
end EmbeddedOS
