import EmbeddedOS.Base.ByteMem

/-!
# Disk blocks

The mounted file system of `fs/ext2/fstypes.h`, its block device, and `read_disk_block` and
`write_disk_block` of `inode.c`. Buffers are byte maps over their own offsets; what a buffer holds
before it is read into is whatever the heap left there. Sector numbers are 32-bit.
-/

namespace EmbeddedOS
namespace Fs

open Base Base.ByteMem

/-! ## The device -/

/-- `dev->read` of `n` sectors to the offset `off` of a buffer. -/
def devRead (disk buf : ByteMem) (off n sector : Nat) : ByteMem := fun x =>
  if off ≤ x ∧ x < off + 512 * n then disk (512 * sector + (x - off)) else buf x

/-- `dev->write` of `n` sectors from the offset `off` of a buffer. -/
def devWrite (disk buf : ByteMem) (off n sector : Nat) : ByteMem := fun x =>
  if 512 * sector ≤ x ∧ x < 512 * sector + 512 * n then buf (off + (x - 512 * sector)) else disk x

theorem devRead_inside {disk buf : ByteMem} {off n sector x : Nat} (hlo : off ≤ x)
    (hhi : x < off + 512 * n) :
    devRead disk buf off n sector x = disk (512 * sector + (x - off)) :=
  if_pos ⟨hlo, hhi⟩

theorem devRead_outside {disk buf : ByteMem} {off n sector x : Nat}
    (h : x < off ∨ off + 512 * n ≤ x) : devRead disk buf off n sector x = buf x := by
  apply if_neg
  omega

theorem devWrite_inside {disk buf : ByteMem} {off n sector x : Nat} (hlo : 512 * sector ≤ x)
    (hhi : x < 512 * sector + 512 * n) :
    devWrite disk buf off n sector x = buf (off + (x - 512 * sector)) :=
  if_pos ⟨hlo, hhi⟩

theorem devWrite_outside {disk buf : ByteMem} {off n sector x : Nat}
    (h : x < 512 * sector ∨ 512 * sector + 512 * n ≤ x) :
    devWrite disk buf off n sector x = disk x := by
  apply if_neg
  omega

/-! ## The mounted file system -/

/-- `EXT2_t`, with the one field of the superblock that is read later: the group descriptors are
the bytes they are kept in. -/
structure EXT2 where
  BGD : ByteMem
  start_block : Nat
  block_size : Nat
  inode_size : Nat
  blocks_per_group : Nat
  inodes_per_group : Nat
  n_groups : Nat
  bgd_blocks : Nat

variable (fs : EXT2)

/-- The first sector of a disk block: eight sectors apart whatever the block size. -/
def EXT2.sectorOf (block : Nat) : Nat := u32 (fs.start_block + 8 * block)

def read_disk_block (disk : ByteMem) (block : Nat) (buf : ByteMem) : ByteMem :=
  devRead disk buf 0 8 (fs.sectorOf block)

/-- The buffer is read from `off` on. -/
def write_disk_block (disk : ByteMem) (block : Nat) (buf : ByteMem) (off : Nat) : ByteMem :=
  devWrite disk buf off (fs.block_size / 512) (fs.sectorOf block)

/-- `sizeof(block_group_descriptor_t)` -/
abbrev BGD_SIZE : Nat := 32

/-- The field of `k` bytes at `off` in a group's descriptor. -/
def EXT2.bgdField (group off k : Nat) : Nat := load fs.BGD (BGD_SIZE * group + off) k

/-- Entry `i` of an index block on the disk. -/
def EXT2.diskEntry (disk : ByteMem) (block i : Nat) : Nat :=
  load disk (512 * fs.sectorOf block + 4 * i) 4

theorem load_read_disk_block (disk buf : ByteMem) (block : Nat) {i : Nat} (hi : i < 1024) :
    load (read_disk_block fs disk block buf) (4 * i) 4 = fs.diskEntry disk block i := by
  apply load_shift
  intro j hj
  rw [read_disk_block, devRead_inside (by omega) (by omega)]
  congr 1
  omega

/-! ## One entry changed -/

/-- A block is read, entry `i` of the buffer is set, and the block is written back. -/
def updateEntry (disk : ByteMem) (block : Nat) (buf : ByteMem) (i v : Nat) : ByteMem :=
  write_disk_block fs disk block (store (read_disk_block fs disk block buf) (4 * i) 4 v) 0

variable {fs}

/-- With blocks that a read fills, it is one store to the disk. -/
theorem updateEntry_inside {disk buf : ByteMem} {block i v : Nat} (hmax : fs.block_size ≤ 4096)
    (hsec : 512 * (fs.block_size / 512) = fs.block_size) (hi : i < fs.block_size / 4) :
    updateEntry fs disk block buf i v = store disk (512 * fs.sectorOf block + 4 * i) 4 v := by
  funext x
  rcases Nat.lt_or_ge x (512 * fs.sectorOf block) with hlo | hlo
  · rw [updateEntry, write_disk_block, devWrite_outside (Or.inl hlo), store_outside (by omega)]
  · rcases Nat.lt_or_ge x (512 * fs.sectorOf block + fs.block_size) with hhi | hhi
    · rw [updateEntry, write_disk_block, devWrite_inside hlo (by omega)]
      unfold store
      by_cases hin : 512 * fs.sectorOf block + 4 * i ≤ x ∧ x < 512 * fs.sectorOf block + 4 * i + 4
      · rw [if_pos (by omega), if_pos hin]
        congr 1
        omega
      · rw [if_neg (by omega), if_neg hin, read_disk_block, devRead_inside (by omega) (by omega)]
        congr 1
        omega
    · rw [updateEntry, write_disk_block, devWrite_outside (by omega), store_outside (by omega)]

/-- An entry past the block is lost. -/
theorem updateEntry_outside {disk buf : ByteMem} {block i v : Nat} (hmax : fs.block_size ≤ 4096)
    (hsec : 512 * (fs.block_size / 512) = fs.block_size) (hi : fs.block_size / 4 ≤ i) :
    updateEntry fs disk block buf i v = disk := by
  funext x
  rcases Nat.lt_or_ge x (512 * fs.sectorOf block) with hlo | hlo
  · rw [updateEntry, write_disk_block, devWrite_outside (Or.inl hlo)]
  · rcases Nat.lt_or_ge x (512 * fs.sectorOf block + fs.block_size) with hhi | hhi
    · rw [updateEntry, write_disk_block, devWrite_inside hlo (by omega), store_outside (by omega),
        read_disk_block, devRead_inside (by omega) (by omega)]
      congr 1
      omega
    · rw [updateEntry, write_disk_block, devWrite_outside (by omega)]

/-- Disk blocks that start at different sectors do not overlap. -/
theorem sectorOf_apart {b b' : Nat} (h : fs.sectorOf b ≠ fs.sectorOf b') :
    fs.sectorOf b + 8 ≤ fs.sectorOf b' ∨ fs.sectorOf b' + 8 ≤ fs.sectorOf b := by
  unfold EXT2.sectorOf u32 at h ⊢
  omega

end Fs
end EmbeddedOS
