import EmbeddedOS.Fs.CreateEntry

/-!
# The walks over a directory

`ext2_listdir`, `ext2_finddir` and `ext2_remove_entry` of `fs/ext2/ext2.c`, beside
`ext2_create_entry`. Each goes on from a record whose length is the one it expects: the length of a
`dirent_t`, pointer and all, and of the name, rounded up by `ext2_finddir` and to the next multiple
of four by the others. The name of a record is copied from where its first eight characters point.
-/

namespace EmbeddedOS
namespace Fs

open Base Base.ByteMem

/-- A record: its block in the directory and its offset there. -/
abbrev Place := Nat × Nat

/-! ## The code -/

section Walks

variable (block_shift : Nat) (d : DirInode)

/-- The copy of a record's name. Only that of an empty name is not from an address on the disk. -/
def copyName (buf : ByteMem) (o : Nat) : Option (List UInt8) :=
  if nameLen buf o = 0 then some [] else none

/-- The `while` loop of `ext2_listdir`: the records it visits, and the names. -/
def listLoop (disk : Disk) (cur_offset block_offset o : Nat) (buf : ByteMem) :
    Option (List Place × List (List UInt8)) :=
  if cur_offset < d.size_lower then do
    let (block_offset, o, buf) ← advance block_shift d disk block_offset o buf
    if blockSize block_shift < o + 8 then
      none
    else do
      let ll ← if inodeNumber buf o ≠ 0 then (copyName buf o).map fun temp => [temp] else some []
      if recSize buf o ≠ expectedSize (nameLen buf o) then
        some ([(block_offset, o)], ll)
      else do
        let (places, ll') ← listLoop disk (cur_offset + expectedSize (nameLen buf o)) block_offset
          (o + expectedSize (nameLen buf o)) buf
        some ((block_offset, o) :: places, ll ++ ll')
  else
    some ([], [])
termination_by d.size_lower - cur_offset
decreasing_by
  unfold expectedSize
  omega

def ext2_listdir (disk : Disk) : Option (List Place × List (List UInt8)) := do
  let buf ← read_inode_block block_shift disk d 0
  listLoop block_shift d disk 0 0 0 buf

variable (name : List UInt8) (stale : UInt8)

/-- `strcmp(temp, name)` for the copy of a name, which has no terminator: with another byte behind
an empty one it is over where they differ, and else goes on past the buffer. -/
def sameTemp (temp : List UInt8) : Option Bool :=
  if temp = [] then
    if stale = 0 then some (name = [])
    else if name.head? = some stale then none else some false
  else
    none

/-- The size that `ext2_finddir` expects of a record: rounded up. -/
def expectedFind (name_len : Nat) : Nat :=
  if (DIRENT_SIZE + name_len) % 4 ≠ 0 then (DIRENT_SIZE + name_len) / 4 * 4 + 4
  else (DIRENT_SIZE + name_len) / 4 * 4

/-- The `while` loop of `ext2_finddir`: the records it visits, and the one it finds. -/
def findLoop (disk : Disk) (cur_offset block_offset o : Nat) (buf : ByteMem) :
    Option (List Place × Option Place) :=
  if cur_offset < d.size_lower then do
    let (block_offset, o, buf) ← advance block_shift d disk block_offset o buf
    if blockSize block_shift < o + 8 then
      none
    else do
      let temp ← copyName buf o
      let same ← if inodeNumber buf o ≠ 0 then sameTemp name stale temp else some false
      if same then
        some ([(block_offset, o)], some (block_offset, o))
      else if recSize buf o ≠ expectedFind (nameLen buf o) then
        some ([(block_offset, o)], none)
      else do
        let (places, found) ← findLoop disk (cur_offset + expectedFind (nameLen buf o)) block_offset
          (o + expectedFind (nameLen buf o)) buf
        some ((block_offset, o) :: places, found)
  else
    some ([], none)
termination_by d.size_lower - cur_offset
decreasing_by
  unfold expectedFind DIRENT_SIZE
  split <;> omega

def ext2_finddir (disk : Disk) : Option (List Place × Option Place) := do
  let buf ← read_inode_block block_shift disk d 0
  findLoop block_shift d name stale disk 0 0 0 buf

/-- The `while` loop of `ext2_remove_entry`: the records it visits, and the disk. -/
def removeLoop (disk : Disk) (cur_offset block_offset o : Nat) (buf : ByteMem) :
    Option (List Place × Disk) :=
  if cur_offset < d.size_lower then do
    let (block_offset, o, buf) ← advance block_shift d disk block_offset o buf
    if blockSize block_shift < o + 8 then
      none
    else do
      let same ← sameName name stale buf o
      if same then
        some ([(block_offset, o)], write_inode_block disk d block_offset (store buf o 4 0))
      else if recSize buf o ≠ expectedSize (nameLen buf o) then
        some ([(block_offset, o)], disk)
      else do
        let (places, disk) ← removeLoop disk (cur_offset + expectedSize (nameLen buf o))
          block_offset (o + expectedSize (nameLen buf o)) buf
        some ((block_offset, o) :: places, disk)
  else
    some ([], disk)
termination_by d.size_lower - cur_offset
decreasing_by
  unfold expectedSize
  omega

def ext2_remove_entry (disk : Disk) : Option (List Place × Disk) := do
  let buf ← read_inode_block block_shift disk d 0
  removeLoop block_shift d name stale disk 0 0 0 buf

end Walks

/-! ## What they should agree in -/

/-- A directory in the format of the disk: the records of its first block fill it, and the first
one is that of the directory itself, under the name `.`. -/
structure Ext2Directory (block_shift : Nat) (disk : Disk) (d : DirInode) : Prop where
  size : blockSize block_shift ≤ d.size_lower
  records : ∃ rs, Tiled (disk (d.block 0)) (blockSize block_shift) 0 rs
  self : inodeNumber (disk (d.block 0)) 0 ≠ 0 ∧
    bytesAt (disk (d.block 0)) 8 (nameLen (disk (d.block 0)) 0) = [46]

/-- The four functions return; three of them visit the same records, up to the one they act on; a
name is found if and only if it is listed, the names that are listed are those in the records, and
a name that has been removed is neither listed nor found. -/
structure WalksAgree (block_shift : Nat) (disk : Disk) (d : DirInode) (name : List UInt8)
    (inode : Nat) (stale : UInt8) : Prop where
  creates : ∃ disk', ext2_create_entry block_shift d name inode stale disk = some disk'
  walks : ∃ listed ll visited found visited' disk',
    ext2_listdir block_shift d disk = some (listed, ll) ∧
    ext2_finddir block_shift d name stale disk = some (visited, found) ∧
    ext2_remove_entry block_shift d name stale disk = some (visited', disk') ∧
    visited <+: listed ∧ visited' <+: listed ∧
    (found = none → visited = listed) ∧ (found.isSome ↔ name ∈ ll) ∧
    ll = (listed.filter fun x => inodeNumber (disk (d.block x.1)) x.2 ≠ 0).map
      (fun x => (recordAt (disk (d.block x.1)) x.2).name) ∧
    ∃ listed' ll' visited'', ext2_listdir block_shift d disk' = some (listed', ll') ∧
      name ∉ ll' ∧ ext2_finddir block_shift d name stale disk' = some (visited'', none)

/-! ## What they do -/

section Spec

variable {block_shift : Nat} {d : DirInode} {disk : Disk} {name : List UInt8} {inode : Nat}
  {stale : UInt8}

theorem blockSize_pos : 0 < blockSize block_shift :=
  Nat.mul_pos (by norm_num) (Nat.two_pow_pos block_shift)

/-- The listing of a directory whose first record has a name goes where that points. -/
theorem ext2_listdir_none (hdir : Ext2Directory block_shift disk d) :
    ext2_listdir block_shift d disk = none := by
  have hsize : 0 < d.size_lower := Nat.lt_of_lt_of_le blockSize_pos hdir.size
  obtain ⟨hused, hname⟩ := hdir.self
  have hlen : nameLen (disk (d.block 0)) 0 ≠ 0 := by
    have hlength := congrArg List.length hname
    rw [length_bytesAt] at hlength
    rw [hlength]
    decide
  apply Option.bind_eq_none_iff.mpr
  intro buf hread
  rw [read_inode_block, Option.ite_none_right_eq_some] at hread
  cases hread.2
  rw [listLoop, if_pos hsize, advance, if_neg (Nat.not_le.mpr blockSize_pos)]
  simp only [Option.bind_eq_bind, Option.bind_some]
  rw [if_neg (by have := hread.1; omega), if_pos hused, copyName, if_neg hlen]
  rfl

/-- **The walks never agree** on a directory in the format of the disk. -/
theorem walks_never_agree (hdir : Ext2Directory block_shift disk d) :
    ¬ WalksAgree block_shift disk d name inode stale := by
  intro hagree
  obtain ⟨listed, ll, _, _, _, _, hlist, -⟩ := hagree.walks
  rw [ext2_listdir_none hdir] at hlist
  cases hlist

/-- Even with the names copied from their records, the walks would part at the first record whose
name has a length of a multiple of four. -/
theorem expected_sizes (name_len : Nat) :
    expectedFind name_len = expectedSize name_len ↔ name_len % 4 ≠ 0 := by
  unfold expectedFind expectedSize DIRENT_SIZE
  split <;> omega

end Spec

/-! ## A directory of one block -/

theorem ext2_oneDirectory : Ext2Directory 2 oneDirectory oneBlock :=
  ⟨by decide, ⟨_, tiled_emptyDirectory⟩, by decide, by decide⟩

/-- The name `abc` in the empty directory. -/
theorem walks_never_agree_empty :
    ¬ WalksAgree 2 oneDirectory oneBlock [97, 98, 99] 12 0 :=
  walks_never_agree ext2_oneDirectory

/-- Its listing is undefined at the record `.`. -/
theorem listdir_undefined :
    ext2_listdir 2 oneBlock oneDirectory = none ∧
      ¬ WalksAgree 2 oneDirectory oneBlock [97, 98, 99] 12 0 := by
  refine ⟨ext2_listdir_none ext2_oneDirectory, ?_⟩
  intro hagree
  obtain ⟨listed, ll, _, _, _, _, hlist, -⟩ := hagree.walks
  rw [ext2_listdir_none ext2_oneDirectory] at hlist
  cases hlist

end Fs
end EmbeddedOS
