import EmbeddedOS.Fs.BlockBitmap
import EmbeddedOS.Fs.MountMirror

/-!
# Reading and writing inodes

`read_inode_metadata` and `write_inode_metadata` of `inode.c` on the whole disk. The reader takes
as many sectors as one inode needs from the start of the inode's block, and then copies the inode
from its place in the block; the writer rounds the number of sectors down to none.
-/

namespace EmbeddedOS
namespace Fs

open Base Base.ByteMem

namespace EXT2

variable (fs : EXT2)

/-! ## The code -/

/-- `fs->BGD[group].inode_table_addr` -/
def inode_table_addr (group : Nat) : Nat := fs.bgdField group 8 4

/-- The inode's bytes, out of the sectors at the start of its block. A copy of more than was read,
or of more than an `inode_base_t`, is undefined. -/
def read_inode_metadata (disk inode buf : ByteMem) (index : Nat) : Option ByteMem :=
  let group := u32 (index - 1) / fs.inodes_per_group
  let inode_table_block := fs.inode_table_addr group
  let idx := u32 (index - 1) % fs.inodes_per_group
  let block_offset := u32 (idx * fs.inode_size) / fs.block_size
  let offset_in_block := u32 (idx * fs.inode_size) % fs.block_size
  let block_num := u32 (inode_table_block + block_offset)
  let n_sectors := fs.inode_size / 512 + 1
  let block_buf := devRead disk buf 0 n_sectors (fs.sectorOf block_num)
  let from_ := offset_in_block / 2 * 2
  if n_sectors * 512 < from_ + fs.inode_size ∨ INODE_SIZE < fs.inode_size then
    none
  else
    some fun x => if x < fs.inode_size then block_buf (from_ + x) else inode x

/-- The disk after the call. A copy past the buffer is undefined. -/
def write_inode_metadata (disk inode buf : ByteMem) (index : Nat) : Option ByteMem :=
  let group := u32 (index - 1) / fs.inodes_per_group
  let inode_table_block := fs.inode_table_addr group
  let block_offset := u32 (index * fs.inode_size) / fs.block_size
  let offset_in_block := u32 (index * fs.inode_size) % fs.block_size
  let block_num := u32 (inode_table_block + block_offset)
  let n_sectors := fs.inode_size / (512 + 1)
  let block_buf := devRead disk buf 0 n_sectors (fs.sectorOf block_num)
  let at_ := offset_in_block / 2 * 2
  if n_sectors * 512 < at_ + fs.inode_size then
    none
  else
    let block_buf : ByteMem := fun x =>
      if at_ ≤ x ∧ x < at_ + fs.inode_size then inode (x - at_) else block_buf x
    some (devWrite disk block_buf 0 n_sectors (fs.sectorOf block_num))

/-! ## The inode table -/

/-- Byte `x` of the record of an inode: in the table of its group, block after block. -/
def recordByte (index x : Nat) : Nat :=
  let pos := (index - 1) % fs.inodes_per_group * fs.inode_size + x
  512 * fs.sectorOf (fs.inode_table_addr ((index - 1) / fs.inodes_per_group) + pos / fs.block_size) +
    pos % fs.block_size

/-- The volumes considered: blocks of four kilobytes, inodes of 128 bytes, and a bitmap of one block
for the inodes of a group. -/
structure InodesOk : Prop where
  block_size : fs.block_size = 4096
  inode_size : fs.inode_size = INODE_SIZE
  inodes_per_group : 0 < fs.inodes_per_group ∧ fs.inodes_per_group ≤ 32768

/-- An inode number of the volume. -/
def IsInode (index : Nat) : Prop :=
  1 ≤ index ∧ index ≤ fs.n_groups * fs.inodes_per_group ∧ index < 4294967296

/-- The first byte of the disk block with the record of an inode. -/
def recordBlock (index : Nat) : Nat :=
  512 * fs.sectorOf (fs.inode_table_addr ((index - 1) / fs.inodes_per_group) +
    (index - 1) % fs.inodes_per_group * fs.inode_size / fs.block_size)

/-- The record of the inode is `inode`; the records of the other inodes and every other disk block
are as before. -/
def Stores (disk inode : ByteMem) (index : Nat) (r : Option ByteMem) : Prop :=
  ∃ disk', r = some disk' ∧ (∀ x, x < fs.inode_size → disk' (fs.recordByte index x) = inode x) ∧
    (∀ j, fs.IsInode j → j ≠ index → ∀ x, x < fs.inode_size →
      disk' (fs.recordByte j x) = disk (fs.recordByte j x)) ∧
    ∀ y, y < fs.recordBlock index ∨ fs.recordBlock index + fs.block_size ≤ y → disk' y = disk y

variable {fs} {disk inode buf : ByteMem} {index : Nat}

theorem sectorOf_u32 (block : Nat) : fs.sectorOf (u32 block) = fs.sectorOf block := by
  unfold sectorOf u32
  omega

/-- Where the record starts: in the block that the code reads from, at the slot of the inode. -/
theorem recordByte_eq (hok : fs.InodesOk) {x : Nat} (hx : x < INODE_SIZE) :
    fs.recordByte index x = 512 * fs.sectorOf (u32
      (fs.inode_table_addr ((index - 1) / fs.inodes_per_group) +
        (index - 1) % fs.inodes_per_group * INODE_SIZE / 4096 : Nat)) +
      ((index - 1) % fs.inodes_per_group % 32 * INODE_SIZE + x) := by
  unfold INODE_SIZE at hx ⊢
  rw [sectorOf_u32, recordByte, hok.block_size, hok.inode_size]
  unfold INODE_SIZE
  generalize (index - 1) % fs.inodes_per_group = idx
  have hdiv : (idx * 128 + x) / 4096 = idx * 128 / 4096 := by omega
  have hmod : (idx * 128 + x) % 4096 = idx % 32 * 128 + x := by omega
  simp only [hdiv, hmod]

/-- The place of an inode, as the reader computes it. -/
theorem read_place (hok : fs.InodesOk) :
    u32 (((index - 1) % fs.inodes_per_group : Nat) * fs.inode_size) =
      (index - 1) % fs.inodes_per_group * INODE_SIZE := by
  have hidx : (index - 1) % fs.inodes_per_group < fs.inodes_per_group :=
    Nat.mod_lt _ hok.inodes_per_group.1
  have hmax := hok.inodes_per_group.2
  rw [hok.inode_size, ← Nat.cast_mul]
  apply u32_natCast
  unfold INODE_SIZE
  omega

theorem read_inode_metadata_eq (hok : fs.InodesOk) (hi : fs.IsInode index) :
    fs.read_inode_metadata disk inode buf index =
      if (index - 1) % fs.inodes_per_group % 32 < 4 then
        some fun x => if x < fs.inode_size then disk (fs.recordByte index x) else inode x
      else none := by
  have hpred := u32_pred hi.1 hi.2.2
  have hslot : (index - 1) % fs.inodes_per_group * INODE_SIZE % 4096 =
      (index - 1) % fs.inodes_per_group % 32 * INODE_SIZE := by
    unfold INODE_SIZE
    omega
  have heven : (index - 1) % fs.inodes_per_group % 32 * INODE_SIZE / 2 * 2 =
      (index - 1) % fs.inodes_per_group % 32 * INODE_SIZE := by
    unfold INODE_SIZE
    omega
  simp only [read_inode_metadata, hpred, read_place hok, hok.block_size, hslot, heven]
  rw [hok.inode_size]
  by_cases hearly : (index - 1) % fs.inodes_per_group % 32 < 4
  · rw [if_pos hearly, if_neg (by unfold INODE_SIZE; omega)]
    congr 1
    funext x
    by_cases hx : x < INODE_SIZE
    · rw [if_pos hx, if_pos hx, recordByte_eq hok hx, devRead_inside (Nat.zero_le _)
        (by unfold INODE_SIZE at hx ⊢; omega)]
      congr 1
    · rw [if_neg hx, if_neg hx]
  · rw [if_neg hearly, if_pos (by unfold INODE_SIZE; omega)]

/-- **Reading an inode.** The reader yields the record exactly if it is one of the first four in its
block, so that the sector that is read holds it. -/
theorem read_inode_metadata_exact_iff (hok : fs.InodesOk) (hi : fs.IsInode index) :
    (∃ inode', fs.read_inode_metadata disk inode buf index = some inode' ∧
      ∀ x, x < fs.inode_size → inode' x = disk (fs.recordByte index x)) ↔
      (index - 1) % fs.inodes_per_group % 32 < 4 := by
  rw [read_inode_metadata_eq hok hi]
  constructor
  · rintro ⟨inode', hread, -⟩
    exact (Option.ite_none_right_eq_some.mp hread).1
  · intro hearly
    refine ⟨_, if_pos hearly, ?_⟩
    intro x hx
    exact if_pos hx

theorem oneGroup_inodes : oneGroup.fs.InodesOk :=
  ⟨rfl, rfl, by decide⟩

/-- Inode 1 of a volume is read. -/
theorem read_inode_metadata_exact_first :
    (∃ inode', oneGroup.fs.read_inode_metadata oneGroup.disk (fun _ => 0) (fun _ => 0) 1 =
        some inode' ∧
      ∀ x, x < oneGroup.fs.inode_size → inode' x = oneGroup.disk (oneGroup.fs.recordByte 1 x)) ↔
      (1 - 1) % oneGroup.fs.inodes_per_group % 32 < 4 :=
  read_inode_metadata_exact_iff oneGroup_inodes ⟨by decide, by decide, by decide⟩

/-- The copy for inode 5 starts where the one sector that is read ends. -/
theorem read_inode_metadata_fifth :
    oneGroup.fs.IsInode 5 ∧
      ¬ ∃ inode', oneGroup.fs.read_inode_metadata oneGroup.disk (fun _ => 0) (fun _ => 0) 5 =
          some inode' ∧
        ∀ x, x < oneGroup.fs.inode_size →
          inode' x = oneGroup.disk (oneGroup.fs.recordByte 5 x) := by
  have hi : oneGroup.fs.IsInode 5 := ⟨by decide, by decide, by decide⟩
  refine ⟨hi, ?_⟩
  rintro ⟨inode', hread, -⟩
  rw [read_inode_metadata_eq oneGroup_inodes hi] at hread
  exact absurd (Option.ite_none_right_eq_some.mp hread).1 (by decide)

/-- The partition as mounting sees it. -/
def volume (fs : EXT2) (disk : ByteMem) : Volume where
  bytes := fun x => disk (512 * fs.start_block + x)
  block_size := fs.block_size
  inode_size := fs.inode_size
  inodes_per_group := fs.inodes_per_group
  inode_table_addr := (List.range fs.n_groups).map fs.inode_table_addr

/-- Where no sector number overflows, this is the reader that mounting uses. -/
theorem read_inode_metadata_volume (hok : fs.InodesOk) (hi : fs.IsInode index)
    (hfits : fs.start_block + 8 * (fs.inode_table_addr ((index - 1) / fs.inodes_per_group) +
      (index - 1) % fs.inodes_per_group * fs.inode_size / fs.block_size) < 4294967296) :
    (fs.read_inode_metadata disk inode buf index).isSome =
        (Fs.read_inode_metadata (fs.volume disk) index).isSome ∧
      ∀ m m', fs.read_inode_metadata disk inode buf index = some m →
        Fs.read_inode_metadata (fs.volume disk) index = some m' →
          ∀ x, x < fs.inode_size → m x = m' x := by
  have hgroup : (index - 1) / fs.inodes_per_group < fs.n_groups := by
    apply Nat.div_lt_of_lt_mul
    rw [Nat.mul_comm]
    have := hi.1
    have := hi.2.1
    omega
  have htable : (fs.volume disk).inode_table_addr[(index - 1) / fs.inodes_per_group]? =
      some (fs.inode_table_addr ((index - 1) / fs.inodes_per_group)) := by
    simp [volume, hgroup]
  have hold : Fs.read_inode_metadata (fs.volume disk) index =
      if (index - 1) % fs.inodes_per_group % 32 < 4 then
        some (inodeAt (fs.volume disk)
          (fs.inode_table_addr ((index - 1) / fs.inodes_per_group)) index)
      else none :=
    read_inode_at hok.block_size hok.inode_size hi.1 hi.2.2 htable
  have hbyte : ∀ x, x < INODE_SIZE → disk (fs.recordByte index x) =
      inodeAt (fs.volume disk) (fs.inode_table_addr ((index - 1) / fs.inodes_per_group)) index x := by
    intro x hx
    rw [hok.inode_size, hok.block_size] at hfits
    have hsector := u32_natCast hfits
    rw [recordByte_eq hok hx, sectorOf_u32, sectorOf]
    push_cast at hsector ⊢
    rw [hsector]
    change _ = disk (512 * fs.start_block + (fs.block_size * _ +
      (index - 1) % fs.inodes_per_group * fs.inode_size + x))
    rw [hok.block_size, hok.inode_size]
    congr 1
    unfold INODE_SIZE
    omega
  rw [read_inode_metadata_eq hok hi, hold]
  by_cases hearly : (index - 1) % fs.inodes_per_group % 32 < 4
  · rw [if_pos hearly, if_pos hearly]
    refine ⟨rfl, ?_⟩
    intro m m' hm hm' x hx
    cases hm
    cases hm'
    refine (if_pos hx).trans (hbyte x ?_)
    rw [← hok.inode_size]
    exact hx
  · rw [if_neg hearly, if_neg hearly]
    refine ⟨rfl, ?_⟩
    intro m m' hm
    cases hm

/-! ## The writer -/

/-- The buffer of the writer is smaller than an inode, and the copy to it overruns it. -/
theorem write_inode_metadata_empty (hsize : 0 < fs.inode_size) :
    fs.write_inode_metadata disk inode buf index = none := by
  rw [write_inode_metadata]
  apply if_pos
  omega

theorem write_inode_metadata_none (hok : fs.InodesOk) (disk inode buf : ByteMem) (index : Nat) :
    fs.write_inode_metadata disk inode buf index = none := by
  apply write_inode_metadata_empty
  rw [hok.inode_size]
  decide

/-- **Writing an inode** never stores it. -/
theorem write_inode_metadata_never (hok : fs.InodesOk) (disk inode buf : ByteMem) (index : Nat) :
    ¬ Stores fs disk inode index (fs.write_inode_metadata disk inode buf index) := by
  rintro ⟨disk', hwrite, -⟩
  rw [write_inode_metadata_none hok] at hwrite
  cases hwrite

theorem write_inode_metadata_never_first :
    ¬ Stores oneGroup.fs oneGroup.disk (fun _ => 1) 1
      (oneGroup.fs.write_inode_metadata oneGroup.disk (fun _ => 1) (fun _ => 0) 1) :=
  write_inode_metadata_never oneGroup_inodes _ _ _ 1

/-- Inode 1 with new contents. -/
theorem write_inode_metadata_lost :
    oneGroup.fs.IsInode 1 ∧
      ¬ Stores oneGroup.fs oneGroup.disk (fun _ => 1) 1
        (oneGroup.fs.write_inode_metadata oneGroup.disk (fun _ => 1) (fun _ => 0) 1) := by
  refine ⟨⟨by decide, by decide, by decide⟩, ?_⟩
  rintro ⟨disk', hwrite, -⟩
  rw [write_inode_metadata_none oneGroup_inodes] at hwrite
  cases hwrite

end EXT2
end Fs
end EmbeddedOS
