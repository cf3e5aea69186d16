import EmbeddedOS.Fs.AllocRuns
import EmbeddedOS.Fs.FileData

/-!
# Changing the block map

`set_disk_block_number`, `alloc_inode_metadata_block`, `alloc_inode_block` and `free_inode_block` of
`inode.c`. The setter takes the blocks 12, 12 + p and 12 + p + p² apart one level before the getter
does; and whatever `ext2_alloc_block` returns goes into the map.
-/

namespace EmbeddedOS
namespace Fs

open Base Base.ByteMem

/-! ## The code -/

/-- What the buffers from `new` hold: that of the setter, those of the successive calls of
`ext2_alloc_block`, that of `ext2_free_block`, and that of `write_inode_metadata`. -/
structure Scratch where
  tmp : ByteMem
  bitmap : Nat → ByteMem
  freed : ByteMem
  record : ByteMem

/-- `block_ptr` points to the offset `off` of `cell`, an inode or a buffer; `persist` is what is
written when it is set. -/
def alloc_inode_metadata_block (s : Mounted) (bitmap cell : ByteMem) (off : Nat)
    (persist : Mounted → ByteMem → Option Mounted) : Option (Mounted × ByteMem) :=
  if load cell off 4 = 0 then
    (ext2_alloc_block s bitmap).bind fun (block_no, s) =>
      if block_no = 0 then
        some (s, cell)
      else
        let cell := store cell off 4 block_no
        (persist s cell).map fun s => (s, cell)
  else
    some (s, cell)

/-- `buffer == NULL`: the inode is written. -/
def persistInode (record : ByteMem) (index : Nat) (s : Mounted) (inode : ByteMem) :
    Option Mounted :=
  (s.fs.write_inode_metadata s.disk inode record index).map fun disk => ⟨s.fs, disk⟩

/-- The buffer is written to the block `block_overwrite`. -/
def persistBuffer (block_overwrite : Nat) (s : Mounted) (buffer : ByteMem) : Option Mounted :=
  some ⟨s.fs, write_disk_block s.fs s.disk block_overwrite buffer 0⟩

/-- `inode->blocks + i` -/
def blockOff (i : Nat) : Nat := 40 + 4 * i

/-- `&tmp[i]`: the buffer has `block_size` entries. -/
def tmpOff (fs : EXT2) (i : Int) : Option Nat :=
  if 0 ≤ i ∧ i < fs.block_size then some (4 * i.toNat) else none

/-- The block `block` is read, `tmp[i]` is set, and the block is written back. -/
def setEntry (s : Mounted) (block : Nat) (tmp : ByteMem) (i : Int) (disk_block : Nat) :
    Option Mounted :=
  (tmpOff s.fs i).map fun off =>
    let tmp := store (read_disk_block s.fs s.disk block tmp) off 4 disk_block
    ⟨s.fs, write_disk_block s.fs s.disk block tmp 0⟩

/-- The block `block` is read, and the block of `tmp[i]` is allocated if there is none; yields that
block and the buffer. -/
def childBlock (s : Mounted) (bitmap : ByteMem) (block : Nat) (tmp : ByteMem) (i : Int) :
    Option (Mounted × Nat × ByteMem) :=
  (tmpOff s.fs i).bind fun off =>
    let tmp := read_disk_block s.fs s.disk block tmp
    (alloc_inode_metadata_block s bitmap tmp off (persistBuffer block)).map fun (s, tmp) =>
      (s, load tmp off 4, tmp)

/-- The file system and the inode after the call. -/
def set_disk_block_number (h : Scratch) (s : Mounted) (inode : ByteMem)
    (index inode_block disk_block : Nat) : Option (Mounted × ByteMem) :=
  let p := s.fs.block_size / 4
  let a := i32 inode_block - 12
  if a ≤ 0 then
    if inode_block < 15 then
      some (s, store inode (blockOff inode_block) 4 disk_block)
    else
      none
  else
    let b := i32 (a - p)
    if b ≤ 0 then
      (alloc_inode_metadata_block s (h.bitmap 0) inode (blockOff 12)
        (persistInode h.record index)).bind fun (s, inode) =>
          (setEntry s (blockPtr inode 12) h.tmp a disk_block).map fun s => (s, inode)
    else
      let c := i32 (b - p * p)
      if c ≤ 0 then
        let c := i32 (u32 b / p : Nat)
        let d := i32 (b - c * p)
        (alloc_inode_metadata_block s (h.bitmap 0) inode (blockOff 13)
          (persistInode h.record index)).bind fun (s, inode) =>
            (childBlock s (h.bitmap 1) (blockPtr inode 13) h.tmp c).bind fun (s, temp, tmp) =>
              (setEntry s temp tmp d disk_block).map fun s => (s, inode)
      else
        let d := i32 (c - p * p * p)
        if d ≤ 0 then
          let e := i32 (u32 c / u32 (p * p) : Nat)
          let f := i32 (u32 (c - e * p * p) / p : Nat)
          let g := i32 (c - e * p * p - f * p)
          (alloc_inode_metadata_block s (h.bitmap 0) inode (blockOff 14)
            (persistInode h.record index)).bind fun (s, inode) =>
              (childBlock s (h.bitmap 1) (blockPtr inode 14) h.tmp e).bind fun (s, temp, tmp) =>
                (childBlock s (h.bitmap 2) temp tmp f).bind fun (s, temp, tmp) =>
                  (setEntry s temp tmp g disk_block).map fun s => (s, inode)
        else
          some (s, inode)

def alloc_inode_block (h : Scratch) (s : Mounted) (inode : ByteMem) (index block : Nat) :
    Option (Mounted × ByteMem) :=
  (ext2_alloc_block s (h.bitmap 3)).bind fun (ret, s) =>
    (set_disk_block_number h s inode index block ret).bind fun (s, inode) =>
      let inode := store inode 28 4 (u32 ((block + 1) * (s.fs.block_size / 512)))
      (persistInode h.record index s inode).map fun s => (s, inode)

def free_inode_block (h : Scratch) (map : ByteMem) (s : Mounted) (inode : ByteMem)
    (index block : Nat) : Option (Mounted × ByteMem) :=
  (get_disk_block_number s.fs s.disk inode map block).bind fun ret =>
    (ext2_free_block s h.freed ret).bind fun s =>
      (set_disk_block_number h s inode index ret 0).bind fun (s, inode) =>
        (persistInode h.record index s inode).map fun s => (s, inode)

/-! ## What no call changes -/

/-- The two differ in the descriptors at most. -/
def SameVolume (fs fs' : EXT2) : Prop := ∃ BGD, fs' = { fs with BGD := BGD }

theorem SameVolume.refl (fs : EXT2) : SameVolume fs fs := ⟨fs.BGD, rfl⟩

theorem SameVolume.trans {fs fs' fs'' : EXT2} (h : SameVolume fs fs') (h' : SameVolume fs' fs'') :
    SameVolume fs fs'' := by
  obtain ⟨BGD, rfl⟩ := h
  obtain ⟨BGD', rfl⟩ := h'
  exact ⟨BGD', rfl⟩

theorem SameVolume.inode_size {fs fs' : EXT2} (h : SameVolume fs fs') :
    fs'.inode_size = fs.inode_size := by
  obtain ⟨BGD, rfl⟩ := h
  rfl

section Volume

variable {s s' : Mounted} {buf cell cell' inode inode' : ByteMem} {block temp : Nat}

theorem allocGroups_volume {B : Bitmap} (n : Nat) {i r : Nat}
    (h : allocGroups B s buf i n = some (r, s')) : SameVolume s.fs s'.fs := by
  induction n generalizing i buf with
  | zero =>
      cases h
      exact SameVolume.refl s.fs
  | succ n ih =>
      rw [allocGroups] at h
      split at h
      · exact ih h
      · simp only at h
        split at h
        · exact ih h
        · obtain ⟨disk, -, heq⟩ := Option.map_eq_some_iff.mp h
          cases heq
          exact ⟨_, rfl⟩

theorem ext2_free_block_volume {b : Nat} (h : ext2_free_block s buf b = some s') :
    SameVolume s.fs s'.fs := by
  rw [ext2_free_block, freeItem] at h
  simp only at h
  split at h
  · cases h
  · obtain ⟨disk, -, heq⟩ := Option.map_eq_some_iff.mp h
    cases heq
    exact ⟨_, rfl⟩

/-- A pointer that is set, or not, in a volume that stays. -/
theorem alloc_inode_metadata_block_volume {off : Nat}
    {persist : Mounted → ByteMem → Option Mounted}
    (hpersist : ∀ s cell s', persist s cell = some s' → SameVolume s.fs s'.fs)
    (h : alloc_inode_metadata_block s buf cell off persist = some (s', cell')) :
    SameVolume s.fs s'.fs := by
  rw [alloc_inode_metadata_block] at h
  split at h
  · obtain ⟨⟨block_no, s₁⟩, halloc, hrest⟩ := Option.bind_eq_some_iff.mp h
    have hfirst : SameVolume s.fs s₁.fs := allocGroups_volume _ halloc
    simp only at hrest
    split at hrest
    · cases hrest
      exact hfirst
    · obtain ⟨s₂, hwrite, heq⟩ := Option.map_eq_some_iff.mp hrest
      cases heq
      exact hfirst.trans (hpersist _ _ _ hwrite)
  · cases h
    exact SameVolume.refl s.fs

theorem persistInode_volume {record : ByteMem} {index : Nat}
    (h : persistInode record index s inode = some s') : SameVolume s.fs s'.fs := by
  obtain ⟨disk, -, rfl⟩ := Option.map_eq_some_iff.mp h
  exact SameVolume.refl s.fs

theorem persistBuffer_volume (h : persistBuffer block s cell = some s') :
    SameVolume s.fs s'.fs := by
  cases h
  exact SameVolume.refl s.fs

theorem childBlock_volume {i : Int} (h : childBlock s buf block cell i = some (s', temp, cell')) :
    SameVolume s.fs s'.fs := by
  obtain ⟨off, -, hrest⟩ := Option.bind_eq_some_iff.mp h
  obtain ⟨⟨s₁, tmp⟩, halloc, heq⟩ := Option.map_eq_some_iff.mp hrest
  cases heq
  exact alloc_inode_metadata_block_volume (fun _ _ _ => persistBuffer_volume) halloc

theorem setEntry_volume {i : Int} {v : Nat} (h : setEntry s block cell i v = some s') :
    SameVolume s.fs s'.fs := by
  obtain ⟨off, -, rfl⟩ := Option.map_eq_some_iff.mp h
  exact SameVolume.refl s.fs

/-- A pointer of the inode is never set: its inode cannot be written. -/
theorem alloc_in_inode {h : Scratch} {index off : Nat} (hinode : 0 < s.fs.inode_size)
    (hrun : alloc_inode_metadata_block s buf inode off (persistInode h.record index) =
      some (s', inode')) : inode' = inode ∧ SameVolume s.fs s'.fs := by
  refine ⟨?_, alloc_inode_metadata_block_volume (fun _ _ _ => persistInode_volume) hrun⟩
  rw [alloc_inode_metadata_block] at hrun
  split at hrun
  · obtain ⟨⟨block_no, s₁⟩, halloc, hrest⟩ := Option.bind_eq_some_iff.mp hrun
    have hsize : s₁.fs.inode_size = s.fs.inode_size :=
      (allocGroups_volume _ halloc).inode_size
    simp only at hrest
    split at hrest
    · cases hrest
      rfl
    · obtain ⟨s₂, hwrite, -⟩ := Option.map_eq_some_iff.mp hrest
      rw [persistInode, EXT2.write_inode_metadata_empty (by omega)] at hwrite
      cases hwrite
  · cases hrun
    rfl

end Volume

/-! ## What the setter does to the inode -/

section Setter

variable {h : Scratch} {s s' : Mounted} {inode inode' : ByteMem} {index inode_block disk_block : Nat}

/-- One of the first blocks is set in the inode; for the others the inode stays. -/
theorem set_disk_block_number_cases (hinode : 0 < s.fs.inode_size)
    (hrun : set_disk_block_number h s inode index inode_block disk_block = some (s', inode')) :
    SameVolume s.fs s'.fs ∧
      ((i32 inode_block ≤ 12 ∧ inode_block < 15 ∧ s' = s ∧
          inode' = store inode (blockOff inode_block) 4 disk_block) ∨
        (12 < i32 inode_block ∧ inode' = inode)) := by
  simp only [set_disk_block_number] at hrun
  split at hrun
  · rename_i hdirect
    split at hrun
    · rename_i hinside
      cases hrun
      exact ⟨SameVolume.refl s.fs, Or.inl ⟨by omega, hinside, rfl, rfl⟩⟩
    · cases hrun
  · rename_i hindirect
    have hlarge : 12 < i32 inode_block := by omega
    split at hrun
    · obtain ⟨⟨s₁, inode₁⟩, halloc, hrest⟩ := Option.bind_eq_some_iff.mp hrun
      obtain ⟨s₂, hset, heq⟩ := Option.map_eq_some_iff.mp hrest
      cases heq
      obtain ⟨hsame, hvol⟩ := alloc_in_inode hinode halloc
      exact ⟨hvol.trans (setEntry_volume hset), Or.inr ⟨hlarge, hsame⟩⟩
    · split at hrun
      · obtain ⟨⟨s₁, inode₁⟩, halloc, hrest⟩ := Option.bind_eq_some_iff.mp hrun
        obtain ⟨⟨s₂, temp, tmp⟩, hchild, hrest⟩ := Option.bind_eq_some_iff.mp hrest
        obtain ⟨s₃, hset, heq⟩ := Option.map_eq_some_iff.mp hrest
        cases heq
        obtain ⟨hsame, hvol⟩ := alloc_in_inode hinode halloc
        exact ⟨(hvol.trans (childBlock_volume hchild)).trans (setEntry_volume hset),
          Or.inr ⟨hlarge, hsame⟩⟩
      · split at hrun
        · obtain ⟨⟨s₁, inode₁⟩, halloc, hrest⟩ := Option.bind_eq_some_iff.mp hrun
          obtain ⟨⟨s₂, temp, tmp⟩, hchild, hrest⟩ := Option.bind_eq_some_iff.mp hrest
          obtain ⟨⟨s₃, temp', tmp'⟩, hchild', hrest⟩ := Option.bind_eq_some_iff.mp hrest
          obtain ⟨s₄, hset, heq⟩ := Option.map_eq_some_iff.mp hrest
          cases heq
          obtain ⟨hsame, hvol⟩ := alloc_in_inode hinode halloc
          exact ⟨((hvol.trans (childBlock_volume hchild)).trans (childBlock_volume hchild')).trans
            (setEntry_volume hset), Or.inr ⟨hlarge, hsame⟩⟩
        · cases hrun
          exact ⟨SameVolume.refl s.fs, Or.inr ⟨hlarge, rfl⟩⟩

/-- An inode cannot be written, so that neither caller of the setter returns. -/
theorem persistInode_none {record : ByteMem} (hinode : 0 < s.fs.inode_size) :
    persistInode record index s inode = none := by
  rw [persistInode, EXT2.write_inode_metadata_empty hinode, Option.map_none]

theorem alloc_inode_block_none {block : Nat} (hinode : 0 < s.fs.inode_size) :
    alloc_inode_block h s inode index block = none := by
  apply Option.bind_eq_none_iff.mpr
  rintro ⟨ret, s₁⟩ halloc
  apply Option.bind_eq_none_iff.mpr
  rintro ⟨s₂, inode₂⟩ hset
  have hsize₁ : s₁.fs.inode_size = s.fs.inode_size := (allocGroups_volume _ halloc).inode_size
  have hsize₂ := (set_disk_block_number_cases (by omega) hset).1.inode_size
  exact Option.map_eq_none_iff.mpr (persistInode_none (by omega))

theorem free_inode_block_none {map : ByteMem} {block : Nat} (hinode : 0 < s.fs.inode_size) :
    free_inode_block h map s inode index block = none := by
  apply Option.bind_eq_none_iff.mpr
  intro ret _
  apply Option.bind_eq_none_iff.mpr
  intro s₁ hfree
  apply Option.bind_eq_none_iff.mpr
  rintro ⟨s₂, inode₂⟩ hset
  have hsize₁ : s₁.fs.inode_size = s.fs.inode_size := (ext2_free_block_volume hfree).inode_size
  have hsize₂ := (set_disk_block_number_cases (by omega) hset).1.inode_size
  exact Option.map_eq_none_iff.mpr (persistInode_none (by omega))

end Setter

/-! ## Without a free block -/

/-- No group has a free block. -/
structure NoFreeBlock (s : Mounted) : Prop where
  block_size_max : s.fs.block_size ≤ 4096
  full : ∀ i p, i < s.fs.n_groups → p < 8 * s.fs.block_size → blockBitmap.bit s i p = true

/-- The block map, the inode's record on the disk and its index blocks are as before. -/
structure MapKept (s s' : Mounted) (inode inode' : ByteMem) (index : Nat) : Prop where
  map : ∀ k, k < mapEnd s.fs → blockMap s'.fs s'.disk inode' k = blockMap s.fs s.disk inode k
  record : ∀ x, x < s.fs.inode_size →
    s'.disk (s.fs.recordByte index x) = s.disk (s.fs.recordByte index x)
  index : ∀ k, k < mapEnd s.fs → ∀ b ∈ indexBlocks s.fs s.disk inode k,
    AgreeOn s.disk s'.disk (512 * s.fs.sectorOf b) (512 * s.fs.sectorOf b + s.fs.block_size)

/-- The call leaves the file intact. -/
def KeepsFile (s : Mounted) (inode : ByteMem) (index : Nat) (r : Option (Mounted × ByteMem)) :
    Prop :=
  ∃ s' inode', r = some (s', inode') ∧ MapKept s s' inode inode' index

/-- The call leaves the pointer as it was. -/
def KeepsPointer (cell : ByteMem) (off : Nat) (r : Option (Mounted × ByteMem)) : Prop :=
  ∃ s' cell', r = some (s', cell') ∧ load cell' off 4 = load cell off 4

section Full

variable {s : Mounted} {buf cell inode : ByteMem} {off : Nat}

theorem allocGroups_full (hfull : NoFreeBlock s) (n i : Nat) (buf : ByteMem)
    (hn : i + n = s.fs.n_groups) : allocGroups blockBitmap s buf i n = some (NO_BLOCK, s) := by
  induction n generalizing i buf with
  | zero => rfl
  | succ n ih =>
      rw [allocGroups]
      split
      · exact ih (i + 1) buf (by omega)
      · simp only
        cases hword : freeWord (read_disk_block s.fs s.disk (blockBitmap.addr s.fs i) buf)
            (s.fs.block_size / 4) with
        | none => exact ih (i + 1) _ (by omega)
        | some jk =>
            obtain ⟨j, k⟩ := jk
            obtain ⟨hj, hk, hclear, -⟩ := freeWord_eq_some hword
            rw [Bitmap.bufBit_read hfull.block_size_max buf (by omega),
              hfull.full i _ (by omega) (by omega)] at hclear
            cases hclear

theorem ext2_alloc_block_full (hfull : NoFreeBlock s) (buf : ByteMem) :
    ext2_alloc_block s buf = some (NO_BLOCK, s) :=
  allocGroups_full hfull s.fs.n_groups 0 buf (Nat.zero_add _)

/-- The error code is taken for a block. -/
theorem alloc_inode_metadata_block_full (hfull : NoFreeBlock s) (hmissing : load cell off 4 = 0)
    (persist : Mounted → ByteMem → Option Mounted) :
    alloc_inode_metadata_block s buf cell off persist =
      (persist s (store cell off 4 NO_BLOCK)).map fun s' => (s', store cell off 4 NO_BLOCK) := by
  rw [alloc_inode_metadata_block, if_pos hmissing, ext2_alloc_block_full hfull, Option.bind_some]
  exact if_neg (by decide)

/-- **Without a free block** no call of the two that allocate leaves the file as it was. -/
theorem no_blocks_never (hfull : NoFreeBlock s) (hinode : 0 < s.fs.inode_size) (h : Scratch)
    (inode : ByteMem) (index block : Nat) :
    ¬ KeepsFile s inode index (alloc_inode_block h s inode index block) ∧
      ∀ buf cell off persist, load cell off 4 = 0 →
        ¬ KeepsPointer cell off (alloc_inode_metadata_block s buf cell off persist) := by
  constructor
  · rintro ⟨s', inode', hrun, -⟩
    rw [alloc_inode_block_none hinode] at hrun
    cases hrun
  · rintro buf cell off persist hmissing ⟨s', cell', hrun, hkept⟩
    rw [alloc_inode_metadata_block_full hfull hmissing] at hrun
    obtain ⟨s'', -, heq⟩ := Option.map_eq_some_iff.mp hrun
    cases heq
    rw [load_store_same, hmissing] at hkept
    cases hkept

/-- What `alloc_inode_block` has put into the map before it fails. -/
theorem set_disk_block_number_direct (h : Scratch) (index : Nat) {k v : Nat} (hk : k < 12)
    (hv : v < 4294967296) :
    set_disk_block_number h s inode index k v = some (s, store inode (blockOff k) 4 v) ∧
      blockMap s.fs s.disk (store inode (blockOff k) 4 v) k = v := by
  have hint : i32 (k : Int) = k := i32_natCast (by omega)
  constructor
  · simp only [set_disk_block_number, hint]
    rw [if_pos (by omega), if_pos (by omega)]
  · rw [blockMap, if_pos hk]
    exact (load_store_same _ _ _ _).trans (Nat.mod_eq_of_lt hv)

end Full

/-! ## Releasing a block -/

/-- The block is no longer mapped, the others are as before, and exactly the bit of its disk block
is cleared. -/
def ReleasesBlock (s : Mounted) (inode : ByteMem) (k : Nat) (r : Option (Mounted × ByteMem)) :
    Prop :=
  let b := blockMap s.fs s.disk inode k
  ∃ s' inode', r = some (s', inode') ∧ blockMap s'.fs s'.disk inode' k = 0 ∧
    (∀ j, j < mapEnd s.fs → j ≠ k →
      blockMap s'.fs s'.disk inode' j = blockMap s.fs s.disk inode j) ∧
    ∀ i p, i < s.fs.n_groups → p < 8 * s.fs.block_size → blockBitmap.bit s' i p =
      if i = b / s.fs.blocks_per_group ∧ p = b % s.fs.blocks_per_group then false
      else blockBitmap.bit s i p

section Release

variable {h : Scratch} {map : ByteMem} {s s' : Mounted} {inode inode' : ByteMem} {index k : Nat}

/-- **Releasing a block** never returns. -/
theorem free_inode_block_never (hinode : 0 < s.fs.inode_size) :
    ¬ ReleasesBlock s inode k (free_inode_block h map s inode index k) := by
  rintro ⟨s', inode', hrun, -⟩
  rw [free_inode_block_none hinode] at hrun
  cases hrun

/-- And what it has done to the map before: it takes the number of the disk block for that of the
logical block, so that one of the first twelve stays mapped. -/
theorem free_keeps_direct (hinode : 0 < s.fs.inode_size) (hk : k < 12)
    (hb : 12 < blockPtr inode k)
    (hrun : set_disk_block_number h s inode index (blockPtr inode k) 0 = some (s', inode')) :
    blockMap s'.fs s'.disk inode' k = blockMap s.fs s.disk inode k := by
  rw [blockMap, blockMap, if_pos hk, if_pos hk]
  rcases (set_disk_block_number_cases hinode hrun).2 with ⟨hlow, hinside, -, -⟩ | ⟨-, hsame⟩
  · rw [i32_natCast (by omega)] at hlow
    omega
  · rw [hsame]

end Release

/-! ## A file of two blocks -/

/-- One group without a free block. -/
def fullGroup : Mounted := { oneGroup with disk := fun _ => 0xFF }

theorem fullGroup_full : NoFreeBlock fullGroup := by
  refine ⟨by decide, ?_⟩
  intro i p _ _
  have hload : ∀ x, load (fun _ => 0xFF) x 4 = 0xFFFFFFFF := fun x => by simp [load]
  rw [Bitmap.bit, EXT2.diskEntry, fullGroup, hload]
  exact testBit_full (p % 32) (Nat.mod_lt p (by norm_num))

def zeroScratch : Scratch := ⟨fun _ => 0, fun _ _ => 0, fun _ => 0, fun _ => 0⟩

/-- A third block for the file. -/
theorem no_blocks_never_third :
    ¬ KeepsFile fullGroup twoBlocks 12 (alloc_inode_block zeroScratch fullGroup twoBlocks 12 2) ∧
      ∀ buf cell off persist, load cell off 4 = 0 →
        ¬ KeepsPointer cell off (alloc_inode_metadata_block fullGroup buf cell off persist) :=
  no_blocks_never fullGroup_full (by decide) zeroScratch twoBlocks 12 2

/-- It is mapped to the error code, and then the inode is to be written. -/
theorem alloc_inode_block_maps_error :
    ext2_alloc_block fullGroup (fun _ => 0) = some (NO_BLOCK, fullGroup) ∧
      (∃ inode', set_disk_block_number zeroScratch fullGroup twoBlocks 12 2 NO_BLOCK =
          some (fullGroup, inode') ∧
        blockMap fullGroup.fs fullGroup.disk inode' 2 = NO_BLOCK) ∧
      ¬ KeepsFile fullGroup twoBlocks 12
        (alloc_inode_block zeroScratch fullGroup twoBlocks 12 2) := by
  refine ⟨ext2_alloc_block_full fullGroup_full _,
    ⟨_, set_disk_block_number_direct zeroScratch 12 (by norm_num) (by norm_num)⟩, ?_⟩
  rintro ⟨s', inode', hrun, -⟩
  rw [alloc_inode_block_none (by decide)] at hrun
  cases hrun

/-- The first block of the file. -/
theorem free_inode_block_never_first :
    ¬ ReleasesBlock oneGroup twoBlocks 0
      (free_inode_block zeroScratch (fun _ => 0) oneGroup twoBlocks 12 0) :=
  free_inode_block_never (by decide)

/-- It is in disk block 10, and what is set to 0 is logical block 10. -/
theorem free_inode_block_other_block :
    get_disk_block_number oneGroup.fs oneGroup.disk twoBlocks (fun _ => 0) 0 = some 10 ∧
      (∃ inode', set_disk_block_number zeroScratch oneGroup twoBlocks 12 10 0 =
          some (oneGroup, inode') ∧ blockMap oneGroup.fs oneGroup.disk inode' 0 = 10) ∧
      ¬ ReleasesBlock oneGroup twoBlocks 0
        (free_inode_block zeroScratch (fun _ => 0) oneGroup twoBlocks 12 0) := by
  refine ⟨by decide, ⟨_, (set_disk_block_number_direct zeroScratch 12 (by norm_num)
    (by norm_num)).1, by decide⟩, ?_⟩
  rintro ⟨s', inode', hrun, -⟩
  rw [free_inode_block_none (by decide)] at hrun
  cases hrun

end Fs
end EmbeddedOS
