import EmbeddedOS.Fs.BlockMap
import EmbeddedOS.Fs.InodeTable

/-!
# Reading and writing the data of a file

`read_inode_filedata` and `write_inode_filedata` of `inode.c`: a range of the file is cut into one
window for each block. The reader's window ends at the last byte of a block, the writer's one byte
behind it.
-/

namespace EmbeddedOS
namespace Fs

open Base Base.ByteMem

variable (fs : EXT2)

/-! ## The code -/

/-- The contents of the blocks that `new` returns, for each block of the file: the buffer of the
block and the one of the block map. -/
structure Buffers where
  block : Nat → ByteMem
  map : Nat → ByteMem

/-- The buffer has one block, and eight sectors are read into it. -/
def EXT2.read_inode_block (h : Buffers) (disk inode : ByteMem) (iblock : Nat) : Option ByteMem :=
  if fs.block_size < 8 * 512 then
    none
  else
    (get_disk_block_number fs disk inode (h.map iblock) iblock).map fun disk_block =>
      read_disk_block fs disk disk_block (h.block iblock)

def EXT2.write_inode_block (h : Buffers) (disk inode : ByteMem) (iblock : Nat) (buf : ByteMem) :
    Option ByteMem :=
  (get_disk_block_number fs disk inode (h.map iblock) iblock).map fun disk_block =>
    write_disk_block fs disk disk_block buf 0

/-- The range of a call: the numbers that both functions start from. -/
structure Window where
  start_block : Nat
  end_block : Nat
  start_off : Nat
  end_size : Nat

/-- `end_offset` -/
def endOffset (inode : ByteMem) (offset size : Nat) : Nat :=
  if u32 (offset + size) ≤ sizeLower inode then u32 (offset + size) else sizeLower inode

def window (offset end_offset : Nat) : Window where
  start_block := offset / fs.block_size
  end_block := end_offset / fs.block_size
  start_off := offset % fs.block_size
  end_size := u32 (end_offset - end_offset / fs.block_size * fs.block_size)

namespace Window

variable (w : Window)

/-- `left` -/
def left (i : Nat) : Nat := if i = w.start_block then w.start_off else 0

/-- `right`, from its value for a block that is not the last. -/
def right (i full : Nat) : Nat := if i = w.end_block then u32 (w.end_size - 1) else full

/-- `right - left + 1` -/
def length (i full : Nat) : Nat := u32 (w.right i full - w.left i + 1)

end Window

/-- `memcpy` to the offset `to` of one buffer from the offset `off` of another. -/
def copyBytes (dst : ByteMem) (at_ : Nat) (src : ByteMem) (off n : Nat) : ByteMem := fun x =>
  if at_ ≤ x ∧ x < at_ + n then src (off + (x - at_)) else dst x

/-- The loop of `read_inode_filedata`, with `n` blocks left. A copy from behind the buffer of the
block is undefined. -/
def readLoop (h : Buffers) (disk inode : ByteMem) (w : Window) :
    Nat → Nat → Nat → ByteMem → Option ByteMem
  | 0, _, _, buf => some buf
  | n + 1, i, cur_off, buf =>
      (fs.read_inode_block h disk inode i).bind fun block_buf =>
        let len := w.length i (u32 (fs.block_size - 1))
        if fs.block_size < w.left i + len then
          none
        else
          readLoop h disk inode w n (i + 1) (u32 (cur_off + len))
            (copyBytes buf cur_off block_buf (w.left i) len)

/-- The result and the buffer. -/
def read_inode_filedata (h : Buffers) (disk inode : ByteMem) (offset size : Nat) (buf : ByteMem) :
    Option (Nat × ByteMem) :=
  let end_offset := endOffset inode offset size
  let w := window fs offset end_offset
  (readLoop fs h disk inode w (w.end_block + 1 - w.start_block) w.start_block 0 buf).map
    fun buf => (u32 (end_offset - offset), buf)

/-- The loop of `write_inode_filedata`; it yields the disk. A copy to behind the buffer of the block
is undefined. -/
def writeLoop (h : Buffers) (inode : ByteMem) (w : Window) (buf : ByteMem) :
    Nat → Nat → Nat → ByteMem → Option ByteMem
  | 0, _, _, disk => some disk
  | n + 1, i, cur_off, disk =>
      (fs.read_inode_block h disk inode i).bind fun block_buf =>
        let len := w.length i fs.block_size
        if fs.block_size < w.left i + len then
          none
        else
          (fs.write_inode_block h disk inode i
            (copyBytes block_buf (w.left i) buf cur_off len)).bind
            (writeLoop h inode w buf n (i + 1) (u32 (cur_off + len)))

/-- The inode and the disk; `meta_` is the buffer for the inode's block. -/
def write_inode_filedata (h : Buffers) (meta_ disk inode : ByteMem) (index offset size : Nat)
    (buf : ByteMem) : Option (ByteMem × ByteMem) :=
  let grows := sizeLower inode < u32 (offset + size)
  let inode := if grows then store inode 4 4 (u32 (offset + size)) else inode
  let stored := if grows then fs.write_inode_metadata disk inode meta_ index else some disk
  stored.bind fun disk =>
    let w := window fs offset (endOffset inode offset size)
    (writeLoop fs h inode w buf (w.end_block + 1 - w.start_block) w.start_block 0 disk).map
      fun disk => (inode, disk)

/-! ## The bytes of a file -/

/-- Byte `y` of the file. -/
def fileByte (disk inode : ByteMem) (y : Nat) : UInt8 :=
  disk (512 * fs.sectorOf (blockMap fs disk inode (y / fs.block_size)) + y % fs.block_size)

/-- A buffer with the first `n` bytes from `offset` on. -/
def fileBytes (disk inode : ByteMem) (offset : Nat) (buf : ByteMem) (n : Nat) : ByteMem := fun x =>
  if x < n then fileByte fs disk inode (offset + x) else buf x

/-- How far the range from `offset` to `stop` is done before block `i`. -/
def doneBefore (offset stop i : Nat) : Nat := min (max (i * 4096) offset) stop - offset

section Reader

variable {fs} {h : Buffers} {disk inode buf : ByteMem} {offset stop i : Nat}

theorem read_inode_block_eq (hbs : fs.block_size = 4096) (hi : i < 1048576) :
    fs.read_inode_block h disk inode i =
      some (read_disk_block fs disk (blockMap fs disk inode i) (h.block i)) := by
  have hp : fs.block_size / 4 = 1024 := by rw [hbs]
  have hlt : i < mapEnd fs := by
    rw [mapEnd, hp]
    norm_num
    omega
  rw [EXT2.read_inode_block, if_neg (by omega), get_disk_block_number_eq hp (Nat.le_refl 1024) hlt,
    Option.map_some]

/-- The window of a range in one block, for the reader and the writer. -/
theorem window_last (hsame : offset / fs.block_size = stop / fs.block_size) (full : Nat) :
    (window fs offset stop).left (offset / fs.block_size) = offset % fs.block_size ∧
      (window fs offset stop).length (offset / fs.block_size) full =
        u32 ((stop : Int) - offset) := by
  have hstop : (stop : Int) - (stop / fs.block_size : Nat) * fs.block_size =
      (stop % fs.block_size : Nat) := sub_rows stop fs.block_size
  have hoffset : (offset : Int) - (offset / fs.block_size : Nat) * fs.block_size =
      (offset % fs.block_size : Nat) := sub_rows offset fs.block_size
  have hleft : (window fs offset stop).left (offset / fs.block_size) = offset % fs.block_size :=
    if_pos rfl
  have hright : (window fs offset stop).right (offset / fs.block_size) full =
      u32 ((u32 ((stop : Int) - (stop / fs.block_size : Nat) * fs.block_size) : Int) - 1) :=
    if_pos hsame
  refine ⟨hleft, ?_⟩
  rw [Window.length, hleft, hright, ← hoffset, hsame]
  unfold u32
  omega

/-- The window of the reader in block `i`. -/
theorem read_window (hbs : fs.block_size = 4096) (hle : offset ≤ stop) (hlt : stop < 4294967296)
    (hlo : offset / 4096 ≤ i) (hhi : i ≤ stop / 4096) :
    (window fs offset stop).left i + i * 4096 = offset + doneBefore offset stop i ∧
      (window fs offset stop).length i (u32 (fs.block_size - 1)) + doneBefore offset stop i =
        doneBefore offset stop (i + 1) := by
  have hfull : u32 ((4096 : Nat) - 1) = 4095 := rfl
  simp only [window, Window.length, Window.left, Window.right, hbs, hfull]
  unfold doneBefore u32
  split <;> split <;> omega

/-- One window more is read. -/
theorem copyBytes_read (hbs : fs.block_size = 4096) {n : Nat}
    (hleft : (window fs offset stop).left i + i * 4096 = offset + doneBefore offset stop i)
    (hfit : (window fs offset stop).left i + n ≤ 4096) :
    copyBytes (fileBytes fs disk inode offset buf (doneBefore offset stop i))
        (doneBefore offset stop i) (read_disk_block fs disk (blockMap fs disk inode i) (h.block i))
        ((window fs offset stop).left i) n =
      fileBytes fs disk inode offset buf (n + doneBefore offset stop i) := by
  funext x
  unfold copyBytes fileBytes
  rcases Nat.lt_or_ge x (doneBefore offset stop i) with hlo | hlo
  · rw [if_neg (by omega), if_pos hlo, if_pos (by omega)]
  · by_cases hhi : x < n + doneBefore offset stop i
    · have hdiv : (offset + x) / 4096 = i := by omega
      rw [if_pos (by omega), if_pos hhi, read_disk_block, devRead_inside (by omega) (by omega),
        fileByte, hbs, hdiv]
      congr 1
      omega
    · rw [if_neg (by omega), if_neg (by omega), if_neg hhi]

/-- The reader's loop, from any block of the range on. -/
theorem readLoop_eq (hbs : fs.block_size = 4096) (hle : offset ≤ stop) (hlt : stop < 4294967296)
    (n i : Nat) (hlo : offset / 4096 ≤ i) (hn : i + n = stop / 4096 + 1) :
    readLoop fs h disk inode (window fs offset stop) n i (doneBefore offset stop i)
        (fileBytes fs disk inode offset buf (doneBefore offset stop i)) =
      some (fileBytes fs disk inode offset buf (stop - offset)) := by
  induction n generalizing i with
  | zero =>
      have hdone : doneBefore offset stop i = stop - offset := by
        unfold doneBefore
        omega
      rw [readLoop, hdone]
  | succ n ih =>
      obtain ⟨hleft, hlen⟩ := read_window (i := i) hbs hle hlt hlo (by omega)
      rw [readLoop, read_inode_block_eq hbs (by omega), Option.bind_some]
      simp only
      generalize (window fs offset stop).length i (u32 (fs.block_size - 1)) = len at hlen ⊢
      have hstop : doneBefore offset stop (i + 1) < 4294967296 := by
        unfold doneBefore
        omega
      have hfit : (window fs offset stop).left i + len ≤ 4096 := by
        unfold doneBefore at hleft hlen
        omega
      have hcur : u32 ((doneBefore offset stop i : Nat) + (len : Nat)) =
          doneBefore offset stop (i + 1) := u32_of_range (by omega) hstop
      rw [if_neg (by omega), copyBytes_read hbs hleft hfit, hlen, hcur]
      exact ih (i + 1) (by omega) (by omega)

theorem endOffset_eq {size : Nat} (hfits : offset + size ≤ sizeLower inode) :
    u32 ((offset : Int) + size) = offset + size ∧ endOffset inode offset size = offset + size := by
  have hmax : sizeLower inode < 4294967296 := load_lt inode 4 4
  have hsum : u32 ((offset : Int) + size) = offset + size := u32_of_range (by omega) (by omega)
  refine ⟨hsum, ?_⟩
  rw [endOffset, hsum, if_pos hfits]

/-- The reader yields the bytes of the file up to the end of the range. -/
theorem read_inode_filedata_to (h : Buffers) (disk buf : ByteMem) (hbs : fs.block_size = 4096) {size : Nat}
    (hend : endOffset inode offset size = stop) (hle : offset ≤ stop) (hlt : stop < 4294967296) :
    read_inode_filedata fs h disk inode offset size buf =
      some (stop - offset, fileBytes fs disk inode offset buf (stop - offset)) := by
  have hstart : doneBefore offset stop (offset / 4096) = 0 := by
    unfold doneBefore
    omega
  have hnone : fileBytes fs disk inode offset buf 0 = buf := by
    funext x
    exact if_neg (Nat.not_lt_zero x)
  have hloop : readLoop fs h disk inode (window fs offset stop)
      (stop / 4096 + 1 - offset / 4096) (offset / 4096) (doneBefore offset stop (offset / 4096))
      (fileBytes fs disk inode offset buf (doneBefore offset stop (offset / 4096))) =
        some (fileBytes fs disk inode offset buf (stop - offset)) :=
    readLoop_eq hbs hle hlt _ _ (Nat.le_refl _) (by omega)
  rw [hstart, hnone] at hloop
  have hret : u32 ((stop : Int) - offset) = stop - offset := u32_of_range (by omega) (by omega)
  have hfirst : (window fs offset stop).start_block = offset / 4096 := by
    simp only [window, hbs]
  have hlast : (window fs offset stop).end_block = stop / 4096 := by
    simp only [window, hbs]
  simp only [read_inode_filedata, hend, hret, hfirst, hlast]
  rw [hloop, Option.map_some]

/-- Inside the file that is the whole range. -/
theorem read_inode_filedata_eq (hbs : fs.block_size = 4096) {size : Nat}
    (hsize : offset + size ≤ sizeLower inode) :
    read_inode_filedata fs h disk inode offset size buf =
      some (size, fileBytes fs disk inode offset buf size) := by
  have hmax : sizeLower inode < 4294967296 := load_lt inode 4 4
  have hread := read_inode_filedata_to h disk buf hbs
    (endOffset_eq hsize).2 (Nat.le_add_right offset size) (Nat.lt_of_le_of_lt hsize hmax)
  rwa [Nat.add_sub_cancel_left] at hread

end Reader

/-! ## Index blocks and data blocks -/

/-- The index blocks on the way to a logical block. -/
def indexBlocks (disk inode : ByteMem) (k : Nat) : List Nat :=
  let p := fs.block_size / 4
  let entry := fs.diskEntry disk
  if k < 12 then
    []
  else
    let a := k - 12
    if a < p then
      [blockPtr inode 12]
    else
      let b := a - p
      if b < p ^ 2 then
        [blockPtr inode 13, entry (blockPtr inode 13) (b / p)]
      else
        let c := b - p ^ 2
        [blockPtr inode 14, entry (blockPtr inode 14) (c / p ^ 2),
          entry (entry (blockPtr inode 14) (c / p ^ 2)) (c / p % p)]

/-- The blocks of the first `stop` bytes of the file are data blocks that nothing else in the file
uses: neither another logical block nor the block map. -/
structure OwnData (disk inode : ByteMem) (stop : Nat) : Prop where
  data : ∀ k k', k * fs.block_size < stop → k' * fs.block_size < sizeLower inode → k ≠ k' →
    fs.sectorOf (blockMap fs disk inode k) ≠ fs.sectorOf (blockMap fs disk inode k')
  index : ∀ k k', k * fs.block_size < stop → k' * fs.block_size < sizeLower inode →
    ∀ b ∈ indexBlocks fs disk inode k',
      fs.sectorOf (blockMap fs disk inode k) ≠ fs.sectorOf b

section Map

variable {fs} {disk disk' inode : ByteMem}

theorem diskEntry_congr {b i : Nat} (hi : i < 1024)
    (h : AgreeOn disk disk' (512 * fs.sectorOf b) (512 * fs.sectorOf b + 4096)) :
    fs.diskEntry disk' b i = fs.diskEntry disk b i := by
  apply load_congr
  exact h.symm.mono (by omega) (by omega)

/-- The map of a logical block only depends on its index blocks. -/
theorem blockMap_congr (hbs : fs.block_size = 4096) {k : Nat} (hk : k < mapEnd fs)
    (h : ∀ b ∈ indexBlocks fs disk inode k,
      AgreeOn disk disk' (512 * fs.sectorOf b) (512 * fs.sectorOf b + 4096)) :
    blockMap fs disk' inode k = blockMap fs disk inode k := by
  have hp : fs.block_size / 4 = 1024 := by rw [hbs]
  simp only [mapEnd, hp] at hk
  simp only [indexBlocks, hp] at h
  simp only [blockMap, hp]
  by_cases h0 : k < 12
  · rw [if_pos h0, if_pos h0]
  · rw [if_neg h0] at h ⊢
    rw [if_neg h0]
    by_cases h1 : k - 12 < 1024
    · rw [if_pos h1] at h ⊢
      rw [if_pos h1]
      exact diskEntry_congr h1 (h _ (by simp))
    · rw [if_neg h1] at h ⊢
      rw [if_neg h1]
      by_cases h2 : k - 12 - 1024 < 1024 ^ 2
      · rw [if_pos h2] at h ⊢
        rw [if_pos h2]
        have hfirst : fs.diskEntry disk' (blockPtr inode 13) ((k - 12 - 1024) / 1024) = _ :=
          diskEntry_congr (by omega) (h _ (by simp))
        rw [hfirst]
        exact diskEntry_congr (by omega) (h _ (by simp))
      · rw [if_neg h2] at h ⊢
        rw [if_neg h2]
        have hfirst : fs.diskEntry disk' (blockPtr inode 14)
            ((k - 12 - 1024 - 1024 ^ 2) / 1024 ^ 2) = _ :=
          diskEntry_congr (by omega) (h _ (by simp))
        rw [hfirst]
        have hsecond : fs.diskEntry disk' (fs.diskEntry disk (blockPtr inode 14)
            ((k - 12 - 1024 - 1024 ^ 2) / 1024 ^ 2))
              ((k - 12 - 1024 - 1024 ^ 2) / 1024 % 1024) = _ :=
          diskEntry_congr (by omega) (h _ (by simp))
        rw [hsecond]
        exact diskEntry_congr (by omega) (h _ (by simp))

end Map

/-! ## The writer -/

section Writer

variable {fs} {h : Buffers} {disk inode buf : ByteMem} {offset size : Nat}

/-- In a block that is not the last the writer's window is one byte too long. -/
theorem write_window_full (hpos : 0 < fs.block_size) (hmax : fs.block_size + 1 < 4294967296)
    {stop i : Nat} (hi : i ≠ stop / fs.block_size) :
    (window fs offset stop).left i + (window fs offset stop).length i fs.block_size =
      fs.block_size + 1 := by
  have hright : (window fs offset stop).right i fs.block_size = fs.block_size := if_neg hi
  have hleft : (window fs offset stop).left i < fs.block_size := by
    unfold Window.left
    split
    · exact Nat.mod_lt offset hpos
    · exact hpos
  rw [Window.length, hright]
  unfold u32
  omega

theorem writeLoop_overrun (hpos : 0 < fs.block_size) (hmax : fs.block_size + 1 < 4294967296)
    {stop i : Nat} (hi : i ≠ stop / fs.block_size) (n cur : Nat) :
    writeLoop fs h inode (window fs offset stop) buf (n + 1) i cur disk = none := by
  have hfull : (window fs offset stop).left i + _ = fs.block_size + 1 :=
    write_window_full hpos hmax hi
  rw [writeLoop]
  apply Option.bind_eq_none_iff.mpr
  intro block_buf _
  exact if_pos (by omega)

/-- A window of one block that is read, changed and written back. -/
theorem write_window_eq (hbs : fs.block_size = 4096) {b left cur n : Nat} {blk : ByteMem}
    (hfit : left + n ≤ 4096) :
    write_disk_block fs disk b (copyBytes (read_disk_block fs disk b blk) left buf cur n) 0 =
      copyBytes disk (512 * fs.sectorOf b + left) buf cur n := by
  funext x
  rw [write_disk_block]
  by_cases hin : 512 * fs.sectorOf b ≤ x ∧ x < 512 * fs.sectorOf b + 4096
  · rw [devWrite_inside hin.1 (by omega)]
    unfold copyBytes
    by_cases hwin : 512 * fs.sectorOf b + left ≤ x ∧ x < 512 * fs.sectorOf b + left + n
    · rw [if_pos (by omega), if_pos hwin]
      congr 1
      omega
    · rw [if_neg (by omega), if_neg hwin, read_disk_block, devRead_inside (by omega) (by omega)]
      congr 1
      omega
  · rw [devWrite_outside (by omega)]
    unfold copyBytes
    rw [if_neg (by omega)]

/-- A write that does not extend the file only runs the loop. -/
theorem write_inode_filedata_loop {stop : Nat} (hstop : u32 ((offset : Int) + size) = stop)
    (hfits : stop ≤ sizeLower inode) (meta_ : ByteMem) (index : Nat) :
    write_inode_filedata fs h meta_ disk inode index offset size buf =
      (writeLoop fs h inode (window fs offset stop) buf
        (stop / fs.block_size + 1 - offset / fs.block_size) (offset / fs.block_size) 0 disk).map
          fun disk => (inode, disk) := by
  have hend : endOffset inode offset size = stop := by rw [endOffset, hstop, if_pos hfits]
  have hkeep : ¬ sizeLower inode < stop := Nat.not_lt.mpr hfits
  simp only [write_inode_filedata, hstop, if_neg hkeep, Option.bind_some, hend]
  rfl

/-- A write over the end of a block overruns the buffer of the block. -/
theorem write_inode_filedata_overrun (hpos : 0 < fs.block_size)
    (hmax : fs.block_size + 1 < 4294967296) {stop : Nat}
    (hstop : u32 ((offset : Int) + size) = stop) (hfits : stop ≤ sizeLower inode)
    (hother : offset / fs.block_size < stop / fs.block_size) (meta_ : ByteMem) (index : Nat) :
    write_inode_filedata fs h meta_ disk inode index offset size buf = none := by
  obtain ⟨n, hn⟩ : ∃ n, stop / fs.block_size + 1 - offset / fs.block_size = n + 1 :=
    ⟨stop / fs.block_size - offset / fs.block_size, by omega⟩
  rw [write_inode_filedata_loop hstop hfits, hn,
    writeLoop_overrun hpos hmax (Nat.ne_of_lt hother), Option.map_none]

/-- A write within one block. -/
theorem write_inode_filedata_one (hmin : 4096 ≤ fs.block_size) {stop : Nat}
    (hstop : u32 ((offset : Int) + size) = stop) (hfits : stop ≤ sizeLower inode)
    (hsame : offset / fs.block_size = stop / fs.block_size) (hle : offset ≤ stop) {b : Nat}
    (hget : get_disk_block_number fs disk inode (h.map (offset / fs.block_size))
      (offset / fs.block_size) = some b) (meta_ buf : ByteMem) (index : Nat) :
    write_inode_filedata fs h meta_ disk inode index offset size buf =
      some (inode, write_disk_block fs disk b
        (copyBytes (read_disk_block fs disk b (h.block (offset / fs.block_size)))
          (offset % fs.block_size) buf 0 (stop - offset)) 0) := by
  have hlt : stop < 4294967296 := Nat.lt_of_le_of_lt hfits (load_lt inode 4 4)
  have hcount : stop / fs.block_size + 1 - offset / fs.block_size = 0 + 1 := by omega
  obtain ⟨hleft, hlen⟩ := window_last hsame fs.block_size
  rw [u32_of_range (n := stop - offset) (by omega) (by omega)] at hlen
  have hfit : offset % fs.block_size + (stop - offset) ≤ fs.block_size := by
    have hoffset := Nat.div_add_mod offset fs.block_size
    have hend := Nat.div_add_mod stop fs.block_size
    have hmod : stop % fs.block_size < fs.block_size := Nat.mod_lt stop (by omega)
    rw [hsame] at hoffset
    omega
  have hread : fs.read_inode_block h disk inode (offset / fs.block_size) =
      some (read_disk_block fs disk b (h.block (offset / fs.block_size))) := by
    rw [EXT2.read_inode_block, if_neg (by omega), hget, Option.map_some]
  rw [write_inode_filedata_loop hstop hfits, hcount, writeLoop, hread, Option.bind_some]
  simp only [hleft, hlen]
  rw [if_neg (by omega), EXT2.write_inode_block, hget, Option.map_some, Option.bind_some,
    writeLoop, Option.map_some]

/-- Where the disk changes in a write within one block. -/
def writtenAt (fs : EXT2) (disk inode : ByteMem) (offset : Nat) : Nat :=
  512 * fs.sectorOf (blockMap fs disk inode (offset / 4096)) + offset % 4096

/-- Blocks of the size that is read and written. -/
theorem write_inode_filedata_eq (hbs : fs.block_size = 4096)
    (hfits : offset + size ≤ sizeLower inode)
    (hsame : offset / 4096 = (offset + size) / 4096) (meta_ : ByteMem) (index : Nat) :
    write_inode_filedata fs h meta_ disk inode index offset size buf =
      some (inode, copyBytes disk (writtenAt fs disk inode offset) buf 0 size) := by
  have hmax : sizeLower inode < 4294967296 := load_lt inode 4 4
  have hp : fs.block_size / 4 = 1024 := by rw [hbs]
  have hlt : offset / 4096 < mapEnd fs := by
    rw [mapEnd, hp]
    norm_num
    omega
  have hget : get_disk_block_number fs disk inode (h.map (offset / fs.block_size))
      (offset / fs.block_size) = some (blockMap fs disk inode (offset / 4096)) := by
    rw [hbs]
    exact get_disk_block_number_eq hp (Nat.le_refl 1024) hlt
  rw [write_inode_filedata_one (by omega) (endOffset_eq hfits).1 hfits (by rw [hbs]; exact hsame)
    (Nat.le_add_right offset size) hget, Nat.add_sub_cancel_left, hbs,
    write_window_eq hbs (by omega), writtenAt]

end Writer

/-! ## Write, then read -/

/-- The write succeeds, the range reads back as `buf`, and every other byte of the file reads as
before. -/
def WritesBack (fs : EXT2) (h h' : Buffers) (meta_ disk inode : ByteMem)
    (index offset size : Nat) (buf : ByteMem) : Prop :=
  ∃ inode' disk', write_inode_filedata fs h meta_ disk inode index offset size buf =
      some (inode', disk') ∧
    (∀ out, ∃ out', read_inode_filedata fs h' disk' inode' offset size out = some (size, out') ∧
      ∀ x, x < size → out' x = buf x) ∧
    ∀ y, y < sizeLower inode → y < offset ∨ offset + size ≤ y → ∀ out, ∃ old new,
      read_inode_filedata fs h' disk inode y 1 out = some (1, old) ∧
        read_inode_filedata fs h' disk' inode' y 1 out = some (1, new) ∧ new 0 = old 0

section RoundTrip

variable {fs} {h : Buffers} {disk inode buf : ByteMem} {offset size : Nat}

/-- A byte of the file after a write within one block. -/
theorem fileByte_written (hbs : fs.block_size = 4096) (hsize : 1 ≤ size)
    (hsame : offset / 4096 = (offset + size) / 4096)
    (hown : OwnData fs disk inode (offset + size)) {y : Nat} (hy : y < sizeLower inode) :
    fileByte fs (copyBytes disk (writtenAt fs disk inode offset) buf 0 size) inode y =
      if offset ≤ y ∧ y < offset + size then buf (y - offset) else fileByte fs disk inode y := by
  have hmax : sizeLower inode < 4294967296 := load_lt inode 4 4
  have hp : fs.block_size / 4 = 1024 := by rw [hbs]
  have hk : y / 4096 < mapEnd fs := by
    rw [mapEnd, hp]
    norm_num
    omega
  have hblock : offset / 4096 * fs.block_size < offset + size := by
    rw [hbs]
    omega
  have hyblock : y / 4096 * fs.block_size < sizeLower inode := by
    rw [hbs]
    omega
  have hmap : blockMap fs (copyBytes disk (writtenAt fs disk inode offset) buf 0 size) inode
      (y / 4096) = blockMap fs disk inode (y / 4096) := by
    apply blockMap_congr hbs hk
    intro b hb x hlo hhi
    have hapart := sectorOf_apart (hown.index _ _ hblock hyblock b hb)
    unfold copyBytes writtenAt
    rw [if_neg (by omega)]
  rw [fileByte, fileByte, hbs, hmap]
  unfold copyBytes writtenAt
  by_cases hsameblock : y / 4096 = offset / 4096
  · rw [hsameblock]
    by_cases hin : offset ≤ y ∧ y < offset + size
    · rw [if_pos (by omega), if_pos hin]
      congr 1
      omega
    · rw [if_neg (by omega), if_neg hin]
  · have hapart := sectorOf_apart (hown.data _ _ hblock hyblock (fun heq => hsameblock heq.symm))
    rw [if_neg (by omega), if_neg (by omega)]

/-- **Write, then read.** The data comes back, with the rest of the file as before, exactly if the
range lies in one block and ends before its last byte. -/
theorem write_read_filedata_iff (h' : Buffers) (meta_ : ByteMem) (index : Nat)
    (hbs : fs.block_size = 4096) (hsize : 1 ≤ size) (hfits : offset + size ≤ sizeLower inode)
    (hown : OwnData fs disk inode (offset + size)) :
    WritesBack fs h h' meta_ disk inode index offset size buf ↔
      offset / 4096 = (offset + size) / 4096 := by
  constructor
  · rintro ⟨inode', disk', hwrite, -⟩
    by_contra hother
    have hover : offset / fs.block_size < (offset + size) / fs.block_size := by
      rw [hbs]
      omega
    rw [write_inode_filedata_overrun (by omega) (by omega) (endOffset_eq hfits).1 hfits hover]
      at hwrite
    cases hwrite
  · intro hsame
    refine ⟨_, _, write_inode_filedata_eq hbs hfits hsame meta_ index, ?_, ?_⟩
    · intro out
      refine ⟨_, read_inode_filedata_eq hbs hfits, ?_⟩
      intro x hx
      rw [fileBytes, if_pos hx, fileByte_written hbs hsize hsame hown (by omega),
        if_pos (by omega), Nat.add_sub_cancel_left]
    · intro y hy hout o
      refine ⟨_, _, read_inode_filedata_eq hbs (by omega), read_inode_filedata_eq hbs (by omega),
        ?_⟩
      rw [fileBytes, fileBytes, if_pos (by norm_num), if_pos (by norm_num), Nat.add_zero,
        fileByte_written hbs hsize hsame hown hy, if_neg (by omega)]

end RoundTrip

/-! ## A file of two blocks -/

/-- 8192 bytes, in the disk blocks 10 and 11. -/
def twoBlocks : ByteMem := fun x =>
  if x = 5 then 32 else if 40 ≤ x ∧ x % 4 = 0 then UInt8.ofNat (x / 4) else 0

theorem twoBlocks_own {stop : Nat} (hstop : stop ≤ 8192) :
    OwnData oneGroup.fs oneGroup.disk twoBlocks stop := by
  have hsize : sizeLower twoBlocks = 8192 := by decide
  have hmap : ∀ k, k < 2 → oneGroup.fs.sectorOf (blockMap oneGroup.fs oneGroup.disk twoBlocks k) =
      8 * (10 + k) := by decide
  constructor
  · intro k k' hk hk' hne
    change k * 4096 < stop at hk
    change k' * 4096 < _ at hk'
    rw [hmap k (by omega), hmap k' (by omega)]
    omega
  · intro k k' _ hk' b hb
    change k' * 4096 < _ at hk'
    have hdirect : k' < 12 := by omega
    rw [indexBlocks] at hb
    simp [hdirect] at hb

def zeroBuffers : Buffers := ⟨fun _ _ => 0, fun _ _ => 0⟩

/-- One byte is written and read. -/
theorem write_read_filedata_byte :
    WritesBack oneGroup.fs zeroBuffers zeroBuffers (fun _ => 0) oneGroup.disk twoBlocks 12 0 1
      (fun _ => 7) ↔ 0 / 4096 = (0 + 1) / 4096 :=
  write_read_filedata_iff zeroBuffers (fun _ => 0) 12 rfl (Nat.le_refl 1) (by decide)
    (twoBlocks_own (by norm_num))

/-- Two whole blocks are not. -/
theorem write_filedata_overruns :
    OwnData oneGroup.fs oneGroup.disk twoBlocks (0 + 8192) ∧ 0 + 8192 ≤ sizeLower twoBlocks ∧
      ¬ WritesBack oneGroup.fs zeroBuffers zeroBuffers (fun _ => 0) oneGroup.disk twoBlocks 12 0
        8192 (fun x => UInt8.ofNat x) := by
  have hfits : 0 + 8192 ≤ sizeLower twoBlocks := by decide
  refine ⟨twoBlocks_own (by norm_num), hfits, ?_⟩
  rintro ⟨inode', disk', hwrite, -⟩
  rw [write_inode_filedata_overrun (by decide) (by decide) (endOffset_eq hfits).1 hfits
    (by decide)] at hwrite
  cases hwrite

end Fs
end EmbeddedOS
