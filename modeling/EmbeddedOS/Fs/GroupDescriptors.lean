import EmbeddedOS.Fs.DiskBlocks
import Mathlib.Tactic.Ring

/-!
# The table of group descriptors

`read_BGD` and `write_bgd` of `ext2.c`. The reader derives the place and the length of the table
from the block size and the number of groups. The writer puts `bgd_blocks` blocks into disk block 2,
one over the other; no code assigns `bgd_blocks`.
-/

namespace EmbeddedOS
namespace Fs

open Base Base.ByteMem

variable (fs : EXT2)

/-! ## The code -/

/-- `bgd_block` -/
def bgdBlock : Nat := 2048 / fs.block_size + 1

/-- `n_blocks` -/
def bgdCount : Nat := u32 (fs.n_groups * BGD_SIZE / fs.block_size + 1 : Nat)

/-- The size of the buffer for the table. -/
def bgdBytes : Nat := u32 (bgdCount fs * fs.block_size)

/-- The first `n` rounds of the loop of `read_BGD`; a read past the buffer is undefined. -/
def readTable (disk buf : ByteMem) : Nat → Option ByteMem
  | 0 => some buf
  | i + 1 => (readTable disk buf i).bind fun buf =>
      let off := u32 (fs.block_size * i)
      if off + 512 * (fs.block_size / 512) ≤ bgdBytes fs then
        some (devRead disk buf off (fs.block_size / 512) (fs.sectorOf (bgdBlock fs + i)))
      else
        none

/-- `read_BGD`: the bytes of the table; `buf` is the buffer from `new`. -/
def read_BGD (disk buf : ByteMem) : Option ByteMem :=
  if fs.block_size = 0 then none else readTable fs disk buf (bgdCount fs)

/-- The first `n` rounds of the loop of `write_bgd`. -/
def writeTable (disk : ByteMem) : Nat → Option ByteMem
  | 0 => some disk
  | i + 1 => (writeTable disk i).bind fun disk =>
      let off := u32 (i * fs.block_size)
      if off + 512 * (fs.block_size / 512) ≤ bgdBytes fs then
        some (write_disk_block fs disk 2 fs.BGD off)
      else
        none

def write_bgd (disk : ByteMem) : Option ByteMem := writeTable fs disk fs.bgd_blocks

/-! ## The contract -/

/-- A byte of a block that the table is read from. -/
def InTable (x : Nat) : Prop :=
  ∃ i, i < bgdCount fs ∧ 512 * fs.sectorOf (bgdBlock fs + i) ≤ x ∧
    x < 512 * fs.sectorOf (bgdBlock fs + i) + 512 * (fs.block_size / 512)

/-- Descriptors that are written come back, and nothing but the table is written. -/
def TableKept : Prop :=
  ∀ disk buf buf' : ByteMem, ∃ table, read_BGD fs disk buf = some table ∧
    ∀ BGD : ByteMem, (∀ x, BGD_SIZE * fs.n_groups ≤ x → BGD x = table x) →
      ∃ disk' table', write_bgd { fs with BGD := BGD } disk = some disk' ∧
        read_BGD fs disk' buf' = some table' ∧ AgreeOn BGD table' 0 (BGD_SIZE * fs.n_groups) ∧
          ∀ x, disk' x ≠ disk x → InTable fs x

/-! ## What the loops compute -/

/-- Where byte `x` of the table is on the disk. -/
def tableByte (x : Nat) : Nat :=
  512 * fs.sectorOf (bgdBlock fs + x / fs.block_size) + x % fs.block_size

/-- The first `n` blocks of the table on the disk, in one piece. -/
def tableImage (disk buf : ByteMem) (n : Nat) : ByteMem := fun x =>
  if x < n * fs.block_size then disk (tableByte fs x) else buf x

section Loops

variable {fs} {disk buf : ByteMem} {n : Nat}

/-- A block whose predecessors are in the buffer starts where they end. -/
theorem offset_eq (h : n * fs.block_size ≤ bgdBytes fs) :
    u32 (n * fs.block_size) = n * fs.block_size := by
  have hlt : bgdBytes fs < 4294967296 := u32_lt _
  rw [← Nat.cast_mul]
  exact u32_natCast (by omega)

/-- Rounds that each keep within the buffer do so together. -/
theorem rounds_bound {rounds : Nat → Option ByteMem}
    (hstep : ∀ i t, rounds (i + 1) = some t → (rounds i).isSome ∧
      u32 (i * fs.block_size) + fs.block_size ≤ bgdBytes fs)
    {t : ByteMem} (h : rounds n = some t) : n * fs.block_size ≤ bgdBytes fs := by
  induction n generalizing t with
  | zero => simp
  | succ n ih =>
      obtain ⟨hprev, hroom⟩ := hstep n t h
      obtain ⟨t₀, h₀⟩ := Option.isSome_iff_exists.mp hprev
      rw [offset_eq (ih h₀)] at hroom
      rw [Nat.succ_mul]
      exact hroom

theorem readTable_bound (hsec : 512 * (fs.block_size / 512) = fs.block_size) {t : ByteMem}
    (h : readTable fs disk buf n = some t) : n * fs.block_size ≤ bgdBytes fs := by
  apply rounds_bound _ h
  intro i t hi
  obtain ⟨t₀, h₀, hif⟩ := Option.bind_eq_some_iff.mp hi
  obtain ⟨hroom, -⟩ := Option.ite_none_right_eq_some.mp hif
  rw [hsec, mul_comm (fs.block_size : Int)] at hroom
  exact ⟨by simp [h₀], hroom⟩

theorem writeTable_bound (hsec : 512 * (fs.block_size / 512) = fs.block_size) {d : ByteMem}
    (h : writeTable fs disk n = some d) : n * fs.block_size ≤ bgdBytes fs := by
  apply rounds_bound _ h
  intro i t hi
  obtain ⟨t₀, h₀, hif⟩ := Option.bind_eq_some_iff.mp hi
  obtain ⟨hroom, -⟩ := Option.ite_none_right_eq_some.mp hif
  rw [hsec] at hroom
  exact ⟨by simp [h₀], hroom⟩

theorem tableImage_inside {x : Nat} (h : x < n * fs.block_size) :
    tableImage fs disk buf n x = disk (tableByte fs x) :=
  if_pos h

theorem tableImage_outside {x : Nat} (h : n * fs.block_size ≤ x) :
    tableImage fs disk buf n x = buf x := by
  apply if_neg
  omega

/-- One more block. -/
theorem tableImage_succ (hpos : 0 < fs.block_size)
    (hsec : 512 * (fs.block_size / 512) = fs.block_size) :
    devRead disk (tableImage fs disk buf n) (n * fs.block_size) (fs.block_size / 512)
      (fs.sectorOf (bgdBlock fs + n)) = tableImage fs disk buf (n + 1) := by
  have hsucc : (n + 1) * fs.block_size = n * fs.block_size + fs.block_size := Nat.succ_mul _ _
  funext x
  rcases Nat.lt_or_ge x (n * fs.block_size) with hlo | hlo
  · rw [devRead_outside (Or.inl hlo), tableImage_inside hlo, tableImage_inside (by omega)]
  · rcases Nat.lt_or_ge x ((n + 1) * fs.block_size) with hhi | hhi
    · have hdiv : x / fs.block_size = n := Nat.div_eq_of_lt_le hlo hhi
      have hmod : x % fs.block_size = x - n * fs.block_size := by
        rw [Nat.mod_eq_sub_div_mul, hdiv]
      rw [devRead_inside hlo (by omega), tableImage_inside hhi, tableByte, hdiv, hmod]
    · rw [devRead_outside (by omega), tableImage_outside hlo, tableImage_outside hhi]

theorem readTable_eq (hpos : 0 < fs.block_size)
    (hsec : 512 * (fs.block_size / 512) = fs.block_size) (h : n * fs.block_size ≤ bgdBytes fs) :
    readTable fs disk buf n = some (tableImage fs disk buf n) := by
  induction n with
  | zero =>
      rw [readTable]
      congr 1
      funext x
      exact (tableImage_outside (by omega)).symm
  | succ n ih =>
      rw [Nat.succ_mul] at h
      have hn : n * fs.block_size ≤ bgdBytes fs := by omega
      rw [readTable, ih hn, Option.bind_some]
      simp only [mul_comm (fs.block_size : Int), offset_eq hn]
      rw [if_pos (by omega), tableImage_succ hpos hsec]

/-- The reader reads past its buffer or yields the table. -/
theorem read_BGD_cases (hpos : 0 < fs.block_size)
    (hsec : 512 * (fs.block_size / 512) = fs.block_size) :
    read_BGD fs disk buf = if bgdCount fs * fs.block_size ≤ bgdBytes fs then
      some (tableImage fs disk buf (bgdCount fs)) else none := by
  rw [read_BGD, if_neg (by omega)]
  split
  · rename_i h
    exact readTable_eq hpos hsec h
  · rename_i h
    cases hr : readTable fs disk buf (bgdCount fs) with
    | none => rfl
    | some t => exact absurd (readTable_bound hsec hr) h

/-- Every round writes the same block, so the last one decides. -/
theorem writeTable_succ (hsec : 512 * (fs.block_size / 512) = fs.block_size)
    (h : (n + 1) * fs.block_size ≤ bgdBytes fs) :
    writeTable fs disk (n + 1) =
      some (write_disk_block fs disk 2 fs.BGD (n * fs.block_size)) := by
  have hstep : ∀ m d, (m + 1) * fs.block_size ≤ bgdBytes fs → writeTable fs disk m = some d →
      writeTable fs disk (m + 1) =
        some (write_disk_block fs d 2 fs.BGD (m * fs.block_size)) := by
    intro m d hm hd
    rw [Nat.succ_mul] at hm
    have hoff : u32 (m * fs.block_size) = m * fs.block_size := offset_eq (by omega)
    rw [writeTable, hd, Option.bind_some]
    simp only [hoff, hsec]
    rw [if_pos hm]
  induction n with
  | zero => exact hstep 0 disk h rfl
  | succ n ih =>
      have hn : (n + 1) * fs.block_size ≤ bgdBytes fs := by
        rw [Nat.succ_mul] at h
        omega
      rw [hstep (n + 1) _ h (ih hn)]
      congr 1
      funext x
      simp only [write_disk_block, devWrite]
      split <;> rfl

end Loops

/-! ## The block sizes -/

section Contract

variable {fs} {shift : Nat}

/-- What `1024 << block_shift` can be. -/
theorem block_size_cases (hbs : fs.block_size = u32 (1024 * 2 ^ shift : Nat)) :
    fs.block_size = 0 ∨ fs.block_size = 1024 ∨ fs.block_size = 2048 ∨
      (4096 ≤ fs.block_size ∧ fs.block_size < 4294967296 ∧ fs.block_size % 4096 = 0) := by
  have hlt := u32_lt (1024 * 2 ^ shift : Nat)
  match shift with
  | 0 => exact Or.inr (Or.inl hbs)
  | 1 => exact Or.inr (Or.inr (Or.inl hbs))
  | k + 2 =>
      have hpow : 1024 * 2 ^ (k + 2) = 4096 * 2 ^ k := by
        rw [pow_add]
        ring
      rw [hpow] at hbs hlt
      unfold u32 at hbs hlt
      omega

theorem block_size_sectors (hbs : fs.block_size = u32 (1024 * 2 ^ shift : Nat)) :
    512 * (fs.block_size / 512) = fs.block_size := by
  rcases block_size_cases hbs with h | h | h | h <;> omega

theorem bgdCount_eq (hmin : 1024 ≤ fs.block_size) (hn : fs.n_groups < 4294967296) :
    bgdCount fs = fs.n_groups * BGD_SIZE / fs.block_size + 1 := by
  have hdiv : fs.n_groups * 32 / fs.block_size ≤ fs.n_groups * 32 / 1024 :=
    Nat.div_le_div_left hmin (by norm_num)
  have hlt : fs.n_groups * 32 / fs.block_size + 1 < 4294967296 := by omega
  exact u32_natCast hlt

/-! ## When the table is kept -/

/-- A table with one byte set. -/
def single (x : Nat) : ByteMem := fun y => if y = x then 1 else 0

/-- A change to byte `x` that the writer does not bring to where the reader finds it. -/
theorem not_kept_of_lost (hpos : 0 < fs.block_size)
    (hsec : 512 * (fs.block_size / 512) = fs.block_size) {x : Nat}
    (hx : x < BGD_SIZE * fs.n_groups) (hin : x < bgdCount fs * fs.block_size)
    (hlost : ∀ d, write_bgd { fs with BGD := single x } (fun _ => 0) = some d →
      d (tableByte fs x) = 0) : ¬ TableKept fs := by
  intro h
  obtain ⟨table, ht, hkept⟩ := h (fun _ => 0) (fun _ => 0) (fun _ => 0)
  rw [read_BGD_cases hpos hsec] at ht
  obtain ⟨hroom, htable⟩ := Option.ite_none_right_eq_some.mp ht
  have hzero : ∀ y, table y = 0 := by
    intro y
    rw [← Option.some.inj htable, tableImage]
    split <;> rfl
  obtain ⟨d, table', hw, hr, hagree, -⟩ := hkept (single x) (by
    intro y hy
    rw [hzero, single, if_neg (by omega)])
  rw [read_BGD_cases hpos hsec, if_pos hroom] at hr
  have hone := hagree x (Nat.zero_le x) hx
  rw [← Option.some.inj hr, tableImage_inside hin, hlost d hw, single, if_pos rfl] at hone
  exact absurd hone (by decide)

/-- What the writer leaves on the disk, from the descriptors in memory. -/
theorem write_bgd_succ (hsec : 512 * (fs.block_size / 512) = fs.block_size)
    {disk BGD : ByteMem} {k : Nat} (hk : fs.bgd_blocks = k + 1)
    (hroom : (k + 1) * fs.block_size ≤ bgdBytes fs) :
    write_bgd { fs with BGD := BGD } disk =
      some (write_disk_block fs disk 2 BGD (k * fs.block_size)) := by
  have h := @writeTable_succ { fs with BGD := BGD } disk k hsec hroom
  rw [← hk] at h
  exact h

theorem write_bgd_cases (hsec : 512 * (fs.block_size / 512) = fs.block_size)
    {disk BGD d : ByteMem} (h : write_bgd { fs with BGD := BGD } disk = some d) :
    fs.bgd_blocks = 0 ∧ d = disk ∨
      ∃ k, fs.bgd_blocks = k + 1 ∧ (k + 1) * fs.block_size ≤ bgdBytes fs ∧
        d = write_disk_block fs disk 2 BGD (k * fs.block_size) := by
  obtain ⟨n, hn⟩ : ∃ n, fs.bgd_blocks = n := ⟨_, rfl⟩
  have hrounds : writeTable { fs with BGD := BGD } disk n = some d := by
    rw [← hn]
    exact h
  cases n with
  | zero => exact Or.inl ⟨hn, (Option.some.inj hrounds).symm⟩
  | succ k =>
      have hroom : (k + 1) * fs.block_size ≤ bgdBytes fs :=
        @writeTable_bound { fs with BGD := BGD } disk (k + 1) hsec d hrounds
      rw [write_bgd_succ hsec hn hroom] at h
      exact Or.inr ⟨k, hn, hroom, (Option.some.inj h).symm⟩

/-- The writer's one block is the whole table. -/
theorem kept_single_block (hbs : fs.block_size = 2048) (hn : fs.n_groups ≤ 64)
    (hblocks : fs.bgd_blocks = 1) : TableKept fs := by
  have hsec : 512 * (fs.block_size / 512) = fs.block_size := by omega
  have hpos : 0 < fs.block_size := by omega
  have hcount : bgdCount fs = fs.n_groups * 32 / 2048 + 1 := by
    rw [bgdCount_eq (by omega) (by omega), hbs]
  have hbytes : bgdBytes fs = bgdCount fs * fs.block_size := by
    rw [bgdBytes, ← Nat.cast_mul, u32_natCast (by rw [hcount, hbs]; omega)]
  have hfirst : bgdBlock fs = 2 := by
    rw [bgdBlock, hbs]
  have hread : ∀ disk buf, read_BGD fs disk buf = some (tableImage fs disk buf (bgdCount fs)) := by
    intro disk buf
    rw [read_BGD_cases hpos hsec, if_pos (le_of_eq hbytes.symm)]
  intro disk buf buf'
  refine ⟨_, hread disk buf, ?_⟩
  intro BGD _
  have hwrite : write_bgd { fs with BGD := BGD } disk = some (write_disk_block fs disk 2 BGD 0) := by
    have hroom : (0 + 1) * fs.block_size ≤ bgdBytes fs := by
      rw [hbytes, hcount, hbs]
      omega
    rw [← Nat.zero_mul fs.block_size]
    exact write_bgd_succ hsec hblocks hroom
  refine ⟨_, _, hwrite, hread _ _, ?_, ?_⟩
  · intro x _ hx
    change x < 32 * fs.n_groups at hx
    have hbyte : tableByte fs x = 512 * fs.sectorOf 2 + x := by
      rw [tableByte, hfirst, hbs]
      have h0 : x / 2048 = 0 := by omega
      have hmod : x % 2048 = x := by omega
      rw [h0, hmod]
    rw [tableImage_inside (by rw [hcount, hbs]; omega), hbyte, write_disk_block,
      devWrite_inside (by omega) (by omega)]
    congr 1
    omega
  · intro x hx
    refine ⟨0, by omega, ?_⟩
    by_contra hout
    apply hx
    rw [Nat.add_zero, hfirst] at hout
    exact devWrite_outside (by omega)

/-- Outside of two-kilobyte blocks the first descriptor is not in disk block 2. -/
theorem first_not_written (hbs : fs.block_size = 1024 ∨
    (4096 ≤ fs.block_size ∧ fs.block_size < 4294967296 ∧ fs.block_size % 4096 = 0)) :
    tableByte fs 0 < 512 * fs.sectorOf 2 ∨
      512 * fs.sectorOf 2 + fs.block_size ≤ tableByte fs 0 := by
  rw [tableByte, Nat.zero_div, Nat.zero_mod, Nat.add_zero, Nat.add_zero]
  unfold EXT2.sectorOf u32
  rcases hbs with hbs | ⟨hmin, hmax, _⟩
  · have hfirst : bgdBlock fs = 3 := by
      rw [bgdBlock, hbs]
    omega
  · have hfirst : bgdBlock fs = 1 := by
      rw [bgdBlock, Nat.div_eq_of_lt (by omega)]
    omega

/-- Nor is the end of disk block 2 in a table of one block. -/
theorem last_not_in_table (hcount : bgdCount fs = 1)
    (hsec : 512 * (fs.block_size / 512) = fs.block_size)
    (hbs : fs.block_size = 1024 ∨
      (4096 ≤ fs.block_size ∧ fs.block_size < 4294967296 ∧ fs.block_size % 4096 = 0)) :
    ¬ InTable fs (512 * fs.sectorOf 2 + (fs.block_size - 1)) := by
  rintro ⟨i, hi, hlo, hhi⟩
  obtain rfl : i = 0 := by omega
  unfold EXT2.sectorOf u32 at hlo hhi
  rcases hbs with hbs | ⟨hmin, hmax, _⟩
  · have hfirst : bgdBlock fs = 3 := by
      rw [bgdBlock, hbs]
    omega
  · have hfirst : bgdBlock fs = 1 := by
      rw [bgdBlock, Nat.div_eq_of_lt (by omega)]
    omega

theorem mem_of_first_block {x : Nat} (hmin : 1024 ≤ fs.block_size)
    (hn : fs.n_groups < 4294967296) (hx : x < BGD_SIZE * fs.n_groups) :
    x < bgdCount fs * fs.block_size := by
  have hlt := Nat.lt_div_mul_add (a := fs.n_groups * BGD_SIZE) (b := fs.block_size) (by omega)
  rw [bgdCount_eq hmin hn, Nat.add_mul, Nat.one_mul]
  rw [Nat.mul_comm] at hx
  omega

/-- The first descriptor is lost where the writer's block is not the first of the table. -/
theorem not_kept_elsewhere (hbs : fs.block_size = 1024 ∨
    (4096 ≤ fs.block_size ∧ fs.block_size < 4294967296 ∧ fs.block_size % 4096 = 0))
    (hn : fs.n_groups < 4294967296) (hgroup : 0 < fs.n_groups) : ¬ TableKept fs := by
  have hsec : 512 * (fs.block_size / 512) = fs.block_size := by omega
  have hx : 0 < BGD_SIZE * fs.n_groups := Nat.mul_pos (by norm_num) hgroup
  apply not_kept_of_lost (by omega) hsec hx (mem_of_first_block (by omega) hn hx)
  intro d hd
  rcases write_bgd_cases hsec hd with ⟨_, rfl⟩ | ⟨k, _, _, rfl⟩
  · rfl
  · apply devWrite_outside
    rw [hsec]
    exact first_not_written hbs

/-- With blocks of two kilobytes it is lost unless one block is written. -/
theorem not_kept_not_one (hbs : fs.block_size = 2048) (hn : fs.n_groups < 4294967296)
    (hgroup : 0 < fs.n_groups) (hblocks : fs.bgd_blocks ≠ 1) : ¬ TableKept fs := by
  have hsec : 512 * (fs.block_size / 512) = fs.block_size := by omega
  have hx : 0 < BGD_SIZE * fs.n_groups := Nat.mul_pos (by norm_num) hgroup
  have hfirst : bgdBlock fs = 2 := by
    rw [bgdBlock, hbs]
  apply not_kept_of_lost (by omega) hsec hx (mem_of_first_block (by omega) hn hx)
  intro d hd
  rcases write_bgd_cases hsec hd with ⟨_, rfl⟩ | ⟨k, hk, _, rfl⟩
  · rfl
  · have hbyte : tableByte fs 0 = 512 * fs.sectorOf 2 := by
      rw [tableByte, hfirst]
      simp
    rw [hbyte, write_disk_block, devWrite_inside (le_refl _) (by omega), single]
    apply if_neg
    rw [hbs]
    omega

/-- And the second block of a table is never written. -/
theorem not_kept_two_blocks (hbs : fs.block_size = 2048) (hn : fs.n_groups < 4294967296)
    (hgroup : 64 < fs.n_groups) : ¬ TableKept fs := by
  have hsec : 512 * (fs.block_size / 512) = fs.block_size := by omega
  have hx : 2048 < BGD_SIZE * fs.n_groups := by
    change 2048 < 32 * fs.n_groups
    omega
  have hbyte : tableByte fs 2048 = 512 * fs.sectorOf 3 := by
    rw [tableByte, bgdBlock, hbs]
    norm_num
  apply not_kept_of_lost (by omega) hsec hx (mem_of_first_block (by omega) hn hx)
  intro d hd
  rcases write_bgd_cases hsec hd with ⟨_, rfl⟩ | ⟨k, _, _, rfl⟩
  · rfl
  · rw [hbyte]
    apply devWrite_outside
    unfold EXT2.sectorOf u32
    omega

/-- Without a group there is nothing to write, and no block that may be written but the table's. -/
theorem not_kept_no_group (hbs : fs.block_size = 1024 ∨ fs.block_size = 2048 ∨
    (4096 ≤ fs.block_size ∧ fs.block_size < 4294967296 ∧ fs.block_size % 4096 = 0))
    (hgroup : fs.n_groups = 0) (hblocks : fs.bgd_blocks ≠ 0)
    (hone : fs.block_size = 2048 → fs.bgd_blocks ≠ 1) : ¬ TableKept fs := by
  have hsec : 512 * (fs.block_size / 512) = fs.block_size := by omega
  have hpos : 0 < fs.block_size := by omega
  have hcount : bgdCount fs = 1 := by
    rw [bgdCount_eq (by omega) (by omega), hgroup]
    simp
  have hbytes : bgdBytes fs = fs.block_size := by
    rw [bgdBytes, hcount, Nat.cast_one, one_mul, u32_natCast (by omega)]
  let last := 512 * fs.sectorOf 2 + (fs.block_size - 1)
  intro h
  obtain ⟨table, ht, hkept⟩ := h (single last) (fun _ => 0) (fun _ => 0)
  obtain ⟨d, table', hw, -, -, hkeep⟩ := hkept table (fun _ _ => rfl)
  rcases write_bgd_cases hsec hw with ⟨hnone, -⟩ | ⟨k, hk, hroom, rfl⟩
  · exact hblocks hnone
  · obtain rfl : k = 0 := by
      rw [hbytes] at hroom
      by_contra hk0
      have := Nat.mul_le_mul_right fs.block_size (show 2 ≤ k + 1 by omega)
      omega
    have hne : fs.block_size = 1024 ∨
        (4096 ≤ fs.block_size ∧ fs.block_size < 4294967296 ∧ fs.block_size % 4096 = 0) := by
      rcases hbs with hbs | hbs | hbs
      · exact Or.inl hbs
      · exact absurd hk (hone hbs)
      · exact Or.inr hbs
    have hout : ¬ InTable fs last := last_not_in_table hcount hsec hne
    have hdiv : (fs.block_size - 1) / fs.block_size = 0 := Nat.div_eq_of_lt (by omega)
    have hmod : (fs.block_size - 1) % fs.block_size = fs.block_size - 1 :=
      Nat.mod_eq_of_lt (by omega)
    have hbyte : tableByte fs (fs.block_size - 1) ≠ last := by
      intro heq
      apply hout
      rw [← heq]
      refine ⟨0, by omega, ?_⟩
      rw [tableByte, hdiv, hmod]
      omega
    have hold : table (fs.block_size - 1) = 0 := by
      rw [read_BGD_cases hpos hsec, hcount, hbytes, if_pos (by omega)] at ht
      rw [← Option.some.inj ht, tableImage_inside (by omega), single, if_neg hbyte]
    have hnew : write_disk_block fs (single last) 2 table (0 * fs.block_size) last = 0 := by
      rw [write_disk_block, devWrite_inside (by omega) (by omega), ← hold]
      congr 1
      omega
    apply hout
    apply hkeep
    rw [hnew, single, if_pos rfl]
    decide

/-- Without a group and without a write there is nothing to lose. -/
theorem kept_no_group (hmin : 1024 ≤ fs.block_size) (hmax : fs.block_size < 4294967296)
    (hsec : 512 * (fs.block_size / 512) = fs.block_size) (hgroup : fs.n_groups = 0)
    (hblocks : fs.bgd_blocks = 0) : TableKept fs := by
  have hcount : bgdCount fs = 1 := by
    rw [bgdCount_eq hmin (by omega), hgroup]
    simp
  have hbytes : bgdBytes fs = fs.block_size := by
    rw [bgdBytes, hcount, Nat.cast_one, one_mul, u32_natCast hmax]
  have hread : ∀ disk buf, read_BGD fs disk buf = some (tableImage fs disk buf 1) := by
    intro disk buf
    rw [read_BGD_cases (by omega) hsec, hcount, hbytes, if_pos (by omega)]
  intro disk buf buf'
  refine ⟨_, hread disk buf, ?_⟩
  intro BGD _
  refine ⟨disk, _, ?_, hread disk buf', ?_, ?_⟩
  · rw [write_bgd, hblocks, writeTable]
  · intro x _ hx
    rw [hgroup] at hx
    exact absurd hx (Nat.not_lt_zero x)
  · intro x hx
    exact absurd rfl hx

end Contract

/-- The table is kept exactly where it is the one block that the writer knows. -/
theorem write_bgd_kept_iff (shift : Nat) (hbs : fs.block_size = u32 (1024 * 2 ^ shift : Nat))
    (hn : fs.n_groups < 4294967296) :
    TableKept fs ↔ fs.block_size = 2048 ∧ fs.bgd_blocks = 1 ∧ fs.n_groups ≤ 64 ∨
      fs.block_size ≠ 0 ∧ fs.n_groups = 0 ∧ fs.bgd_blocks = 0 := by
  have hsec := block_size_sectors hbs
  constructor
  · intro h
    have hne : fs.block_size ≠ 0 := by
      intro h0
      obtain ⟨table, ht, -⟩ := h (fun _ => 0) (fun _ => 0) (fun _ => 0)
      rw [read_BGD, if_pos h0] at ht
      exact absurd ht (by simp)
    have hcases := (block_size_cases hbs).resolve_left hne
    rcases Nat.eq_zero_or_pos fs.n_groups with hgroup | hgroup
    · by_contra hcond
      apply not_kept_no_group hcases hgroup _ _ h
      · intro h0
        exact hcond (Or.inr ⟨hne, hgroup, h0⟩)
      · intro h2048 h1
        exact hcond (Or.inl ⟨h2048, h1, by omega⟩)
    · left
      rcases hcases with h1024 | h2048 | hlarge
      · exact absurd h (not_kept_elsewhere (Or.inl h1024) hn hgroup)
      · refine ⟨h2048, ?_, ?_⟩
        · by_contra h1
          exact not_kept_not_one h2048 hn hgroup h1 h
        · by_contra h64
          exact not_kept_two_blocks h2048 hn (by omega) h
      · exact absurd h (not_kept_elsewhere (Or.inr hlarge) hn hgroup)
  · rintro (⟨h2048, h1, h64⟩ | ⟨hne, hgroup, h0⟩)
    · exact kept_single_block h2048 h64 h1
    · rcases block_size_cases hbs with h | h | h | h
      · exact absurd h hne
      all_goals exact kept_no_group (by omega) (by omega) hsec hgroup h0

/-- Two-kilobyte blocks and one group. -/
theorem write_bgd_kept_one_group :
    TableKept ⟨fun _ => 0, 2048, 2048, 128, 16384, 8192, 1, 1⟩ ↔
      (2048 = 2048 ∧ 1 = 1 ∧ 1 ≤ 64 ∨ 2048 ≠ 0 ∧ 1 = 0 ∧ 1 = 0) :=
  write_bgd_kept_iff ⟨fun _ => 0, 2048, 2048, 128, 16384, 8192, 1, 1⟩ 1 (by decide) (by norm_num)

/-- Four-kilobyte blocks and one group: the table is block 1, the writer's block is 2. -/
theorem write_bgd_other_block : ¬ TableKept ⟨fun _ => 0, 2048, 4096, 128, 32768, 8192, 1, 1⟩ :=
  not_kept_elsewhere (Or.inr (by decide)) (by norm_num) (by norm_num)

end Fs
end EmbeddedOS
