import EmbeddedOS.Fs.DiskBlocks
import EmbeddedOS.Fs.Populate
import Mathlib.Tactic.Ring

/-!
# The block map of an inode

`get_disk_block_number` of `inode.c` and the map it computes: twelve direct blocks, then one, two
and three levels of index blocks. The source takes the level from the sign of an `int` that an
unsigned difference is converted to.
-/

namespace EmbeddedOS
namespace Fs

open Base Base.ByteMem

variable (fs : EXT2)

/-! ## The code -/

/-- `inode->blocks[i]` -/
def inodeBlock (inode : ByteMem) (i : Nat) : Option Nat :=
  if i < 15 then some (blockPtr inode i) else none

/-- `tmp[i]`: the buffer has `block_size` entries. -/
def tmpEntry (tmp : ByteMem) (i : Int) : Option Nat :=
  if 0 ≤ i ∧ i < fs.block_size then some (load tmp (4 * i.toNat) 4) else none

/-- `get_disk_block_number`; `tmp` is the buffer from `new`. -/
def get_disk_block_number (disk inode tmp : ByteMem) (inode_block : Nat) : Option Nat :=
  let p := fs.block_size / 4
  let a := i32 (inode_block - 12)
  if a < 0 then
    inodeBlock inode inode_block
  else
    let b := i32 (a - p)
    if b < 0 then
      let tmp := read_disk_block fs disk (blockPtr inode 12) tmp
      tmpEntry fs tmp a
    else
      let c := i32 (b - p * p)
      if c < 0 then
        let c := i32 (u32 b / p : Nat)
        let d := i32 (b - c * p)
        let tmp := read_disk_block fs disk (blockPtr inode 13) tmp
        (tmpEntry fs tmp c).bind fun block =>
          let tmp := read_disk_block fs disk block tmp
          tmpEntry fs tmp d
      else
        let d := i32 (c - p * p * p)
        if d < 0 then
          let e := i32 (u32 c / u32 (p * p) : Nat)
          let f := i32 (u32 (c - e * p * p) / p : Nat)
          let g := i32 (c - e * p * p - f * p)
          let tmp := read_disk_block fs disk (blockPtr inode 14) tmp
          (tmpEntry fs tmp e).bind fun block =>
            let tmp := read_disk_block fs disk block tmp
            (tmpEntry fs tmp f).bind fun block =>
              let tmp := read_disk_block fs disk block tmp
              tmpEntry fs tmp g
        else
          some 0

/-! ## The map -/

/-- The disk block of a logical block, level by level. -/
def blockMap (disk inode : ByteMem) (k : Nat) : Nat :=
  let p := fs.block_size / 4
  let entry := fs.diskEntry disk
  if k < 12 then
    blockPtr inode k
  else
    let a := k - 12
    if a < p then
      entry (blockPtr inode 12) a
    else
      let b := a - p
      if b < p ^ 2 then
        entry (entry (blockPtr inode 13) (b / p)) (b % p)
      else
        let c := b - p ^ 2
        entry (entry (entry (blockPtr inode 14) (c / p ^ 2)) (c / p % p)) (c % p)

/-- The first logical block without a place in the map. -/
def mapEnd : Nat :=
  let p := fs.block_size / 4
  12 + p + p ^ 2 + p ^ 3

/-! ## The code, level by level -/

section Levels

variable {fs} {disk inode tmp : ByteMem} {p : Nat}

theorem tmpEntry_read (hp : fs.block_size / 4 = p) (hmax : p ≤ 1024) {block i : Nat} {j : Int}
    (hi : i < p) (hj : j = i) :
    tmpEntry fs (read_disk_block fs disk block tmp) j = some (fs.diskEntry disk block i) := by
  subst hj
  unfold tmpEntry
  rw [if_pos (by omega), Int.toNat_natCast, load_read_disk_block fs disk tmp block (by omega)]

theorem get_direct {k : Nat} (hk : k < 12) :
    get_disk_block_number fs disk inode tmp k = some (blockPtr inode k) := by
  have ha : i32 ((k : Int) - 12) = (k : Int) - 12 := i32_of_range (by omega) (by omega)
  unfold get_disk_block_number inodeBlock
  rw [ha, if_pos (by omega), if_pos (by omega)]

theorem get_single (hp : fs.block_size / 4 = p) (hmax : p ≤ 1024) {a : Nat} (ha : a < p) :
    get_disk_block_number fs disk inode tmp (12 + a) =
      some (fs.diskEntry disk (blockPtr inode 12) a) := by
  have h1 : i32 (((12 + a : Nat) : Int) - 12) = a := by
    rw [i32_of_range (by omega) (by omega)]
    omega
  have h2 : i32 ((a : Int) - p) = (a : Int) - p := i32_of_range (by omega) (by omega)
  simp only [get_disk_block_number, hp, h1, h2]
  rw [if_neg (by omega), if_pos (by omega)]
  exact tmpEntry_read hp hmax ha rfl

/-- What the subtraction of the whole rows leaves. -/
theorem sub_rows (n q : Nat) : (n : Int) - (n / q : Nat) * q = (n % q : Nat) := by
  have h : ((n % q : Nat) : Int) + (q : Int) * (n / q : Nat) = n := by
    exact_mod_cast Nat.mod_add_div n q
  linarith

theorem get_double (hp : fs.block_size / 4 = p) (hmax : p ≤ 1024) {b : Nat} (hb : b < p * p) :
    get_disk_block_number fs disk inode tmp (12 + p + b) =
      some (fs.diskEntry disk (fs.diskEntry disk (blockPtr inode 13) (b / p)) (b % p)) := by
  have hsq : p * p ≤ 1024 * 1024 := Nat.mul_le_mul hmax hmax
  have hq : b / p < p := Nat.div_lt_of_lt_mul hb
  have hpos : 0 < p := by
    apply Nat.pos_of_ne_zero
    rintro rfl
    simp at hb
  have hr : b % p < p := Nat.mod_lt b hpos
  have h1 : i32 (((12 + p + b : Nat) : Int) - 12) = p + b := by
    rw [i32_of_range (by omega) (by omega)]
    omega
  have h2 : i32 ((p : Int) + b - p) = b := by
    rw [i32_of_range (by omega) (by omega)]
    omega
  have h3 : i32 ((b : Int) - p * p) = (b : Int) - (p * p : Nat) := by
    rw [← Nat.cast_mul, i32_of_range (by omega) (by omega)]
  have h4 : i32 ((u32 (b : Int) / p : Nat)) = (b / p : Nat) := by
    rw [u32_natCast (by omega), i32_natCast (by omega)]
  have h5 : i32 ((b : Int) - (b / p : Nat) * p) = (b % p : Nat) := by
    rw [sub_rows, i32_natCast (by omega)]
  simp only [get_disk_block_number, hp, h1, h2, h3, h4, h5]
  rw [if_neg (by omega), if_neg (by omega), if_pos (by omega), tmpEntry_read hp hmax hq rfl,
    Option.bind_some]
  exact tmpEntry_read hp hmax hr rfl

theorem get_triple (hp : fs.block_size / 4 = p) (hmax : p ≤ 1024) {c : Nat} (hc : c < p * p * p) :
    get_disk_block_number fs disk inode tmp (12 + p + p * p + c) =
      some (fs.diskEntry disk (fs.diskEntry disk (fs.diskEntry disk (blockPtr inode 14)
        (c / (p * p))) (c / p % p)) (c % p)) := by
  have hsq : p * p ≤ 1024 * 1024 := Nat.mul_le_mul hmax hmax
  have hcube : p * p * p ≤ 1024 * 1024 * 1024 := Nat.mul_le_mul hsq hmax
  have hpos : 0 < p := by
    apply Nat.pos_of_ne_zero
    rintro rfl
    simp at hc
  have he : c / (p * p) < p := Nat.div_lt_of_lt_mul hc
  have hf : c / p % p < p := Nat.mod_lt (c / p) hpos
  have hg : c % p < p := Nat.mod_lt c hpos
  have hrow : c % (p * p) < p * p := Nat.mod_lt c (Nat.mul_pos hpos hpos)
  have hrest : (c : Int) - (c / (p * p) : Nat) * p * p = (c % (p * p) : Nat) := by
    rw [mul_assoc, ← Nat.cast_mul]
    exact sub_rows c (p * p)
  have h1 : i32 (((12 + p + p * p + c : Nat) : Int) - 12) = p + (p * p : Nat) + c := by
    rw [i32_of_range (by omega) (by omega)]
    omega
  have h2 : i32 ((p : Int) + (p * p : Nat) + c - p) = (p * p : Nat) + (c : Int) := by
    rw [i32_of_range (by omega) (by omega)]
    omega
  have h3 : i32 (((p * p : Nat) : Int) + c - p * p) = c := by
    rw [← Nat.cast_mul, i32_of_range (by omega) (by omega)]
    omega
  have h4 : i32 ((c : Int) - p * p * p) = (c : Int) - (p * p * p : Nat) := by
    rw [← Nat.cast_mul, ← Nat.cast_mul, i32_of_range (by omega) (by omega)]
  have h5 : i32 ((u32 (c : Int) / u32 ((p : Int) * p) : Nat)) = (c / (p * p) : Nat) := by
    rw [u32_natCast (by omega), ← Nat.cast_mul, u32_natCast (by omega),
      i32_natCast (by omega)]
  have h6 : i32 ((u32 ((c : Int) - (c / (p * p) : Nat) * p * p) / p : Nat)) = (c / p % p : Nat) := by
    rw [hrest, u32_natCast (by omega), Nat.mod_mul_right_div_self,
      i32_natCast (by omega)]
  have h7 : i32 ((c : Int) - (c / (p * p) : Nat) * p * p - (c / p % p : Nat) * p) =
      (c % p : Nat) := by
    rw [hrest, ← Nat.mod_mul_right_div_self, sub_rows, Nat.mod_mul_right_mod,
      i32_natCast (by omega)]
  simp only [get_disk_block_number, hp, h1, h2, h3, h4, h5, h6, h7]
  rw [if_neg (by omega), if_neg (by omega), if_neg (by omega), if_pos (by omega),
    tmpEntry_read hp hmax he rfl, Option.bind_some, tmpEntry_read hp hmax hf rfl,
    Option.bind_some]
  exact tmpEntry_read hp hmax hg rfl

/-- Blocks of up to four kilobytes: `p ^ 3` is within the range of `int`. -/
theorem get_disk_block_number_eq (hp : fs.block_size / 4 = p) (hmax : p ≤ 1024) {k : Nat}
    (hk : k < mapEnd fs) :
    get_disk_block_number fs disk inode tmp k = some (blockMap fs disk inode k) := by
  simp only [mapEnd, hp, pow_succ, pow_zero, one_mul] at hk
  simp only [blockMap, hp, pow_two]
  by_cases h0 : k < 12
  · rw [if_pos h0]
    exact get_direct h0
  · obtain ⟨a, rfl⟩ : ∃ a, k = 12 + a := ⟨k - 12, by omega⟩
    rw [if_neg h0, Nat.add_sub_cancel_left]
    by_cases h1 : a < p
    · rw [if_pos h1]
      exact get_single hp hmax h1
    · obtain ⟨b, rfl⟩ : ∃ b, a = p + b := ⟨a - p, by omega⟩
      rw [if_neg h1, Nat.add_sub_cancel_left, ← Nat.add_assoc]
      by_cases h2 : b < p * p
      · rw [if_pos h2]
        exact get_double hp hmax h2
      · obtain ⟨c, rfl⟩ : ∃ c, b = p * p + c := ⟨b - p * p, by omega⟩
        rw [if_neg h2, Nat.add_sub_cancel_left, ← Nat.add_assoc]
        exact get_triple hp hmax (by omega)

end Levels

/-- With blocks of four kilobytes the code computes the map, whatever its buffer held. -/
theorem get_disk_block_number_refines (disk inode tmp : ByteMem) (k : Nat)
    (hbs : fs.block_size = 4096) (hk : k < 12 + 1024 + 1024 ^ 2 + 1024 ^ 3) :
    get_disk_block_number fs disk inode tmp k = some (blockMap fs disk inode k) := by
  have hp : fs.block_size / 4 = 1024 := by
    rw [hbs]
  apply get_disk_block_number_eq hp (Nat.le_refl 1024)
  rw [mapEnd, hp]
  exact hk

/-- The last block of the map. -/
theorem get_disk_block_number_refines_last :
    get_disk_block_number ⟨fun _ => 0, 2048, 4096, 128, 32768, 8192, 1, 1⟩ (fun _ => 1) (fun _ => 0) (fun _ => 255)
        1074791435 =
      some (blockMap ⟨fun _ => 0, 2048, 4096, 128, 32768, 8192, 1, 1⟩ (fun _ => 1) (fun _ => 0) 1074791435) :=
  get_disk_block_number_refines _ _ _ _ 1074791435 rfl (by norm_num)

end Fs
end EmbeddedOS
