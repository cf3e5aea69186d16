import EmbeddedOS.Fs.GroupDescriptors
import Mathlib.Data.Finset.Filter
import Mathlib.Data.Finset.Range
import Mathlib.Data.Finset.Card
import Mathlib.Data.Nat.Bitwise

/-!
# The bitmaps of blocks and inodes

`ext2_alloc_block` and `ext2_free_block` of `ext2.c` and `alloc_inode` and `free_inode` of
`inode.c`: one pair of functions over two bitmaps, which differ in the fields of the descriptor
and in how many items a group has. A group's bitmap is a set of positions; one call changes one
word of one bitmap and one counter.
-/

namespace EmbeddedOS
namespace Fs

open Base Base.ByteMem

/-- The file system and the disk it is on. -/
structure Mounted where
  fs : EXT2
  disk : ByteMem

/-- Which bitmap: the offsets of its address and of its counter in a descriptor, and the number of
items of a group. -/
structure Bitmap where
  addrOff : Nat
  counterOff : Nat
  perGroup : EXT2 → Nat
  addr_before : addrOff + 4 ≤ counterOff
  counter_inside : counterOff + 2 ≤ BGD_SIZE
  perGroup_kept : ∀ fs BGD, perGroup { fs with BGD := BGD } = perGroup fs

def blockBitmap : Bitmap :=
  ⟨0, 12, EXT2.blocks_per_group, by decide, by decide, fun _ _ => rfl⟩

def inodeBitmap : Bitmap :=
  ⟨4, 14, EXT2.inodes_per_group, by decide, by decide, fun _ _ => rfl⟩

namespace Bitmap

variable (B : Bitmap)

/-- `fs->BGD[i].block_bitmap_addr` -/
def addr (fs : EXT2) (i : Nat) : Nat := fs.bgdField i B.addrOff 4

/-- `fs->BGD[i].n_unalloc_blocks` -/
def counter (fs : EXT2) (i : Nat) : Nat := fs.bgdField i B.counterOff 2

def setCounter (fs : EXT2) (i v : Nat) : EXT2 :=
  { fs with BGD := store fs.BGD (BGD_SIZE * i + B.counterOff) 2 v }

end Bitmap

/-! ## The code -/

/-- The loop over the bits of a word. -/
def freeBit (w : Nat) : Option Nat := (List.range 32).find? fun k => (w >>> k) &&& 1 = 0

/-- The loop over the words of a buffer: a word and a bit of it. -/
def freeWord (buf : ByteMem) (n : Nat) : Option (Nat × Nat) :=
  (List.range n).findSome? fun j =>
    let sub_bitmap := load buf (4 * j) 4
    if sub_bitmap = 0xFFFFFFFF then none else (freeBit sub_bitmap).map fun k => (j, k)

/-- The loop over the groups `i`, `i + 1`, and so on, of which `n` are left. -/
def allocGroups (B : Bitmap) (s : Mounted) : ByteMem → Nat → Nat → Option (Nat × Mounted)
  | _, _, 0 => some (u32 (-1), s)
  | buf, i, n + 1 =>
      if B.counter s.fs i = 0 then
        allocGroups B s buf (i + 1) n
      else
        let bitmap_block := B.addr s.fs i
        let buf := read_disk_block s.fs s.disk bitmap_block buf
        match freeWord buf (s.fs.block_size / 4) with
        | none => allocGroups B s buf (i + 1) n
        | some (j, k) =>
            let buf := store buf (4 * j) 4 (load buf (4 * j) 4 ||| (1 <<< k))
            let disk := write_disk_block s.fs s.disk bitmap_block buf 0
            let fs := B.setCounter s.fs i (B.counter s.fs i - 1)
            (write_bgd fs disk).map fun disk =>
              (u32 (i * B.perGroup s.fs + j * 32 + k), ⟨fs, disk⟩)

/-- The result, and the state after the call; `buf` is the buffer from `new`. -/
def allocItem (B : Bitmap) (s : Mounted) (buf : ByteMem) : Option (Nat × Mounted) :=
  allocGroups B s buf 0 s.fs.n_groups

/-- An access past the buffer or past the table of descriptors is undefined. -/
def freeItem (B : Bitmap) (s : Mounted) (buf : ByteMem) (item : Nat) : Option Mounted :=
  let group_idx := item / B.perGroup s.fs
  let sub_bitmap_idx := (item - B.perGroup s.fs * group_idx) / 4
  let idx := (item - B.perGroup s.fs * group_idx) % 4
  if B.perGroup s.fs = 0 ∨ bgdBytes s.fs < BGD_SIZE * (group_idx + 1) ∨
      s.fs.block_size ≤ sub_bitmap_idx then
    none
  else
    let bitmap_block := B.addr s.fs group_idx
    let buf := read_disk_block s.fs s.disk bitmap_block buf
    let mask := 0xFFFFFFFF ^^^ (1 <<< idx)
    let buf := store buf (4 * sub_bitmap_idx) 4 (load buf (4 * sub_bitmap_idx) 4 &&& mask)
    let disk := write_disk_block s.fs s.disk bitmap_block buf 0
    let fs := B.setCounter s.fs group_idx (B.counter s.fs group_idx + 1)
    (write_bgd fs disk).map fun disk => ⟨fs, disk⟩

def ext2_alloc_block : Mounted → ByteMem → Option (Nat × Mounted) := allocItem blockBitmap

def ext2_free_block : Mounted → ByteMem → Nat → Option Mounted := freeItem blockBitmap

def alloc_inode : Mounted → ByteMem → Option (Nat × Mounted) := allocItem inodeBitmap

def free_inode : Mounted → ByteMem → Nat → Option Mounted := freeItem inodeBitmap

/-! ## The search -/

theorem findSome?_range_eq_some {β : Type} {f : Nat → Option β} {n : Nat} {b : β}
    (h : (List.range n).findSome? f = some b) :
    ∃ j, j < n ∧ f j = some b ∧ ∀ j', j' < j → f j' = none := by
  induction n with
  | zero => simp at h
  | succ n ih =>
      rw [List.range_succ, List.findSome?_append] at h
      cases hfirst : (List.range n).findSome? f with
      | some b' =>
          rw [hfirst] at h
          obtain ⟨j, hj, hrest⟩ := ih (hfirst.trans h)
          exact ⟨j, by omega, hrest⟩
      | none =>
          rw [hfirst] at h
          refine ⟨n, by omega, by simpa using h, ?_⟩
          intro j' hj'
          exact List.findSome?_eq_none_iff.mp hfirst j' (List.mem_range.mpr hj')

theorem shift_clear (w k : Nat) : (w >>> k) &&& 1 = 0 ↔ w.testBit k = false := by
  rw [Nat.testBit, Nat.and_comm]
  simp

theorem freeBit_eq_some {w k : Nat} (h : freeBit w = some k) :
    k < 32 ∧ w.testBit k = false ∧ ∀ k', k' < k → w.testBit k' = true := by
  obtain ⟨hclear, hmem, hleast⟩ := List.find?_range_eq_some.mp h
  refine ⟨List.mem_range.mp hmem, (shift_clear w k).mp (by simpa using hclear), ?_⟩
  intro k' hk'
  by_contra hclear'
  have hzero := (shift_clear w k').mpr (by simpa using hclear')
  simpa [hzero] using hleast k' hk'

theorem freeBit_eq_none {w : Nat} (h : freeBit w = none) (k : Nat) (hk : k < 32) :
    w.testBit k = true := by
  by_contra hclear
  have hzero := (shift_clear w k).mpr (by simpa using hclear)
  simpa [hzero] using List.find?_range_eq_none.mp h k hk

theorem testBit_full (k : Nat) (hk : k < 32) : (0xFFFFFFFF : Nat).testBit k = true := by
  rw [show (0xFFFFFFFF : Nat) = 2 ^ 32 - 1 from rfl, Nat.testBit_two_pow_sub_one]
  simpa using hk

/-- Bit `p` of a bitmap in a buffer. -/
def bufBit (buf : ByteMem) (p : Nat) : Bool := (load buf (4 * (p / 32)) 4).testBit (p % 32)

theorem bufBit_eq (buf : ByteMem) (j : Nat) {k : Nat} (hk : k < 32) :
    bufBit buf (32 * j + k) = (load buf (4 * j) 4).testBit k := by
  have hdiv : (32 * j + k) / 32 = j := by omega
  have hmod : (32 * j + k) % 32 = k := by omega
  rw [bufBit, hdiv, hmod]

/-- A word that the loop passes over has no free bit. -/
theorem word_full {buf : ByteMem} {j : Nat}
    (h : (if load buf (4 * j) 4 = 0xFFFFFFFF then none else
      (freeBit (load buf (4 * j) 4)).map fun k => (j, k)) = none) {k : Nat} (hk : k < 32) :
    bufBit buf (32 * j + k) = true := by
  rw [bufBit_eq buf j hk]
  split at h
  · rename_i hfull
    rw [hfull]
    exact testBit_full k hk
  · exact freeBit_eq_none (Option.map_eq_none_iff.mp h) k hk

theorem freeWord_eq_some {buf : ByteMem} {n j k : Nat} (h : freeWord buf n = some (j, k)) :
    j < n ∧ k < 32 ∧ bufBit buf (32 * j + k) = false ∧
      ∀ p, p < 32 * j + k → bufBit buf p = true := by
  obtain ⟨j', hj, hword, hbefore⟩ := findSome?_range_eq_some h
  simp only at hword
  split at hword
  · cases hword
  · obtain ⟨k', hk, heq⟩ := Option.map_eq_some_iff.mp hword
    cases heq
    obtain ⟨hlt, hclear, hleast⟩ := freeBit_eq_some hk
    refine ⟨hj, hlt, ?_, ?_⟩
    · rw [bufBit_eq buf j hlt]
      exact hclear
    · intro p hp
      have hsplit : 32 * (p / 32) + p % 32 = p := Nat.div_add_mod p 32
      rcases Nat.lt_or_ge (p / 32) j with hlow | hsame
      · rw [← hsplit]
        exact word_full (hbefore (p / 32) hlow) (by omega)
      · have hdiv : p / 32 = j := by omega
        rw [← hsplit, hdiv, bufBit_eq buf j (by omega)]
        exact hleast (p % 32) (by omega)

theorem freeWord_eq_none {buf : ByteMem} {n : Nat} (h : freeWord buf n = none) (p : Nat)
    (hp : p < 32 * n) : bufBit buf p = true := by
  have hword := List.findSome?_eq_none_iff.mp h (p / 32) (List.mem_range.mpr (by omega))
  rw [← Nat.div_add_mod p 32]
  exact word_full hword (by omega)


/-! ## Bits and counters -/

namespace Bitmap

variable (B : Bitmap) (s : Mounted)

/-- Position `p` of the bitmap of group `i`. -/
def bit (i p : Nat) : Bool := (s.fs.diskEntry s.disk (B.addr s.fs i) (p / 32)).testBit (p % 32)

/-- The zero bits of the bitmap of group `i`. -/
def zeros (i : Nat) : Finset Nat :=
  (Finset.range (8 * s.fs.block_size)).filter fun p => B.bit s i p = false

/-- `write_bgd` succeeds and leaves the bitmaps alone. -/
def Quiet (fs : EXT2) : Prop :=
  ∀ BGD disk, ∃ disk', write_bgd { fs with BGD := BGD } disk = some disk' ∧
    ∀ i, i < fs.n_groups → AgreeOn disk disk' (512 * fs.sectorOf (B.addr fs i))
      (512 * fs.sectorOf (B.addr fs i) + fs.block_size)

/-- Bitmaps of their own blocks, each with a counter of its zero bits. -/
structure Sound : Prop where
  block_size_max : s.fs.block_size ≤ 4096
  block_size_sectors : 512 * (s.fs.block_size / 512) = s.fs.block_size
  apart : ∀ i j, i < s.fs.n_groups → j < s.fs.n_groups → i ≠ j →
    s.fs.sectorOf (B.addr s.fs i) ≠ s.fs.sectorOf (B.addr s.fs j)
  counters : ∀ i, i < s.fs.n_groups → B.counter s.fs i = (B.zeros s i).card
  quiet : B.Quiet s.fs

/-- `s'` is `s` with position `p` of group `i` set to `v` and the counter of the group to `c`. -/
structure Changed (s s' : Mounted) (i p : Nat) (v : Bool) (c : Nat) : Prop where
  fs : s'.fs = B.setCounter s.fs i c
  bits : ∀ i' p', i' < s.fs.n_groups → p' < 8 * s.fs.block_size →
    B.bit s' i' p' = if i' = i ∧ p' = p then v else B.bit s i' p'

variable {B : Bitmap} {s s' : Mounted} {i p : Nat}

theorem mem_zeros : p ∈ B.zeros s i ↔ p < 8 * s.fs.block_size ∧ B.bit s i p = false := by
  simp [zeros]

theorem addr_setCounter (fs : EXT2) (i v j : Nat) : B.addr (B.setCounter fs i v) j = B.addr fs j := by
  have hbefore := B.addr_before
  have hinside := B.counter_inside
  apply load_store_disjoint
  unfold BGD_SIZE at hinside ⊢
  omega

theorem counter_setCounter_same (fs : EXT2) (i v : Nat) :
    B.counter (B.setCounter fs i v) i = v % 65536 :=
  load_store_same _ _ _ _

theorem counter_setCounter_ne (fs : EXT2) (v : Nat) {i j : Nat} (h : j ≠ i) :
    B.counter (B.setCounter fs i v) j = B.counter fs j := by
  have hinside := B.counter_inside
  apply load_store_disjoint
  unfold BGD_SIZE at hinside ⊢
  omega

theorem quiet_setCounter {fs : EXT2} (h : B.Quiet fs) (i v : Nat) :
    B.Quiet (B.setCounter fs i v) := by
  intro BGD disk
  obtain ⟨disk', hwrite, hkeep⟩ := h BGD disk
  refine ⟨disk', hwrite, ?_⟩
  intro j hj
  rw [addr_setCounter]
  exact hkeep j hj

/-- What is read of a bitmap. -/
theorem bufBit_read (hmax : s.fs.block_size ≤ 4096) (buf : ByteMem)
    (hp : p < 8 * s.fs.block_size) :
    bufBit (read_disk_block s.fs s.disk (B.addr s.fs i) buf) p = B.bit s i p := by
  rw [bufBit, load_read_disk_block s.fs s.disk buf _ (by omega), bit]

/-- `write_bgd` changes no bit. -/
theorem bit_written (hs : B.Sound s) {c : Nat} {disk disk' : ByteMem}
    (hwrite : write_bgd (B.setCounter s.fs i c) disk = some disk') {i' p' : Nat}
    (hi' : i' < s.fs.n_groups) (hp' : p' < 8 * s.fs.block_size) :
    B.bit ⟨B.setCounter s.fs i c, disk'⟩ i' p' = B.bit ⟨s.fs, disk⟩ i' p' := by
  have hsec := hs.block_size_sectors
  obtain ⟨disk₀, hwrite₀, hkeep⟩ := hs.quiet (B.setCounter s.fs i c).BGD disk
  cases hwrite.symm.trans hwrite₀
  rw [bit, addr_setCounter]
  change (load disk' (512 * s.fs.sectorOf (B.addr s.fs i') + 4 * (p' / 32)) 4).testBit (p' % 32) = _
  congr 1
  apply load_congr
  exact (hkeep i' hi').symm.mono (by omega) (by omega)

/-- One word of a bitmap changed in one bit. -/
theorem bit_store (hs : B.Sound s) (hi : i < s.fs.n_groups) (hp : p < 8 * s.fs.block_size)
    {w : Nat} {v : Bool} (hw : w < 4294967296)
    (hbits : ∀ k, k < 32 → w.testBit k = if k = p % 32 then v else
      (s.fs.diskEntry s.disk (B.addr s.fs i) (p / 32)).testBit k) {i' p' : Nat}
    (hi' : i' < s.fs.n_groups) (hp' : p' < 8 * s.fs.block_size) :
    B.bit ⟨s.fs, store s.disk (512 * s.fs.sectorOf (B.addr s.fs i) + 4 * (p / 32)) 4 w⟩ i' p' =
      if i' = i ∧ p' = p then v else B.bit s i' p' := by
  have hmax := hs.block_size_max
  change (load (store s.disk (512 * s.fs.sectorOf (B.addr s.fs i) + 4 * (p / 32)) 4 w)
    (512 * s.fs.sectorOf (B.addr s.fs i') + 4 * (p' / 32)) 4).testBit (p' % 32) = _
  by_cases hsame : i' = i
  · subst hsame
    by_cases hword : p' / 32 = p / 32
    · have hmod : w % 256 ^ 4 = w := Nat.mod_eq_of_lt hw
      rw [hword, load_store_same, hmod, hbits _ (by omega)]
      by_cases hp'p : p' = p
      · rw [if_pos (by omega), if_pos ⟨rfl, hp'p⟩]
      · rw [if_neg (by omega), if_neg (fun h => hp'p h.2), bit, hword]
    · rw [load_store_disjoint (by omega), if_neg (fun h => hword (by rw [h.2]))]
      rfl
  · have hapart := sectorOf_apart (hs.apart i' i hi' hi hsame)
    rw [load_store_disjoint (by omega), if_neg (fun h => hsame h.1)]
    rfl

/-- One word written back, with one bit changed. -/
theorem update_changed (hs : B.Sound s) (hi : i < s.fs.n_groups) (hp : p < 8 * s.fs.block_size)
    (buf : ByteMem) {w c : Nat} {v : Bool} (hw : w < 4294967296)
    (hbits : ∀ k, k < 32 → w.testBit k = if k = p % 32 then v else
      (s.fs.diskEntry s.disk (B.addr s.fs i) (p / 32)).testBit k) :
    ∃ s', (write_bgd (B.setCounter s.fs i c)
        (updateEntry s.fs s.disk (B.addr s.fs i) buf (p / 32) w)).map
          (fun disk => (⟨B.setCounter s.fs i c, disk⟩ : Mounted)) = some s' ∧
      B.Changed s s' i p v c := by
  have hsec := hs.block_size_sectors
  rw [updateEntry_inside hs.block_size_max hsec (by omega)]
  obtain ⟨disk', hwrite, -⟩ := hs.quiet (B.setCounter s.fs i c).BGD
    (store s.disk (512 * s.fs.sectorOf (B.addr s.fs i) + 4 * (p / 32)) 4 w)
  have hwritten : write_bgd (B.setCounter s.fs i c)
      (store s.disk (512 * s.fs.sectorOf (B.addr s.fs i) + 4 * (p / 32)) 4 w) = some disk' := hwrite
  refine ⟨⟨B.setCounter s.fs i c, disk'⟩, ?_, rfl, ?_⟩
  · rw [hwritten, Option.map_some]
  · intro i' p' hi' hp'
    rw [bit_written hs hwritten hi' hp']
    exact bit_store hs hi hp hw hbits hi' hp'

theorem quiet_of_no_blocks {fs : EXT2} (h : fs.bgd_blocks = 0) : B.Quiet fs := by
  intro BGD disk
  refine ⟨disk, by rw [write_bgd, h, writeTable], ?_⟩
  intro i _
  exact AgreeOn.refl _ _ _

/-! ## The allocators -/

/-- Position `p` of group `g` is the first zero bit of the groups from `i` on. -/
structure FirstZero (B : Bitmap) (s : Mounted) (i g p : Nat) : Prop where
  group : i ≤ g ∧ g < s.fs.n_groups
  full : ∀ i', i ≤ i' → i' < g → B.zeros s i' = ∅
  mem : p ∈ B.zeros s g
  least : ∀ p', p' < p → p' ∉ B.zeros s g

/-- The group loop finds the first zero bit, or there is none. -/
theorem allocGroups_spec (hs : B.Sound s) (n i : Nat) (buf : ByteMem)
    (hn : i + n = s.fs.n_groups) :
    (allocGroups B s buf i n = some (4294967295, s) ∧
      ∀ i', i ≤ i' → i' < s.fs.n_groups → B.zeros s i' = ∅) ∨
    ∃ g p s', FirstZero B s i g p ∧
      allocGroups B s buf i n = some (u32 (g * B.perGroup s.fs + p : Nat), s') ∧
      B.Changed s s' g p true (B.counter s.fs g - 1) := by
  have hmax := hs.block_size_max
  have hsec := hs.block_size_sectors
  induction n generalizing i buf with
  | zero =>
      left
      refine ⟨rfl, ?_⟩
      intro i' hlo hhi
      omega
  | succ n ih =>
      have hcount := hs.counters i (by omega)
      -- a group without a zero bit is passed over, whatever the buffer holds then
      have hskip : ∀ buf', B.zeros s i = ∅ →
          allocGroups B s buf i (n + 1) = allocGroups B s buf' (i + 1) n →
          (allocGroups B s buf i (n + 1) = some (4294967295, s) ∧
            ∀ i', i ≤ i' → i' < s.fs.n_groups → B.zeros s i' = ∅) ∨
          ∃ g p s', FirstZero B s i g p ∧
            allocGroups B s buf i (n + 1) = some (u32 (g * B.perGroup s.fs + p : Nat), s') ∧
            B.Changed s s' g p true (B.counter s.fs g - 1) := by
        intro buf' hempty heq
        rw [heq]
        have hall : ∀ i' j, (∀ i', i + 1 ≤ i' → i' < j → B.zeros s i' = ∅) → i ≤ i' → i' < j →
            B.zeros s i' = ∅ := by
          intro i' j hrest hlo hhi
          rcases Nat.eq_or_lt_of_le hlo with rfl | hlt
          · exact hempty
          · exact hrest i' hlt hhi
        rcases ih (i + 1) buf' (by omega) with ⟨hnone, hrest⟩ | ⟨g, p, s', hfirst, hret, hchg⟩
        · exact Or.inl ⟨hnone, fun i' => hall i' _ hrest⟩
        · refine Or.inr ⟨g, p, s', ⟨?_, fun i' => hall i' _ hfirst.full, hfirst.mem,
            hfirst.least⟩, hret, hchg⟩
          have := hfirst.group
          omega
      by_cases hzero : B.counter s.fs i = 0
      · apply hskip buf
        · rw [← Finset.card_eq_zero, ← hcount]
          exact hzero
        · rw [allocGroups, if_pos hzero]
      · cases hword : freeWord (read_disk_block s.fs s.disk (B.addr s.fs i) buf)
            (s.fs.block_size / 4) with
        | none =>
            apply hskip (read_disk_block s.fs s.disk (B.addr s.fs i) buf)
            · apply Finset.eq_empty_of_forall_notMem
              intro p hp
              obtain ⟨hlt, hclear⟩ := mem_zeros.mp hp
              have hset := freeWord_eq_none hword p (by omega)
              rw [bufBit_read hmax buf hlt, hclear] at hset
              cases hset
            · rw [allocGroups, if_neg hzero]
              simp only [hword]
        | some jk =>
            obtain ⟨j, k⟩ := jk
            obtain ⟨hj, hk, hclear, hleast⟩ := freeWord_eq_some hword
            have hp : 32 * j + k < 8 * s.fs.block_size := by omega
            have hdiv : (32 * j + k) / 32 = j := by omega
            have hmod : (32 * j + k) % 32 = k := by omega
            have hload : load (read_disk_block s.fs s.disk (B.addr s.fs i) buf) (4 * j) 4 =
                s.fs.diskEntry s.disk (B.addr s.fs i) j :=
              load_read_disk_block s.fs s.disk buf _ (by omega)
            have hlt : s.fs.diskEntry s.disk (B.addr s.fs i) j ||| 1 <<< k < 4294967296 := by
              apply Nat.or_lt_two_pow (n := 32) (load_lt _ _ 4)
              rw [Nat.one_shiftLeft]
              exact Nat.pow_lt_pow_right (by norm_num) hk
            obtain ⟨s', hret, hchg⟩ := update_changed (c := B.counter s.fs i - 1) (v := true) hs
              (show i < s.fs.n_groups by omega) hp buf hlt (by
                intro k' hk'
                rw [hdiv, hmod, Nat.testBit_or, Nat.one_shiftLeft, Nat.testBit_two_pow]
                by_cases hkk : k' = k
                · simp [hkk]
                · have hne : ¬ k = k' := fun h => hkk h.symm
                  simp [hkk, hne])
            right
            refine ⟨i, 32 * j + k, s', ⟨by omega, ?_, ?_, ?_⟩, ?_, hchg⟩
            · intro i' hlo hhi
              omega
            · rw [bufBit_read hmax buf hp] at hclear
              exact mem_zeros.mpr ⟨hp, hclear⟩
            · intro p' hp' hmem
              have hset := hleast p' hp'
              rw [bufBit_read hmax buf (by omega), (mem_zeros.mp hmem).2] at hset
              cases hset
            · rw [allocGroups, if_neg hzero]
              simp only [hword, hload]
              rw [hdiv, updateEntry] at hret
              obtain ⟨d, hd, rfl⟩ := Option.map_eq_some_iff.mp hret
              rw [hd, Option.map_some]
              congr 3
              push_cast
              ring

/-! ## After a change -/

section Changed

variable {v : Bool} {c : Nat}

theorem Changed.block_size (h : B.Changed s s' i p v c) : s'.fs.block_size = s.fs.block_size := by
  rw [h.fs]
  rfl

theorem Changed.n_groups (h : B.Changed s s' i p v c) : s'.fs.n_groups = s.fs.n_groups := by
  rw [h.fs]
  rfl

theorem Changed.perGroup (h : B.Changed s s' i p v c) :
    B.perGroup s'.fs = B.perGroup s.fs := by
  rw [h.fs]
  exact B.perGroup_kept _ _

theorem Changed.counter (h : B.Changed s s' i p v c) (hc : c < 65536) (i' : Nat) :
    B.counter s'.fs i' = if i' = i then c else B.counter s.fs i' := by
  rw [h.fs]
  split
  · rename_i heq
    rw [heq, counter_setCounter_same]
    exact Nat.mod_eq_of_lt hc
  · rename_i hne
    exact counter_setCounter_ne s.fs c hne

theorem zeros_card_le (i : Nat) : (B.zeros s i).card ≤ 8 * s.fs.block_size := by
  have h := Finset.card_filter_le (Finset.range (8 * s.fs.block_size))
    (fun p => B.bit s i p = false)
  rw [Finset.card_range] at h
  exact h

/-- Setting a zero bit takes it out of the zero bits. -/
theorem Changed.zeros_erase (h : B.Changed s s' i p true c) {i' : Nat} (hi' : i' < s.fs.n_groups) :
    B.zeros s' i' = if i' = i then (B.zeros s i').erase p else B.zeros s i' := by
  ext p'
  rw [mem_zeros, h.block_size]
  split
  · rename_i heq
    rw [Finset.mem_erase, mem_zeros]
    constructor
    · rintro ⟨hlt, hclear⟩
      rw [h.bits i' p' hi' hlt] at hclear
      by_cases hp : p' = p
      · rw [if_pos ⟨heq, hp⟩] at hclear
        cases hclear
      · rw [if_neg (fun hh => hp hh.2)] at hclear
        exact ⟨hp, hlt, hclear⟩
    · rintro ⟨hp, hlt, hclear⟩
      rw [h.bits i' p' hi' hlt, if_neg (fun hh => hp hh.2)]
      exact ⟨hlt, hclear⟩
  · rename_i hne
    rw [mem_zeros]
    constructor
    · rintro ⟨hlt, hclear⟩
      rw [h.bits i' p' hi' hlt, if_neg (fun hh => hne hh.1)] at hclear
      exact ⟨hlt, hclear⟩
    · rintro ⟨hlt, hclear⟩
      rw [h.bits i' p' hi' hlt, if_neg (fun hh => hne hh.1)]
      exact ⟨hlt, hclear⟩

/-- The bitmaps stay sound when an item is taken. -/
theorem Changed.sound (hs : B.Sound s) (h : B.Changed s s' i p true (B.counter s.fs i - 1))
    (hi : i < s.fs.n_groups) (hp : p ∈ B.zeros s i) : B.Sound s' := by
  have hmax := hs.block_size_max
  have hle := zeros_card_le (B := B) (s := s) i
  have hcount := hs.counters i hi
  refine ⟨by rw [h.block_size]; exact hs.block_size_max,
    by rw [h.block_size]; exact hs.block_size_sectors, ?_, ?_, ?_⟩
  · intro j k hj hk hne
    rw [h.n_groups] at hj hk
    rw [h.fs, addr_setCounter, addr_setCounter]
    exact hs.apart j k hj hk hne
  · intro j hj
    rw [h.n_groups] at hj
    rw [h.counter (by omega), h.zeros_erase hj]
    split
    · rename_i heq
      rw [heq, Finset.card_erase_of_mem hp, hcount]
    · exact hs.counters j hj
  · rw [h.fs]
    exact quiet_setCounter hs.quiet i _

end Changed

end Bitmap

/-! ## A volume of one group -/

/-- The bitmap of blocks is disk block 0 and that of inodes disk block 1; only the first bit of
each is zero. -/
def oneGroup : Mounted where
  fs :=
    { BGD := fun x => if x = 4 ∨ x = 12 ∨ x = 14 then 1 else 0
      start_block := 0
      block_size := 4096
      inode_size := 128
      blocks_per_group := 32768
      inodes_per_group := 32768
      n_groups := 1
      bgd_blocks := 0 }
  disk := fun x => if x % 4096 = 0 then 0xFE else 0xFF

theorem oneGroup_entry {b j : Nat} (hb : b < 2) (hj : j < 1024) :
    oneGroup.fs.diskEntry oneGroup.disk b j = if j = 0 then 0xFFFFFFFE else 0xFFFFFFFF := by
  have hsector : oneGroup.fs.sectorOf b = 8 * b := by
    change u32 ((0 : Nat) + 8 * (b : Int)) = 8 * b
    unfold u32
    omega
  rw [EXT2.diskEntry, hsector]
  have hbyte : ∀ i, i < 4 → oneGroup.disk (512 * (8 * b) + 4 * j + i) =
      if j = 0 ∧ i = 0 then 0xFE else 0xFF := by
    intro i hi
    change (if (512 * (8 * b) + 4 * j + i) % 4096 = 0 then (0xFE : UInt8) else 0xFF) = _
    have hiff : (512 * (8 * b) + 4 * j + i) % 4096 = 0 ↔ j = 0 ∧ i = 0 := by omega
    simp only [hiff]
  have h0 := hbyte 0 (by norm_num)
  have h1 := hbyte 1 (by norm_num)
  have h2 := hbyte 2 (by norm_num)
  have h3 := hbyte 3 (by norm_num)
  simp only [load, Nat.add_assoc, Nat.add_zero] at h0 h1 h2 h3 ⊢
  norm_num at h0 h1 h2 h3 ⊢
  rw [h0, h1, h2, h3]
  split <;> rfl

theorem oneGroup_bit {B : Bitmap} (haddr : B.addr oneGroup.fs 0 < 2) {p : Nat}
    (hp : p < 8 * 4096) : B.bit oneGroup 0 p = false ↔ p = 0 := by
  rw [Bitmap.bit, oneGroup_entry haddr (by omega)]
  have hk : p % 32 < 32 := Nat.mod_lt p (by norm_num)
  split
  · have hlow : ∀ k, k < 32 → ((0xFFFFFFFE : Nat).testBit k = false ↔ k = 0) := by decide
    rw [hlow _ hk]
    omega
  · rw [testBit_full _ hk]
    simp only [Bool.true_eq_false, false_iff]
    omega

theorem oneGroup_sound {B : Bitmap} (haddr : B.addr oneGroup.fs 0 < 2)
    (hcount : B.counter oneGroup.fs 0 = 1) : B.Sound oneGroup := by
  refine ⟨by decide, by decide, ?_, ?_, Bitmap.quiet_of_no_blocks rfl⟩
  · intro i j hi hj hne
    change i < 1 at hi
    change j < 1 at hj
    omega
  · intro i hi
    change i < 1 at hi
    obtain rfl : i = 0 := by omega
    have hzeros : B.zeros oneGroup 0 = {0} := by
      ext p
      rw [Bitmap.mem_zeros, Finset.mem_singleton]
      change p < 8 * 4096 ∧ _ ↔ _
      constructor
      · rintro ⟨hp, hclear⟩
        exact (oneGroup_bit haddr hp).mp hclear
      · rintro rfl
        exact ⟨by norm_num, (oneGroup_bit haddr (by norm_num)).mpr rfl⟩
    rw [hcount, hzeros, Finset.card_singleton]

end Fs
end EmbeddedOS
