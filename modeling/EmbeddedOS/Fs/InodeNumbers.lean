import EmbeddedOS.Fs.AllocRuns
import EmbeddedOS.Fs.InodeTable

/-!
# The numbers of inodes

`alloc_inode` numbers the positions of its bitmaps from 0; `read_inode_metadata` and
`write_inode_metadata` take the number that they are given for one that starts at 1. So a new inode
is read and written in the place of the one before it, and that one is in use.
-/

namespace EmbeddedOS
namespace Fs

open Base Base.ByteMem

/-- `(index - 1) / fs->inodes_per_group` and the remainder: where an inode's record is, for its
reader and its writer. -/
def EXT2.inodePlace (fs : EXT2) (index : Nat) : Nat × Nat :=
  (u32 (index - 1) / fs.inodes_per_group, u32 (index - 1) % fs.inodes_per_group)

/-- The number that is returned is that of the place whose bit has just been set. -/
def NumberAgrees (s : Mounted) (r : Option (Nat × Mounted)) : Prop :=
  ∃ n s', r = some (n, s') ∧ ∃ g p, g < s.fs.n_groups ∧ p < 8 * s.fs.block_size ∧
    inodeBitmap.bit s g p = false ∧ inodeBitmap.bit s' g p = true ∧ s.fs.inodePlace n = (g, p)

section Numbers

variable {s : Mounted} {g p : Nat}

/-- No number is that of its own position. -/
theorem inodePlace_ne : s.fs.inodePlace (u32 (g * s.fs.inodes_per_group + p : Nat)) ≠ (g, p) := by
  intro hplace
  have hdiv : u32 ((u32 (g * s.fs.inodes_per_group + p : Nat) : Int) - 1) /
      s.fs.inodes_per_group = g := congrArg Prod.fst hplace
  have hmod : u32 ((u32 (g * s.fs.inodes_per_group + p : Nat) : Int) - 1) %
      s.fs.inodes_per_group = p := congrArg Prod.snd hplace
  have hsplit := Nat.div_add_mod' (u32 ((u32 (g * s.fs.inodes_per_group + p : Nat) : Int) - 1))
    s.fs.inodes_per_group
  rw [hdiv, hmod] at hsplit
  generalize g * s.fs.inodes_per_group = first at hsplit
  unfold u32 at hsplit
  omega

/-- **The number of a new inode** is never that of its place in the inode table. -/
theorem alloc_inode_number_never (hs : inodeBitmap.Sound s) (buf : ByteMem) :
    ¬ NumberAgrees s (alloc_inode s buf) := by
  rintro ⟨n, s', hrun, g, p, hg, hp, hclear, hset, hplace⟩
  rcases Bitmap.allocGroups_spec hs s.fs.n_groups 0 buf (Nat.zero_add _) with
    ⟨hnone, -⟩ | ⟨g', p', s'', hfirst, hrun', hchanged⟩
  · cases hrun.symm.trans hnone
    rw [hclear] at hset
    cases hset
  · cases hrun.symm.trans hrun'
    rw [hchanged.bits g p hg hp] at hset
    split at hset
    · rename_i hsame
      obtain ⟨rfl, rfl⟩ := hsame
      exact inodePlace_ne hplace
    · rw [hclear] at hset
      cases hset

/-- A volume whose bitmaps of inodes only have the bits of its inodes free. -/
structure InodesReady (s : Mounted) : Prop where
  sound : inodeBitmap.Sound s
  perGroup : 0 < s.fs.inodes_per_group ∧ s.fs.inodes_per_group ≤ 8 * s.fs.block_size
  numbers : s.fs.n_groups * s.fs.inodes_per_group < 4294967296
  padding : ∀ i p, i < s.fs.n_groups → p ∈ inodeBitmap.zeros s i → p < s.fs.inodes_per_group

theorem InodesReady.number_lt (h : InodesReady s) (hg : g < s.fs.n_groups)
    (hp : p < s.fs.inodes_per_group) : g * s.fs.inodes_per_group + p < 4294967296 := by
  have hnext : (g + 1) * s.fs.inodes_per_group ≤ s.fs.n_groups * s.fs.inodes_per_group :=
    Nat.mul_le_mul_right _ hg
  have hnumbers := h.numbers
  rw [Nat.add_mul, Nat.one_mul] at hnext
  omega

/-- The record that a new inode is given belongs to an inode in use, but for the first of all. -/
theorem alloc_inode_in_use (h : InodesReady s) {buf : ByteMem} {n : Nat} {s' : Mounted}
    (hrun : alloc_inode s buf = some (n, s')) (hfirst : n ≠ 0)
    (hfree : ∃ i, i < s.fs.n_groups ∧ (inodeBitmap.zeros s i).Nonempty) :
    inodeBitmap.bit s (s.fs.inodePlace n).1 (s.fs.inodePlace n).2 = true := by
  have hset : ∀ i p, p < 8 * s.fs.block_size → p ∉ inodeBitmap.zeros s i →
      inodeBitmap.bit s i p = true := by
    intro i p hp hout
    by_contra hclear
    exact hout (Bitmap.mem_zeros.mpr ⟨hp, by simpa using hclear⟩)
  rcases Bitmap.allocGroups_spec h.sound s.fs.n_groups 0 buf (Nat.zero_add _) with
    ⟨-, hnone⟩ | ⟨g, p, s'', hzero, hrun', -⟩
  · obtain ⟨i, hi, hsome⟩ := hfree
    rw [hnone i (Nat.zero_le i) hi] at hsome
    exact absurd hsome Finset.not_nonempty_empty
  · have hg := hzero.group.2
    have hp := h.padding g p hg hzero.mem
    have hper := h.perGroup
    have hlt := h.number_lt hg hp
    have hn : n = g * s.fs.inodes_per_group + p := by
      cases hrun.symm.trans hrun'
      exact u32_natCast hlt
    have hpred : u32 ((n : Int) - 1) = n - 1 := u32_of_range (by omega) (by omega)
    rw [EXT2.inodePlace, hpred, hn]
    rcases Nat.eq_zero_or_pos p with rfl | hpos
    · -- the last place of the group before, which is full
      obtain ⟨g', rfl⟩ : ∃ g', g = g' + 1 := by
        apply Nat.exists_eq_succ_of_ne_zero
        rintro rfl
        exact hfirst (by rw [hn, Nat.zero_mul])
      have hlast : (g' + 1) * s.fs.inodes_per_group + 0 - 1 =
          g' * s.fs.inodes_per_group + (s.fs.inodes_per_group - 1) := by
        rw [Nat.add_mul, Nat.one_mul]
        omega
      obtain ⟨hdiv, hmod⟩ := block_place (i := g') (Nat.sub_lt hper.1 Nat.one_pos)
      rw [hlast, hdiv, hmod]
      apply hset _ _ (by omega)
      rw [hzero.full g' (Nat.zero_le g') (Nat.lt_succ_self g')]
      exact Finset.notMem_empty _
    · have hbefore : g * s.fs.inodes_per_group + p - 1 =
          g * s.fs.inodes_per_group + (p - 1) := by omega
      obtain ⟨hdiv, hmod⟩ := block_place (i := g) (show p - 1 < s.fs.inodes_per_group by omega)
      rw [hbefore, hdiv, hmod]
      exact hset _ _ (by omega) (hzero.least (p - 1) (by omega))

end Numbers

/-- One group with one free inode. -/
theorem alloc_inode_number_never_one : ¬ NumberAgrees oneGroup (alloc_inode oneGroup fun _ => 0) :=
  alloc_inode_number_never (oneGroup_sound (by decide) (by decide)) fun _ => 0

/-- One group with the eleven reserved inodes in use and the next one free. -/
def reservedInodes : Mounted :=
  { oneGroup with disk := fun x => if x % 4096 = 1 then 0xF7 else 0xFF }

/-- The buffer with its bitmap. -/
def reservedBitmap : ByteMem :=
  read_disk_block reservedInodes.fs reservedInodes.disk 1 fun _ => 0

theorem reservedBitmap_load : load reservedBitmap 0 4 = 0xFFFFF7FF := by decide

theorem reservedBitmap_word : freeWord reservedBitmap 1024 = some (0, 11) := by
  have hbit : freeBit 0xFFFFF7FF = some 11 := by decide
  rw [freeWord, List.range_succ_eq_map, List.findSome?_cons]
  simp only [Nat.mul_zero, reservedBitmap_load, hbit]
  rfl

/-- The new inode has the number 11, and the place of that number, the one before, is in use. -/
theorem alloc_inode_takes_reserved :
    ∃ s', alloc_inode reservedInodes (fun _ => 0) = some (11, s') ∧
      inodeBitmap.bit reservedInodes 0 11 = false ∧ inodeBitmap.bit s' 0 11 = true ∧
      reservedInodes.fs.inodePlace 11 = (0, 10) ∧ inodeBitmap.bit reservedInodes 0 10 = true := by
  refine ⟨⟨inodeBitmap.setCounter reservedInodes.fs 0 0, write_disk_block reservedInodes.fs
    reservedInodes.disk 1 (store reservedBitmap 0 4 0xFFFFFFFF) 0⟩, ?_, ?_, ?_, ?_, ?_⟩
  · have hgroups : reservedInodes.fs.n_groups = 0 + 1 := rfl
    have hwords : reservedInodes.fs.block_size / 4 = 1024 := rfl
    have haddr : inodeBitmap.addr reservedInodes.fs 0 = 1 := by decide
    have hcount : inodeBitmap.counter reservedInodes.fs 0 = 1 := by decide
    have hbits : 0xFFFFF7FF ||| 1 <<< 11 = 0xFFFFFFFF := by decide
    rw [alloc_inode, allocItem, hgroups, allocGroups, hcount, if_neg Nat.one_ne_zero, haddr, hwords]
    simp only
    rw [← reservedBitmap, reservedBitmap_word]
    simp only [Nat.mul_zero, reservedBitmap_load, hbits]
    rfl
  all_goals decide

end Fs
end EmbeddedOS
