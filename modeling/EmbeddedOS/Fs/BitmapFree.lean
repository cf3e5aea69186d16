import EmbeddedOS.Fs.AllocRuns

/-!
# Freeing a block or an inode

The free functions divide the position of an item by four where a word has 32 bits. They clear the
bit of the item for the first four items of a group only.
-/

namespace EmbeddedOS
namespace Fs

open Base Base.ByteMem

namespace Bitmap

variable (B : Bitmap) (s : Mounted)

/-- Sound bitmaps, and descriptors that are all in the table. -/
structure Consistent : Prop extends B.Sound s where
  table : BGD_SIZE * s.fs.n_groups ≤ bgdBytes s.fs

/-- `b` is an item of a group, with its bit set. -/
structure Allocated (b : Nat) : Prop where
  perGroup_pos : 0 < B.perGroup s.fs
  group : b / B.perGroup s.fs < s.fs.n_groups
  position : b % B.perGroup s.fs < 8 * s.fs.block_size
  set : B.bit s (b / B.perGroup s.fs) (b % B.perGroup s.fs) = true

/-- Exactly the bit of `b` is cleared and exactly the counter of its group is one higher. -/
def Clears (b : Nat) (r : Option Mounted) : Prop :=
  ∃ s', r = some s' ∧
    (∀ i p, i < s.fs.n_groups → p < 8 * s.fs.block_size → B.bit s' i p =
      if i = b / B.perGroup s.fs ∧ p = b % B.perGroup s.fs then false else B.bit s i p) ∧
    ∀ i, i < s.fs.n_groups → B.counter s'.fs i =
      if i = b / B.perGroup s.fs then B.counter s.fs i + 1 else B.counter s.fs i

/-- Every bit and every counter is as in `s`. -/
def Restored (r : Option Mounted) : Prop :=
  ∃ s', r = some s' ∧
    (∀ i p, i < s.fs.n_groups → p < 8 * s.fs.block_size → B.bit s' i p = B.bit s i p) ∧
    ∀ i, i < s.fs.n_groups → B.counter s'.fs i = B.counter s.fs i

/-- The first zero bit is one of the first four of its group. -/
def EarlyZero : Prop :=
  ∃ g p, FirstZero B s 0 g p ∧ p < 4 ∧ p < B.perGroup s.fs ∧
    g * B.perGroup s.fs + p < 4294967296

variable {B s} {s' : Mounted} {b : Nat}

/-- The position of the bit that is cleared. -/
def clearedAt (r : Nat) : Nat := 32 * (r / 4) + r % 4

theorem clearedAt_eq_iff (r : Nat) : clearedAt r = r ↔ r < 4 := by
  unfold clearedAt
  omega

/-- The position of an item in its group, as the code computes it. -/
theorem position_eq (b per : Nat) : b - per * (b / per) = b % per :=
  (Nat.mod_eq_sub b per).symm

/-- A call that returns has counted one more item in the group. -/
theorem freeItem_fs {buf : ByteMem} (h : freeItem B s buf b = some s') :
    0 < B.perGroup s.fs ∧ s'.fs = B.setCounter s.fs (b / B.perGroup s.fs)
      (B.counter s.fs (b / B.perGroup s.fs) + 1) := by
  obtain ⟨hok, hif⟩ := Option.ite_none_left_eq_some.mp h
  obtain ⟨disk', -, rfl⟩ := Option.map_eq_some_iff.mp hif
  exact ⟨by omega, rfl⟩

/-- And has cleared one bit, not always the one of the item. -/
theorem freeItem_bits (hs : B.Sound s) {buf : ByteMem} (h : freeItem B s buf b = some s')
    (hg : b / B.perGroup s.fs < s.fs.n_groups) :
    ∀ i p, i < s.fs.n_groups → p < 8 * s.fs.block_size → B.bit s' i p =
      if i = b / B.perGroup s.fs ∧ p = clearedAt (b % B.perGroup s.fs) then false
      else B.bit s i p := by
  have hmax := hs.block_size_max
  have hsec := hs.block_size_sectors
  obtain ⟨-, hif⟩ := Option.ite_none_left_eq_some.mp h
  rw [position_eq] at hif
  obtain ⟨disk', hwrite, rfl⟩ := Option.map_eq_some_iff.mp hif
  intro i p hi hp
  rw [bit_written hs hwrite hi hp]
  generalize b % B.perGroup s.fs = r at hwrite ⊢
  generalize b / B.perGroup s.fs = g at hg hwrite ⊢
  change B.bit ⟨s.fs, updateEntry s.fs s.disk (B.addr s.fs g) buf (r / 4) _⟩ i p = _
  rcases Nat.lt_or_ge (r / 4) (s.fs.block_size / 4) with hin | hout
  · have hdiv : clearedAt r / 32 = r / 4 := by
      unfold clearedAt
      omega
    have hmod : clearedAt r % 32 = r % 4 := by
      unfold clearedAt
      omega
    rw [updateEntry_inside hmax hsec hin, ← hdiv]
    apply bit_store hs hg (by unfold clearedAt; omega) _ _ hi hp
    · exact Nat.lt_of_le_of_lt Nat.and_le_left (load_lt _ _ 4)
    · intro k hk
      rw [load_read_disk_block s.fs s.disk buf _ (by omega), hdiv, hmod, Nat.testBit_and,
        Nat.testBit_xor, testBit_full k hk, Nat.one_shiftLeft, Nat.testBit_two_pow]
      by_cases hkr : k = r % 4
      · simp [hkr]
      · have hne : ¬ r % 4 = k := fun heq => hkr heq.symm
        simp [hkr, hne]
  · rw [updateEntry_outside hmax hsec hout, if_neg]
    rintro ⟨-, rfl⟩
    unfold clearedAt at hp
    omega

/-- A call whose word is in the buffer returns. -/
theorem freeItem_returns (hs : B.Consistent s) (buf : ByteMem) (hper : 0 < B.perGroup s.fs)
    (hg : b / B.perGroup s.fs < s.fs.n_groups)
    (hr : b % B.perGroup s.fs / 4 < s.fs.block_size) : ∃ s', freeItem B s buf b = some s' := by
  have htable := hs.table
  have hroom : BGD_SIZE * (b / B.perGroup s.fs + 1) ≤ BGD_SIZE * s.fs.n_groups :=
    Nat.mul_le_mul_left BGD_SIZE hg
  apply Option.isSome_iff_exists.mp
  rw [freeItem, position_eq, if_neg (by omega)]
  refine Option.isSome_map.trans ?_
  obtain ⟨disk', hwrite, -⟩ := hs.quiet _ _
  exact Option.isSome_iff_exists.mpr ⟨disk', hwrite⟩

/-- The counter of a group is far from its limit. -/
theorem counter_lt (hs : B.Sound s) {i : Nat} (hi : i < s.fs.n_groups) :
    B.counter s.fs i ≤ 32768 := by
  have hle := zeros_card_le (B := B) (s := s) i
  have hmax := hs.block_size_max
  rw [hs.counters i hi]
  omega

/-- An allocated item is freed exactly if it is one of the first four of its group. -/
theorem freeItem_clears_iff (hs : B.Consistent s) (buf : ByteMem) (hb : B.Allocated s b) :
    B.Clears s b (freeItem B s buf b) ↔ b % B.perGroup s.fs < 4 := by
  have hcount := counter_lt hs.toSound hb.group
  constructor
  · rintro ⟨s', hrun, hbits, -⟩
    by_contra hlate
    have hne : b % B.perGroup s.fs ≠ clearedAt (b % B.perGroup s.fs) := by
      intro heq
      exact hlate ((clearedAt_eq_iff _).mp heq.symm)
    have hkept := freeItem_bits hs.toSound hrun hb.group _ _ hb.group hb.position
    rw [hbits _ _ hb.group hb.position, if_pos ⟨rfl, rfl⟩, if_neg (fun h => hne h.2), hb.set]
      at hkept
    cases hkept
  · intro hearly
    have hpos := hb.position
    obtain ⟨s', hrun⟩ := freeItem_returns hs buf hb.perGroup_pos hb.group (by omega)
    have hbits := freeItem_bits hs.toSound hrun hb.group
    have hfs := (freeItem_fs hrun).2
    refine ⟨s', hrun, ?_, ?_⟩
    · intro i p hi hp
      rw [hbits i p hi hp, (clearedAt_eq_iff _).mpr hearly]
    · intro i hi
      rw [hfs]
      split
      · rename_i heq
        rw [heq, counter_setCounter_same]
        omega
      · rename_i hne
        exact counter_setCounter_ne _ _ hne

/-! ## Allocation, then free -/

theorem Changed.consistent (hs : B.Consistent s) {i p : Nat}
    (h : B.Changed s s' i p true (B.counter s.fs i - 1)) (hi : i < s.fs.n_groups)
    (hp : p ∈ B.zeros s i) : B.Consistent s' := by
  refine ⟨h.sound hs.toSound hi hp, ?_⟩
  rw [h.fs]
  exact hs.table

theorem FirstZero.unique {i g p g' p' : Nat} (h : FirstZero B s i g p)
    (h' : FirstZero B s i g' p') : g' = g ∧ p' = p := by
  have hle : ∀ {g p g' p'}, FirstZero B s i g p → FirstZero B s i g' p' → g ≤ g' := by
    intro g p g' p' h h'
    by_contra hlt
    have hempty := h.full g' h'.group.1 (by omega)
    have hmem := h'.mem
    rw [hempty] at hmem
    exact absurd hmem (Finset.notMem_empty p')
  obtain rfl : g' = g := Nat.le_antisymm (hle h' h) (hle h h')
  refine ⟨rfl, ?_⟩
  by_contra hne
  rcases Nat.lt_or_gt_of_ne hne with hlt | hgt
  · exact h.least p' hlt h'.mem
  · exact h'.least p hgt h.mem

/-- The group of a number is the one it was made from only if nothing overflowed. -/
theorem place_of_group {g p per : Nat} (hper : 0 < per) (hp : p < 4294967296)
    (hg : u32 (g * per + p : Nat) / per = g) :
    g * per + p < 4294967296 ∧ p < per := by
  obtain ⟨hlo, hhi⟩ := (Nat.div_eq_iff hper).mp hg
  unfold u32 at hlo hhi
  omega

/-- Freeing the item that was just allocated restores the state exactly if it was one of the first
four of its group. -/
theorem freeItem_restores_iff (hs : B.Consistent s) {buf buf' : ByteMem} {r : Nat}
    (hrun : allocItem B s buf = some (r, s')) (hne : r ≠ NO_BLOCK) :
    B.Restored s (freeItem B s' buf' r) ↔ B.EarlyZero s := by
  rcases allocGroups_spec hs.toSound s.fs.n_groups 0 buf (Nat.zero_add _) with
    ⟨hnone, -⟩ | ⟨g, p, t, hfirst, hsome, hc⟩
  · cases hrun.symm.trans hnone
    exact absurd rfl hne
  · cases hrun.symm.trans hsome
    have hg := hfirst.group.2
    have hcount := counter_lt hs.toSound hg
    have hmax := hs.block_size_max
    obtain ⟨hp, hclear⟩ := mem_zeros.mp hfirst.mem
    have hs' := hc.consistent hs hg hfirst.mem
    have hpos : 0 < (B.zeros s g).card := Finset.card_pos.mpr ⟨p, hfirst.mem⟩
    rw [← hs.counters g hg] at hpos
    have htaken : B.counter s'.fs g = B.counter s.fs g - 1 := by
      rw [hc.counter (by omega), if_pos rfl]
    constructor
    · rintro ⟨s₂, hfree, hbits, hcounters⟩
      obtain ⟨hper, hfs⟩ := freeItem_fs hfree
      have hgroup : u32 (g * B.perGroup s.fs + p : Nat) / B.perGroup s'.fs = g := by
        by_contra hother
        have hsame := hcounters g hg
        rw [hfs, counter_setCounter_ne _ _ (fun h => hother h.symm), htaken] at hsame
        omega
      rw [hc.perGroup] at hper hgroup
      obtain ⟨hfits, hin⟩ := place_of_group hper (by omega) hgroup
      obtain ⟨hdiv, hmod⟩ := block_place (i := g) hin
      have hret : u32 ((g * B.perGroup s.fs + p : Nat) : Int) = g * B.perGroup s.fs + p :=
        u32_natCast hfits
      refine ⟨g, p, hfirst, ?_, hin, hfits⟩
      rw [hret] at hfree
      have hafter := freeItem_bits hs'.toSound hfree (by rw [hc.perGroup, hdiv, hc.n_groups]; exact hg)
        g p (by rw [hc.n_groups]; exact hg) (by rw [hc.block_size]; exact hp)
      have hset : B.bit s' g p = true := by
        rw [hc.bits g p hg hp, if_pos ⟨rfl, rfl⟩]
      by_contra hlate
      rw [hbits g p hg hp, hclear, hc.perGroup, hdiv, hmod, hset,
        if_neg (fun h => hlate ((clearedAt_eq_iff p).mp h.2.symm))] at hafter
      cases hafter
    · rintro ⟨g', p', hfirst', hearly, hin, hfits⟩
      obtain ⟨rfl, rfl⟩ := hfirst.unique hfirst'
      obtain ⟨hdiv, hmod⟩ := block_place (i := g') hin
      have hret : u32 ((g' * B.perGroup s.fs + p' : Nat) : Int) = g' * B.perGroup s.fs + p' :=
        u32_natCast hfits
      have hgroup : (g' * B.perGroup s.fs + p') / B.perGroup s'.fs = g' := by
        rw [hc.perGroup, hdiv]
      have hplace : (g' * B.perGroup s.fs + p') % B.perGroup s'.fs = p' := by
        rw [hc.perGroup, hmod]
      rw [hret]
      obtain ⟨s₂, hfree⟩ := freeItem_returns (b := g' * B.perGroup s.fs + p') hs' buf'
        (by rw [hc.perGroup]; omega) (by rw [hgroup, hc.n_groups]; exact hg)
        (by rw [hplace, hc.block_size]; omega)
      have hfs := (freeItem_fs hfree).2
      rw [hgroup] at hfs
      refine ⟨s₂, hfree, ?_, ?_⟩
      · intro i q hi hq
        rw [freeItem_bits hs'.toSound hfree (by rw [hgroup, hc.n_groups]; exact hg) i q
          (by rw [hc.n_groups]; exact hi) (by rw [hc.block_size]; exact hq), hgroup, hplace,
          (clearedAt_eq_iff p').mpr hearly, hc.bits i q hi hq]
        by_cases hsame : i = g' ∧ q = p'
        · rw [if_pos hsame, hsame.1, hsame.2, hclear]
        · rw [if_neg hsame, if_neg hsame]
      · intro i hi
        rw [hfs]
        by_cases hig : i = g'
        · rw [hig, counter_setCounter_same, htaken]
          omega
        · rw [counter_setCounter_ne _ _ hig, hc.counter (by omega), if_neg hig]

end Bitmap

/-! ## The four functions -/

/-- **Free undoes allocate** for the first four items of a group, and for no other. -/
theorem ext2_free_inverts_iff {s : Mounted} (hb : blockBitmap.Consistent s)
    (hi : inodeBitmap.Consistent s) :
    (∀ buf b, blockBitmap.Allocated s b →
      (blockBitmap.Clears s b (ext2_free_block s buf b) ↔ b % s.fs.blocks_per_group < 4)) ∧
    (∀ buf buf' b s', ext2_alloc_block s buf = some (b, s') → b ≠ NO_BLOCK →
      (blockBitmap.Restored s (ext2_free_block s' buf' b) ↔ blockBitmap.EarlyZero s)) ∧
    (∀ buf n, inodeBitmap.Allocated s n →
      (inodeBitmap.Clears s n (free_inode s buf n) ↔ n % s.fs.inodes_per_group < 4)) ∧
    (∀ buf buf' n s', alloc_inode s buf = some (n, s') → n ≠ NO_BLOCK →
      (inodeBitmap.Restored s (free_inode s' buf' n) ↔ inodeBitmap.EarlyZero s)) := by
  refine ⟨?_, ?_, ?_, ?_⟩
  · intro buf b hb'
    exact Bitmap.freeItem_clears_iff hb buf hb'
  · intro buf buf' b s' hrun hne
    exact Bitmap.freeItem_restores_iff hb hrun hne
  · intro buf n hn
    exact Bitmap.freeItem_clears_iff hi buf hn
  · intro buf buf' n s' hrun hne
    exact Bitmap.freeItem_restores_iff hi hrun hne

theorem oneGroup_consistent {B : Bitmap} (haddr : B.addr oneGroup.fs 0 < 2)
    (hcount : B.counter oneGroup.fs 0 = 1) : B.Consistent oneGroup :=
  ⟨oneGroup_sound haddr hcount, by decide⟩

theorem oneGroup_allocated {b : Nat} (hpos : 0 < b) (hlt : b < 32768) :
    blockBitmap.Allocated oneGroup b := by
  have hdiv : b / blockBitmap.perGroup oneGroup.fs = 0 := Nat.div_eq_of_lt hlt
  have hmod : b % blockBitmap.perGroup oneGroup.fs = b := Nat.mod_eq_of_lt hlt
  refine ⟨by decide, by rw [hdiv]; decide, by rw [hmod]; exact hlt, ?_⟩
  rw [hdiv, hmod]
  have haddr : blockBitmap.addr oneGroup.fs 0 < 2 := by decide
  by_contra hclear
  have hzero := (oneGroup_bit haddr hlt).mp (by simpa using hclear)
  omega

/-- Block 3 of a group is freed as it should be. -/
theorem ext2_free_inverts_block_three :
    blockBitmap.Clears oneGroup 3 (ext2_free_block oneGroup (fun _ => 0) 3) :=
  ((ext2_free_inverts_iff (oneGroup_consistent (by decide) (by decide))
    (oneGroup_consistent (by decide) (by decide))).1 (fun _ => 0) 3
      (oneGroup_allocated (by norm_num) (by norm_num))).mpr (by decide)

/-- Block 4 is not: the bit of block 32 is cleared in its place. -/
theorem ext2_free_other_bit :
    blockBitmap.Allocated oneGroup 4 ∧
      ¬ blockBitmap.Clears oneGroup 4 (ext2_free_block oneGroup (fun _ => 0) 4) := by
  have hb := oneGroup_allocated (b := 4) (by norm_num) (by norm_num)
  refine ⟨hb, ?_⟩
  intro hclears
  have hearly := (Bitmap.freeItem_clears_iff
    (oneGroup_consistent (by decide) (by decide)) (fun _ => 0) hb).mp hclears
  exact absurd hearly (by decide)

end Fs
end EmbeddedOS
