import EmbeddedOS.Base.Taking
import EmbeddedOS.Fs.BlockBitmap

/-!
# Runs of `ext2_alloc_block`

The volume as a set of free blocks, and the allocator as taking blocks from it: every call returns
a free block or finds none, and no block is returned twice in any run.
-/

namespace EmbeddedOS
namespace Fs

open Base Base.ByteMem

/-- `(uint32_t)-1` -/
abbrev NO_BLOCK : Nat := 4294967295

/-- A volume of `n_blocks` blocks: the bits that stand for no block are set. -/
structure BlocksReady (n_blocks : Nat) (s : Mounted) : Prop where
  sound : blockBitmap.Sound s
  n_blocks_lt : n_blocks < 4294967296
  padding : ∀ i p, i < s.fs.n_groups → p < 8 * s.fs.block_size →
    s.fs.blocks_per_group ≤ p ∨ n_blocks ≤ i * s.fs.blocks_per_group + p →
      blockBitmap.bit s i p = true

/-- The blocks with a zero bit. -/
def freeBlocks (s : Mounted) : Set Nat := fun b =>
  ∃ i p, i < s.fs.n_groups ∧ p ∈ blockBitmap.zeros s i ∧ b = i * s.fs.blocks_per_group + p

/-- What a call does: it returns a free block and sets its bit, or there is none and nothing
changes. -/
structure AllocCall (n_blocks : Nat) (s : Mounted) (r : Nat) (s' : Mounted) : Prop where
  taken : r ≠ NO_BLOCK → r < n_blocks ∧ r ∈ freeBlocks s ∧
    ∀ i p, i < s.fs.n_groups → p < 8 * s.fs.block_size → blockBitmap.bit s' i p =
      (decide (i = r / s.fs.blocks_per_group ∧ p = r % s.fs.blocks_per_group) ||
        blockBitmap.bit s i p)
  counters : ∀ i, i < s'.fs.n_groups →
    blockBitmap.counter s'.fs i = (blockBitmap.zeros s' i).card
  none_iff : r = NO_BLOCK ↔ ∀ i, i < s.fs.n_groups → blockBitmap.zeros s i = ∅
  none_same : r = NO_BLOCK → s' = s

variable {n_blocks : Nat} {s s' : Mounted} {i p r : Nat}

theorem BlocksReady.inside (h : BlocksReady n_blocks s) (hi : i < s.fs.n_groups)
    (hp : p ∈ blockBitmap.zeros s i) :
    p < s.fs.blocks_per_group ∧ i * s.fs.blocks_per_group + p < n_blocks := by
  obtain ⟨hlt, hclear⟩ := Bitmap.mem_zeros.mp hp
  by_contra hout
  have hset := h.padding i p hi hlt (by omega)
  rw [hclear] at hset
  cases hset

/-- The group and the position of a block. -/
theorem block_place {per : Nat} (hp : p < per) : (i * per + p) / per = i ∧ (i * per + p) % per = p := by
  have hpos : 0 < per := by omega
  constructor
  · rw [Nat.mul_comm, Nat.mul_add_div hpos, Nat.div_eq_of_lt hp, Nat.add_zero]
  · rw [Nat.mul_comm, Nat.mul_add_mod, Nat.mod_eq_of_lt hp]

/-- The set of free blocks after a bit is set. -/
theorem freeBlocks_changed {c : Nat} (h : BlocksReady n_blocks s)
    (hc : blockBitmap.Changed s s' i p true c) (hi : i < s.fs.n_groups)
    (hp : p ∈ blockBitmap.zeros s i) :
    freeBlocks s' = freeBlocks s \ {i * s.fs.blocks_per_group + p} := by
  have hper : s'.fs.blocks_per_group = s.fs.blocks_per_group := hc.perGroup
  have hinside := (h.inside hi hp).1
  ext b
  constructor
  · rintro ⟨j, q, hj, hq, rfl⟩
    rw [hc.n_groups] at hj
    rw [hc.zeros_erase hj] at hq
    rw [hper]
    by_cases hji : j = i
    · rw [if_pos hji] at hq
      obtain ⟨hne, hold⟩ := Finset.mem_erase.mp hq
      refine ⟨⟨j, q, hj, hold, rfl⟩, ?_⟩
      intro heq
      rw [hji] at heq
      exact hne (Nat.add_left_cancel heq)
    · rw [if_neg hji] at hq
      refine ⟨⟨j, q, hj, hq, rfl⟩, ?_⟩
      intro heq
      have hgroup := (block_place (i := j) (h.inside hj hq).1).1
      rw [show j * s.fs.blocks_per_group + q = i * s.fs.blocks_per_group + p from heq,
        (block_place hinside).1] at hgroup
      exact hji hgroup.symm
  · rintro ⟨⟨j, q, hj, hq, rfl⟩, hne⟩
    refine ⟨j, q, by rw [hc.n_groups]; exact hj, ?_, by rw [hper]⟩
    rw [hc.zeros_erase hj]
    split
    · rename_i hji
      refine Finset.mem_erase.mpr ⟨?_, hq⟩
      rintro rfl
      exact hne (by rw [hji]; rfl)
    · exact hq

theorem BlocksReady.changed {c : Nat} (h : BlocksReady n_blocks s)
    (hc : blockBitmap.Changed s s' i p true c) (hs' : blockBitmap.Sound s') :
    BlocksReady n_blocks s' := by
  have hper : s'.fs.blocks_per_group = s.fs.blocks_per_group := hc.perGroup
  refine ⟨hs', h.n_blocks_lt, ?_⟩
  intro j q hj hq hout
  rw [hc.n_groups] at hj
  rw [hc.block_size] at hq
  rw [hper] at hout
  rw [hc.bits j q hj hq]
  split
  · rfl
  · exact h.padding j q hj hq hout

/-- The result of a call, as the item it takes. -/
def takenBlock (r : Nat) : Option Nat := if r = NO_BLOCK then none else some r

/-- One call: it returns, does what it should, and takes from the free blocks. -/
theorem alloc_call (h : BlocksReady n_blocks s) (buf : ByteMem) :
    ∃ r s', ext2_alloc_block s buf = some (r, s') ∧ AllocCall n_blocks s r s' ∧
      BlocksReady n_blocks s' ∧ Takes (freeBlocks s) (takenBlock r) (freeBlocks s') := by
  rcases Bitmap.allocGroups_spec h.sound s.fs.n_groups 0 buf (Nat.zero_add _) with
    ⟨hrun, hnone⟩ | ⟨i, p, s', hfirst, hrun, hc⟩
  · have hempty : ∀ i, i < s.fs.n_groups → blockBitmap.zeros s i = ∅ := fun i =>
      hnone i (Nat.zero_le i)
    refine ⟨NO_BLOCK, s, hrun, ⟨fun hne => absurd rfl hne, h.sound.counters,
      iff_of_true rfl hempty, fun _ => rfl⟩, h, ?_⟩
    apply Takes.nothing
    ext b
    constructor
    · rintro ⟨i, p, hi, hp, -⟩
      rw [hempty i hi] at hp
      exact absurd hp (Finset.notMem_empty p)
    · intro hb
      exact absurd hb (Set.notMem_empty b)
  · have hi := hfirst.group.2
    obtain ⟨hp, hlt⟩ := h.inside hi hfirst.mem
    have hn := h.n_blocks_lt
    have hret : u32 ((i * s.fs.blocks_per_group + p : Nat) : Int) =
        i * s.fs.blocks_per_group + p := u32_natCast (by omega)
    have hsome : i * s.fs.blocks_per_group + p ≠ NO_BLOCK := by
      unfold NO_BLOCK
      omega
    have hsound := hc.sound h.sound hi hfirst.mem
    have hmem : i * s.fs.blocks_per_group + p ∈ freeBlocks s := ⟨i, p, hi, hfirst.mem, rfl⟩
    refine ⟨i * s.fs.blocks_per_group + p, s', ?_, ⟨fun _ => ⟨hlt, hmem, ?_⟩,
      hsound.counters, ?_, fun heq => absurd heq hsome⟩, h.changed hc hsound, ?_⟩
    · rw [← hret]
      exact hrun
    · intro j q hj hq
      obtain ⟨hdiv, hmod⟩ := block_place (i := i) hp
      rw [hc.bits j q hj hq, hdiv, hmod]
      by_cases hsame : j = i ∧ q = p
      · simp [hsame]
      · simp [hsame]
    · refine iff_of_false hsome ?_
      intro hall
      have hno := hfirst.mem
      rw [hall i hi] at hno
      exact absurd hno (Finset.notMem_empty p)
    · rw [takenBlock, if_neg hsome, freeBlocks_changed h hc hi hfirst.mem]
      exact Takes.item hmem

/-- `s` returns `r` and becomes `s'`, whatever was in the buffer. -/
def AllocStep (s : Mounted) (r : Nat) (s' : Mounted) : Prop :=
  ∃ buf, ext2_alloc_block s buf = some (r, s')

theorem AllocStep.takes (h : BlocksReady n_blocks s) (hstep : AllocStep s r s') :
    BlocksReady n_blocks s' ∧ Takes (freeBlocks s) (takenBlock r) (freeBlocks s') := by
  obtain ⟨buf, hrun⟩ := hstep
  obtain ⟨r', t, hrun', _, hready, htakes⟩ := alloc_call h buf
  cases hrun.symm.trans hrun'
  exact ⟨hready, htakes⟩

/-- A run of calls takes blocks from the set of free blocks. -/
theorem allocRun_takes {rs : List Nat} (h : BlocksReady n_blocks s) (hrun : Run AllocStep s rs s') :
    Run Takes (freeBlocks s) (rs.map takenBlock) (freeBlocks s') := by
  induction hrun with
  | nil s => exact .nil _
  | cons hstep _ ih =>
      obtain ⟨hready, htakes⟩ := hstep.takes h
      exact .cons htakes (ih hready)

theorem mem_taken {rs : List Nat} (hr : r ∈ rs) (hne : r ≠ NO_BLOCK) :
    some r ∈ rs.map takenBlock := by
  refine List.mem_map.mpr ⟨r, hr, ?_⟩
  rw [takenBlock, if_neg hne]

theorem reduceOption_taken (rs : List Nat) :
    (rs.map takenBlock).reduceOption = rs.filter (· ≠ NO_BLOCK) := by
  induction rs with
  | nil => rfl
  | cons r rs ih =>
      rw [List.map_cons]
      by_cases hr : r = NO_BLOCK
      · rw [takenBlock, if_pos hr, List.reduceOption_cons_of_none, ih, List.filter_cons_of_neg]
        simp [hr]
      · rw [takenBlock, if_neg hr, List.reduceOption_cons_of_some, ih, List.filter_cons_of_pos]
        simp [hr]

/-- **Block allocation over runs.** Every call of a run is as it should be; the blocks returned are
distinct and were free at the start. -/
theorem ext2_alloc_block_runs (h : BlocksReady n_blocks s) :
    (∀ bufs, EachCall ext2_alloc_block (fun s _ r s' => AllocCall n_blocks s r s') s bufs) ∧
      ∀ rs s', Run AllocStep s rs s' → (rs.filter (· ≠ NO_BLOCK)).Nodup ∧
        ∀ r, r ∈ rs → r ≠ NO_BLOCK → r ∈ freeBlocks s := by
  constructor
  · intro bufs
    induction bufs generalizing s with
    | nil => trivial
    | cons buf bufs ih =>
        obtain ⟨r, t, hrun, hcall, hready, _⟩ := alloc_call h buf
        exact ⟨r, t, hrun, hcall, ih hready⟩
  · intro rs s' hrun
    have htakes := allocRun_takes h hrun
    refine ⟨?_, fun r hr hne => htakes.taken_mem (mem_taken hr hne)⟩
    rw [← reduceOption_taken]
    exact htakes.taken_nodup

theorem oneGroup_ready : BlocksReady 1 oneGroup := by
  have haddr : blockBitmap.addr oneGroup.fs 0 < 2 := by decide
  refine ⟨oneGroup_sound haddr (by decide), by norm_num, ?_⟩
  intro i p hi hp hout
  change i < 1 at hi
  change p < 8 * 4096 at hp
  change 32768 ≤ p ∨ 1 ≤ i * 32768 + p at hout
  obtain rfl : i = 0 := by omega
  by_contra hclear
  have hzero := (oneGroup_bit haddr hp).mp (by simpa using hclear)
  omega

/-- A volume with one free block. -/
theorem ext2_alloc_block_runs_one_free :
    (∀ bufs, EachCall ext2_alloc_block (fun s _ r s' => AllocCall 1 s r s') oneGroup bufs) ∧
      ∀ rs s', Run AllocStep oneGroup rs s' → (rs.filter (· ≠ NO_BLOCK)).Nodup ∧
        ∀ r, r ∈ rs → r ≠ NO_BLOCK → r ∈ freeBlocks oneGroup :=
  ext2_alloc_block_runs oneGroup_ready

end Fs
end EmbeddedOS
