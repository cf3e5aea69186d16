import EmbeddedOS.Memory.HeapRuns

/-!
# `alloc` byte by byte

What `alloc` leaves of a region whose last chunk it cuts a block from, read through the pointers of
the heap: the new block and the new tail, the array that moved down by one slot, and every byte
that stays as it was.
-/

namespace EmbeddedOS
namespace Memory

open Base Base.ByteMem Stdlib

variable {m m' : ByteMem} {h i n : Nat} {H : Heap} {R : Region} {pre : List Chunk} {t : Chunk}

/-- The region with the record at `r`, before in `m` and after in `m'`, when `n` bytes are cut off
its last chunk `t`. -/
structure CutFrom (m m' : ByteMem) (r t n : Nat) : Prop where
  count : nChunks m' r = nChunks m r + 1
  used : usedSize m' r = usedSize m r + (n + 32 : Nat)
  /-- The block: its header stands where the header of the old tail was. -/
  block : chunkPtr m' r (nChunks m r - 1) = t ∧ chunkAddr m' t = t + 24 ∧ chunkSize m' t = n ∧
    chunkFlag m' t = RESERVED
  /-- The new tail: its payload begins 24 bytes behind the block. -/
  tail : chunkPtr m' r (nChunks m r) = t + 24 + n ∧ chunkAddr m' (t + 24 + n) = t + 24 + n + 24 ∧
    chunkSize m' (t + 24 + n) = chunkSize m t - n - 32 ∧ chunkFlag m' (t + 24 + n) = UNALLOCATED
  /-- The chunk array, with its header. -/
  array : chunks m' r + 8 = chunks m r ∧ chunkPtr m' r 0 + 24 = chunks m' r ∧
    chunkAddr m' (chunkPtr m' r 0) = chunks m' r ∧
    chunkSize m' (chunkPtr m' r 0) = 8 * (nChunks m r + 1)
  entries : ∀ j : Nat, 1 ≤ j → (j : Int) ≤ nChunks m r - 2 → chunkPtr m' r j = chunkPtr m r j
  /-- The other chunks keep their headers and payloads. -/
  others : ∀ j : Nat, 2 ≤ j → (j : Int) ≤ nChunks m r - 2 →
    AgreeOn m' m (chunkPtr m r j) (chunkAddr m (chunkPtr m r j) + (chunkSize m (chunkPtr m r j)).toNat)
  /-- The chunk of the region record changes in the three fields only. -/
  record : ∀ x, chunkPtr m r 1 ≤ x → x < r + 32 → (x < r + 4 ∨ r + 12 ≤ x) → x < r + 24 → m' x = m x
  payload : AgreeOn m' m (t + 24) (t + 24 + n)
  /-- Nothing changes outside of the region. -/
  outside : WritesOnly m m' (baseAddr m r) (baseAddr m r + (allocSize m r).toNat)

/-- `carve` does in memory what it does to the list of chunks. -/
theorem HasRoom.cutFrom (hR : RegionAt m R) (hr : HasRoom R pre t n) (ht : R.Tiled)
    (hR' : RegionAt m' (R.withBlocks (carved pre t n))) (hw : WritesWithin m m' (CarveCell R t n)) :
    CutFrom m m' R.record t.hdr n := by
  have hb := hr.bounds
  have hcnt := hr.count
  have hcnt' := hr.count_carved
  have harr' := hr.arr_carved
  have hrec : R.record = R.base + 24 := rfl
  have haddr : t.addr = t.hdr + 24 := rfl
  have hroom := hr.room
  have hold : R.entries[pre.length + 2]? = some t := hr.tail_entry
  have hblock : (R.withBlocks (carved pre t n)).entries[pre.length + 2]? = some (t.block n) := by
    simp [Region.entries, carved]
  have htail : (R.withBlocks (carved pre t n)).entries[pre.length + 3]? = some (t.remainder n) := by
    simp [Region.entries, carved]
  have hzero : (R.withBlocks (carved pre t n)).entries[0]? =
      some (R.withBlocks (carved pre t n)).arrayChunk := rfl
  have hn : nChunks m R.record = (pre.length + 3 : Nat) := by rw [hR.nChunks, hcnt]
  have hlast : ((pre.length + 3 : Nat) : Int) - 1 = (pre.length + 2 : Nat) := by omega
  have hblockHead := hR'.header hblock
  have htailHead := hR'.header htail
  have hzeroHead := hR'.header hzero
  have hzeroHdr : (R.withBlocks (carved pre t n)).arrayChunk.hdr = R.arr - 32 := by
    simp only [Region.arrayChunk, harr']
    omega
  -- The old entries after the first one stand at the same indices.
  have hentry : ∀ j : Nat, 1 ≤ j → j ≤ pre.length + 1 →
      ∃ c, R.entries[j]? = some c ∧ (R.withBlocks (carved pre t n)).entries[j]? = some c ∧
        (2 ≤ j → c ∈ pre) := by
    intro j hlo hhi
    rcases Nat.eq_or_lt_of_le hlo with rfl | hlt
    · exact ⟨R.infoChunk, rfl, rfl, by omega⟩
    · obtain ⟨j, rfl⟩ := Nat.exists_eq_add_of_le' (show 2 ≤ j from hlt)
      have hj : j < pre.length := by omega
      refine ⟨pre[j], ?_, ?_, fun _ => List.getElem_mem hj⟩
      · simp [Region.entries, hr.blocks, List.getElem?_append_left hj]
      · simp [Region.entries, carved, List.getElem?_append_left hj]
  refine ⟨?_, ?_, ?_, ?_, ?_, ?_, ?_, ?_, ?_, ?_⟩
  · exact hR'.nChunks.trans (by rw [hcnt', hR.nChunks]; rfl)
  · exact hR'.usedSize.trans (by rw [hr.used_carved, hR.usedSize]; rfl)
  · rw [hn, hlast]
    have hptr := hR'.chunkPtr hblock
    exact ⟨hptr, hblockHead.addr, hblockHead.size, hblockHead.flag⟩
  · have hptr := hR'.chunkPtr htail
    have hsize : ((t.size - (n + 32) : Nat) : Int) = t.size - n - 32 := by omega
    rw [hn, (hR.header hold).size, ← hsize]
    exact ⟨hptr, htailHead.addr, htailHead.size, htailHead.flag⟩
  · have hptr : chunkPtr m' R.record 0 = R.arr - 32 := (hR'.chunkPtr (j := 0) hzero).trans hzeroHdr
    have hchunks : Memory.chunks m' R.record = R.arr - 8 := hR'.chunks.trans harr'
    have hsize : chunkSize m' (R.arr - 32) = (8 * (R.count + 1) : Nat) := by
      rw [← hzeroHdr, ← hcnt']
      exact hzeroHead.size
    have haddr0 : chunkAddr m' (R.arr - 32) = R.arr - 32 + 24 := by
      rw [← hzeroHdr]
      exact hzeroHead.addr
    rw [hptr, hchunks, hR.chunks, hsize, haddr0, hR.nChunks]
    omega
  · intro j hlo hhi
    rw [hn] at hhi
    rcases hentry j hlo (by omega) with ⟨c, hc, hc', _⟩
    exact (hR'.chunkPtr hc').trans (hR.chunkPtr hc).symm
  · intro j hlo hhi
    rw [hn] at hhi
    rcases hentry j (by omega) (by omega) with ⟨c, hc, _, hpre⟩
    have hhead := hR.header hc
    rw [hR.chunkPtr hc, hhead.addr, hhead.size, Int.toNat_natCast]
    have hcb := hr.ordered.bounds (hpre hlo)
    have hcaddr : c.addr = c.hdr + 24 := rfl
    have hcstop : c.stop = c.hdr + 24 + c.size := rfl
    have hstop : c.stop ≤ t.hdr := by
      have hpair := ht.pairwise hr.sound.toPlaced
      rw [hr.blocks, List.pairwise_append] at hpair
      exact hpair.2.2 c (hpre hlo) t (List.mem_singleton_self t)
    refine hw.agreeOn fun x hx => ?_
    unfold CarveCell at hx
    omega
  · intro x hlo hhi hx hx'
    have hinfo : chunkPtr m R.record 1 = R.base := hR.chunkPtr (j := 1) (c := R.infoChunk) rfl
    rw [hinfo] at hlo
    refine hw x fun hcell => ?_
    unfold CarveCell at hcell
    omega
  · refine hw.agreeOn fun x hx => ?_
    unfold CarveCell at hx
    omega
  · rw [hR.baseAddr, hR.allocSize, Int.toNat_natCast]
    exact hr.writesOnly hw

/-- **`alloc` byte by byte.** The first region whose last chunk is large enough gives up the block,
if it is laid out as promised. -/
theorem alloc_cutFrom {s : Machine} (fuel : Nat) (hH : HeapAt s.mem h H) (hP : HeapPlaced H)
    (hlo : 1 ≤ i) (hhi : i < nRegions s.mem h) (hlaid : LaidOut s.mem (regionPtr s.mem h i))
    (hn : n + 32 < 2147483648) (hroom : (n : Int) + 32 < chunkSize s.mem (tailPtr s.mem h i))
    (hfirst : ∀ k, 1 ≤ k → k < i → chunkSize s.mem (tailPtr s.mem h k) ≤ (n : Int) + 32) :
    ∃ m', alloc (fuel + 1) s h n = some (chunkAddr s.mem (tailPtr s.mem h i), { s with mem := m' }) ∧
      CutFrom s.mem m' (regionPtr s.mem h i) (tailPtr s.mem h i) n := by
  rcases hH.user_index hlo hhi with ⟨us, R, vs, husers, rfl, hptr⟩
  have hp : Picked H us R vs := ⟨husers, hP⟩
  have hR := hH.users R hp.mem
  have hfit := (hH.fits_iff_size hP hlo hhi hn).2 hroom
  have ht : R.Tiled := by
    rw [hptr] at hlaid
    exact (hR.laidOut_iff hp.sound.toPlaced).1 hlaid
  rcases hasRoom_of_fits hR hp.sound hptr hn hfit
    (tailClear_of_tiled hR hp.sound ht hptr hn hfit) with ⟨pre, t, hr⟩
  rcases tailPtr_eq hR hr.blocks hptr with ⟨htail, hhead⟩
  rcases carve_spec hR hr (hH.outside hp) with ⟨haddr, hR', hw⟩
  have hfind : findRoom s.mem h n (nRegions s.mem h - 1).toNat 1 = some (us.length + 1) := by
    refine findRoom_first hlo (by omega) hfit fun k hk hk' => ?_
    have hsmall := hfirst k hk hk'
    have hmiss := (hH.fits_iff_size hP hk (by omega) hn).not.2 (by omega)
    simpa using hmiss
  refine ⟨(carve s.mem h (us.length + 1) n).2, ?_, ?_⟩
  · rw [alloc, hfind, htail, hhead.addr, ← haddr]
  · rw [hptr, htail]
    exact hr.cutFrom hR ht hR' hw

/-- Eight bytes from the user region of a new heap. -/
theorem alloc_cutFrom_new_heap : ∃ (s : Machine) (m' : ByteMem),
    Created 4096 4096 4176 s ∧
      alloc 1 s 4176 8 = some (chunkAddr s.mem (tailPtr s.mem 4176 1), { s with mem := m' }) ∧
      CutFrom s.mem m' (regionPtr s.mem 4176 1) (tailPtr s.mem 4176 1) 8 := by
  rcases exists_created with ⟨s, hcreated, hready, _⟩
  have hR := hready.image.users _ List.mem_cons_self
  have hptr : regionPtr s.mem 4176 1 = (Region.fresh 16777216 4096).record :=
    hready.image.regionPtr_eq (k := 0) rfl
  have hlaid : LaidOut s.mem (regionPtr s.mem 4176 1) := by
    rw [hptr]
    exact (hR.laidOut_iff (hready.placed.sound _ List.mem_cons_self).toPlaced).2
      (Region.tiled_fresh (by decide))
  have hcnt : nRegions s.mem 4176 = 2 := hready.image.nRegions
  rcases tailPtr_eq hR (show _ = [] ++ [_] from rfl) hptr with ⟨htail, hhead⟩
  have hsize : chunkSize s.mem (tailPtr s.mem 4176 1) = 3968 := by
    rw [htail]
    exact hhead.size
  rcases alloc_cutFrom 0 hready.image hready.placed (Nat.le_refl 1) (by rw [hcnt]; decide) hlaid
    (show 8 + 32 < 2147483648 by decide) (by rw [hsize]; decide) (by omega) with ⟨m', halloc, hcut⟩
  exact ⟨s, m', hcreated, halloc, hcut⟩

end Memory
end EmbeddedOS
