import EmbeddedOS.Memory.HeapLayout

/-!
# Listing a region

The last part of `create_region`: the kernel region's tail gives up one slot to the region array,
and the new region is put there. The stores are written out, and what they leave in the kernel
region is read off from them.
-/

namespace EmbeddedOS
namespace Memory

open Base Base.ByteMem Stdlib

variable {m m' : ByteMem} {h k size n b : Nat} {H : Heap} {R : Region}

/-! ## The way to the kernel region -/

/-- The pointers that lead from the heap record to the chunk array of the kernel region. -/
structure KernelPath (m : ByteMem) (k size : Nat) : Prop where
  regions : regions m (k + 80) = k + 120
  record : loadPtr m (k + 120) = k + 24
  chunks : chunks m (k + 24) = k + size - 40
  nChunks : nChunks m (k + 24) = (5 : Nat)

namespace KernelPath

theorem ptr (p : KernelPath m k size) : regionPtr m (k + 80) 0 = k + 24 := by
  unfold regionPtr
  rw [p.regions, ← p.record]

theorem write (p : KernelPath m k size) {lo hi : Nat} (hw : WritesOnly m m' lo hi)
    (h1 : hi ≤ k + 32 ∨ k + 36 ≤ lo) (h2 : hi ≤ k + 48 ∨ k + 56 ≤ lo)
    (h3 : hi ≤ k + 88 ∨ k + 96 ≤ lo) (h4 : hi ≤ k + 120 ∨ k + 128 ≤ lo) :
    KernelPath m' k size := by
  refine ⟨?_, ?_, ?_, ?_⟩
  · exact (loadPtr_congr (hw.agreeOn (by omega))).trans p.regions
  · exact (loadPtr_congr (hw.agreeOn (by omega))).trans p.record
  · exact (loadPtr_congr (hw.agreeOn (by omega))).trans p.chunks
  · exact (loadInt_congr (hw.agreeOn (by omega))).trans p.nChunks

theorem chunkPtr_eq (p : KernelPath m k size) {j : Int} {x : Nat}
    (hx : ((k + size - 40 : Nat) : Int) + 8 * j = x) : chunkPtr m (k + 24) j = loadPtr m x := by
  unfold chunkPtr entryAddr
  rw [p.chunks, hx]
  rfl

theorem entryAddr_eq (p : KernelPath m k size) {j : Int} {x : Nat}
    (hx : ((k + size - 40 : Nat) : Int) + 8 * j = x) : entryAddr m (k + 24) j = x := by
  unfold entryAddr
  rw [p.chunks, hx]
  rfl

end KernelPath

theorem HeapAt.path (hH : HeapAt m h H) : KernelPath m H.base H.size := by
  refine ⟨?_, ?_, hH.kernel.chunks, hH.kernel.nChunks⟩
  · have := hH.regions
    rwa [hH.ptr] at this
  · exact hH.array 0 _ (by simp)

/-! ## The stores -/

/-- The tail behind one more slot of the region array. -/
def newTail (k size n b : Nat) : SmartPtr :=
  { size := (size - (216 + 8 * n) : Nat), flag := UNALLOCATED, base := b, addr := k + 152 + 8 * n }

/-- The stores that list one more region: the count, the new slot of the region array, the header
of the tail behind it, the tail's slot of the chunk array, and two sizes. -/
def listRegion (m : ByteMem) (k size n b : Nat) : ByteMem :=
  storeInt (storeInt (storePtr (storeSmartPtr (storePtr (storeInt m (k + 84) (n + 1 : Nat))
    (k + 120 + 8 * n) (b + 24)) (k + 128 + 8 * n) (newTail k size n b)) (k + size - 8)
    (k + 128 + 8 * n)) (k + 28) (216 + 8 * n : Nat)) (k + 96) (8 * n + 8 : Nat)

/-- What listing a region leaves alone. -/
theorem listRegion_kept (lo hi : Nat) (h1 : hi ≤ k + 28 ∨ k + 32 ≤ lo)
    (h2 : hi ≤ k + 84 ∨ k + 88 ≤ lo) (h3 : hi ≤ k + 96 ∨ k + 100 ≤ lo)
    (h4 : hi ≤ k + 120 + 8 * n ∨ k + 152 + 8 * n ≤ lo)
    (h5 : hi ≤ k + size - 8 ∨ k + size - 8 + 8 ≤ lo) :
    AgreeOn (listRegion m k size n b) m lo hi := by
  unfold listRegion
  rw [agree_storeInt h3, agree_storeInt h1, agree_storePtr h5, agree_storeSmartPtr (by omega),
    agree_storePtr (by omega), agree_storeInt h2]
  exact .refl _ _ _

theorem appendRegion_eq (hp : KernelPath m k size) (hK : RegionAt m (Region.kernel k size n))
    (hnr : nRegions m (k + 80) = n) (hn : 1 ≤ n) (hroom : 216 + 8 * n ≤ size)
    (hsmall : size < 2147483648) (hfit : k + size < 18446744073709551616) :
    appendRegion m (k + 80) b = listRegion m k size n b := by
  -- The values read before the first store.
  have hlast : nChunks m (regionPtr m (k + 80) 0) - 1 = 4 := by
    rw [hp.ptr, hp.nChunks]
    rfl
  have htailAt : HeaderAt m ⟨k + 120 + 8 * n, size - (208 + 8 * n), .unallocated⟩ :=
    hK.headers _ (by simp [Region.entries, Region.kernel])
  have htail : chunkPtr m (k + 24) 4 = k + 120 + 8 * n := hK.chunkPtr (j := 4) rfl
  unfold appendRegion
  extract_lets last tail newFree m1 m2 m3 m4 m5
  have ht : tail = k + 120 + 8 * n := by
    simp only [tail, last, hlast, hp.ptr, htail]
  have hfree : newFree = newTail k size n b := by
    have hsize := htailAt.size
    have haddr := htailAt.addr
    have hdec : i32 (((size - (208 + 8 * n) : Nat) : Int) - REGION_ARR)
        = (size - (216 + 8 * n) : Nat) := by
      simp only [REGION_ARR]
      exact (i32_of_range (by omega) (by omega)).trans (by omega)
    have hnext : k + 120 + 8 * n + 24 + REGION_ARR = k + 152 + 8 * n := by
      simp only [REGION_ARR]
      omega
    simp only [Chunk.addr] at hsize haddr
    simp only [newFree, ht, hsize, haddr, hdec, hnext, newTail]
  have e1 : m1 = storeInt m (k + 80 + 4) (i32 (nRegions m (k + 80) + 1)) := rfl
  have e2 : m2 = storePtr m1
    ((regions m1 (k + 80) : Int) + 8 * (nRegions m1 (k + 80) - 1)).toNat (regInfoAddr b) := rfl
  have e3 : m3 = storeSmartPtr m2 (newFree.addr - CHUNK_INFO_SIZE) newFree := rfl
  have e4 : m4 = setChunkPtr m3 (k + 80) 0 (nChunks m3 (regionPtr m3 (k + 80) 0) - 1)
    (newFree.addr - CHUNK_INFO_SIZE) := rfl
  have e5 : m5 = setUsedSize m4 (k + 80) 0
    (i32 (usedSize m4 (regionPtr m4 (k + 80) 0) + REGION_ARR)) := rfl
  clear_value m5 m4 m3 m2 m1 newFree tail last
  have hback : newFree.addr - CHUNK_INFO_SIZE = k + 128 + 8 * n := by
    simp only [hfree, newTail, CHUNK_INFO_SIZE]
    omega
  -- Each assignment is one store.
  have h1 : m1 = storeInt m (k + 84) (n + 1 : Nat) := by
    have hinc : i32 ((n : Int) + 1) = (n + 1 : Nat) :=
      (i32_of_range (by omega) (by omega)).trans (by omega)
    rw [e1, hnr, hinc]
  have w1 : WritesOnly m m1 (k + 84) (k + 88) := by
    rw [h1]
    exact .storeInt _ _ _
  have k1 := hp.write w1 (by omega) (by omega) (by omega) (by omega)
  have hnr1 : nRegions m1 (k + 80) = (n + 1 : Nat) := by
    unfold nRegions
    rw [h1]
    exact loadInt_storeInt_same _ _ (by omega) (by omega)
  have h2 : m2 = storePtr m1 (k + 120 + 8 * n) (b + 24) := by
    have hcell : ((k + 120 : Nat) : Int) + 8 * (((n + 1 : Nat) : Int) - 1) = (k + 120 + 8 * n : Nat) := by
      omega
    rw [e2, k1.regions, hnr1, hcell]
    rfl
  have w2 : WritesOnly m1 m2 (k + 120 + 8 * n) (k + 128 + 8 * n) := by
    rw [h2]
    exact (WritesOnly.storePtr _ _ _).mono (Nat.le_refl _) (by omega)
  have k2 := k1.write w2 (by omega) (by omega) (by omega) (by omega)
  have h3 : m3 = storeSmartPtr m2 (k + 128 + 8 * n) newFree := by
    rw [e3, hback]
  have w3 : WritesOnly m2 m3 (k + 128 + 8 * n) (k + 152 + 8 * n) := by
    rw [h3]
    exact (writesOnly_storeSmartPtr _ _ _).mono (Nat.le_refl _) (by omega)
  have k3 := k2.write w3 (by omega) (by omega) (by omega) (by omega)
  have h4 : m4 = storePtr m3 (k + size - 8) (k + 128 + 8 * n) := by
    rw [e4, hback, setChunkPtr, k3.ptr, k3.nChunks, k3.entryAddr_eq (x := k + size - 8) (by omega)]
  have w4 : WritesOnly m3 m4 (k + size - 8) (k + size) := by
    rw [h4]
    exact (WritesOnly.storePtr _ _ _).mono (Nat.le_refl _) (by omega)
  have k4 := k3.write w4 (by omega) (by omega) (by omega) (by omega)
  have hw4 : ∀ lo hi, (hi ≤ k + 84 ∨ k + 88 ≤ lo) → (hi ≤ k + 120 + 8 * n ∨ k + 152 + 8 * n ≤ lo) →
      (hi ≤ k + size - 8 ∨ k + size ≤ lo) → AgreeOn m4 m lo hi := by
    intro lo hi hd1 hd2 hd3
    exact (w4.agreeOn hd3).trans ((w3.agreeOn (by omega)).trans
      ((w2.agreeOn (by omega)).trans (w1.agreeOn hd1)))
  have h5 : m5 = storeInt m4 (k + 28) (216 + 8 * n : Nat) := by
    have hused : usedSize m4 (k + 24) = (208 + 8 * n : Nat) := by
      rw [← Region.used_kernel k size n]
      exact (loadInt_congr (hw4 (k + 28) _ (by omega) (by omega) (by omega))).trans hK.usedSize
    have hinc : i32 (((208 + 8 * n : Nat) : Int) + REGION_ARR) = (216 + 8 * n : Nat) := by
      simp only [REGION_ARR]
      exact (i32_of_range (by omega) (by omega)).trans (by omega)
    rw [e5, setUsedSize, k4.ptr, hused, hinc]
  have w5 : WritesOnly m4 m5 (k + 28) (k + 32) := by
    rw [h5]
    exact (WritesOnly.storeInt _ _ _).mono (Nat.le_refl _) (by omega)
  have k5 := k4.write w5 (by omega) (by omega) (by omega) (by omega)
  have harrayAt : HeaderAt m ⟨k + 96, 8 * n, .reserved⟩ :=
    hK.headers _ (by simp [Region.entries, Region.kernel])
  have hw5 : ∀ lo hi, (hi ≤ k + 84 ∨ k + 88 ≤ lo) → (hi ≤ k + 120 + 8 * n ∨ k + 152 + 8 * n ≤ lo) →
      (hi ≤ k + size - 8 ∨ k + size ≤ lo) → (hi ≤ k + 28 ∨ k + 32 ≤ lo) → AgreeOn m5 m lo hi := by
    intro lo hi hd1 hd2 hd3 hd4
    exact (w5.agreeOn hd4).trans (hw4 lo hi hd1 hd2 hd3)
  have hslot : chunkPtr m5 (k + 24) 3 = k + 96 := by
    rw [k5.chunkPtr_eq (x := k + size - 16) (by omega)]
    have hcell : loadPtr m ((Region.kernel k size n).arr + 8 * 3) = k + 96 :=
      hK.entry (c := ⟨k + 96, 8 * n, .reserved⟩) rfl
    have haddr : (Region.kernel k size n).arr + 8 * 3 = k + size - 16 := by
      change k + size - 40 + 8 * 3 = _
      omega
    rw [haddr] at hcell
    exact (loadPtr_congr (hw5 (k + size - 16) _ (by omega) (by omega) (by omega) (by omega))).trans
      hcell
  have hsize5 : chunkSize m5 (k + 96) = (8 * n : Nat) :=
    (loadInt_congr (hw5 (k + 96) _ (by omega) (by omega) (by omega) (by omega))).trans harrayAt.size
  have hinc : i32 (((8 * n : Nat) : Int) + REGION_ARR) = (8 * n + 8 : Nat) := by
    simp only [REGION_ARR]
    exact (i32_of_range (by omega) (by omega)).trans (by omega)
  rw [setChunkSize, k5.ptr, hslot, hsize5, hinc, listRegion, ← hfree, ← h1, ← h2, ← h3, ← h4, ← h5]

/-! ## What they leave -/

/-- The kernel region lists one more region. -/
theorem listRegion_kernel (hK : RegionAt m (Region.kernel k size n)) (hroom : 216 + 8 * n ≤ size)
    (hsmall : size < 2147483648) (hfit : k + size < 18446744073709551616) :
    RegionAt (listRegion m k size n b) (Region.kernel k size (n + 1)) := by
  have hused : (Region.kernel k size (n + 1)).used = 216 + 8 * n := by
    rw [Region.used_kernel]
    omega
  have hkept := @listRegion_kept m k size n b
  refine ⟨?_, ?_, ?_, ?_, ?_, ?_, ?_⟩
  · exact (loadInt_congr (hkept (k + 24) _ (by omega) (by omega) (by omega) (by omega)
      (by omega))).trans hK.allocSize
  · rw [hused]
    change loadInt (listRegion m k size n b) (k + 28) = _
    unfold listRegion
    rw [loadInt_storeInt (by omega)]
    exact loadInt_storeInt_same _ _ (by omega) (by omega)
  · exact (loadInt_congr (hkept (k + 32) _ (by omega) (by omega) (by omega) (by omega)
      (by omega))).trans hK.nChunks
  · exact (loadPtr_congr (hkept (k + 40) _ (by omega) (by omega) (by omega) (by omega)
      (by omega))).trans hK.baseAddr
  · exact (loadPtr_congr (hkept (k + 48) _ (by omega) (by omega) (by omega) (by omega)
      (by omega))).trans hK.chunks
  · have hold := hK.array
    have hlist : ∀ i, (Region.kernel k size i).entries.map Chunk.hdr =
        [k + size - 40 - 24, k, k + 56, k + 96] ++ [k + 120 + 8 * i] := fun i => rfl
    rw [hlist, PointersAt.append_iff] at hold ⊢
    refine ⟨hold.1.frame ?_, ?_⟩
    · change AgreeOn _ m (k + size - 40) (k + size - 40 + 8 * 4)
      exact hkept _ _ (by omega) (by omega) (by omega) (by omega) (by omega)
    · change PointersAt _ (k + size - 40 + 8 * 4) [k + 120 + 8 * (n + 1)]
      have hcell : k + size - 40 + 8 * 4 = k + size - 8 := by omega
      have hnext : k + 120 + 8 * (n + 1) = k + 128 + 8 * n := by omega
      rw [PointersAt.cons_iff, hcell, hnext]
      refine ⟨?_, .nil⟩
      unfold listRegion
      rw [loadPtr_storeInt (by omega), loadPtr_storeInt (by omega),
        loadPtr_storePtr_same _ _ (by omega)]
  · intro c hc
    simp only [Region.entries, Region.kernel, List.mem_cons, List.not_mem_nil, or_false] at hc
    have hhead : ∀ c ∈ (Region.kernel k size n).entries, c.hdr + 24 ≤ k + 84 →
        c.hdr ≤ k ∨ k + 32 ≤ c.hdr → HeaderAt (listRegion m k size n b) c := by
      intro c hc hhi hlo
      refine (hK.headers c hc).frame ?_
      simp only [Chunk.addr]
      exact hkept _ _ (by omega) (by omega) (by omega) (by omega) (by omega)
    rcases hc with rfl | rfl | rfl | rfl | rfl
    · refine (hK.headers (Region.kernel k size n).arrayChunk List.mem_cons_self).frame ?_
      change AgreeOn _ m (k + size - 40 - 24) (k + size - 40 - 24 + 24)
      exact hkept _ _ (by omega) (by omega) (by omega) (by omega) (by omega)
    · exact hhead (Region.kernel k size n).infoChunk (by simp [Region.entries])
        (by simp only [Region.infoChunk, Region.kernel]; omega)
        (by simp [Region.infoChunk, Region.kernel])
    · exact hhead ⟨k + 56, 16, .reserved⟩ (by simp [Region.entries, Region.kernel])
        (by simp only []; omega) (by simp only []; omega)
    · have hold : HeaderAt m ⟨k + 96, 8 * n, .reserved⟩ :=
        hK.headers _ (by simp [Region.entries, Region.kernel])
      refine ⟨?_, ?_, ?_⟩
      · unfold chunkSize listRegion
        exact loadInt_storeInt_same _ _ (by omega) (by omega)
      · exact (loadInt_congr (hkept (k + 100) _ (by omega) (by omega) (by omega) (by omega)
          (by omega))).trans hold.flag
      · exact (loadPtr_congr (hkept (k + 112) _ (by omega) (by omega) (by omega) (by omega)
          (by omega))).trans hold.addr
    · have hnext : k + 120 + 8 * (n + 1) = k + 128 + 8 * n := by omega
      have hleft : size - (208 + 8 * (n + 1)) = size - (216 + 8 * n) := by omega
      rw [hnext, hleft]
      have hnew := headerAt_storeSmartPtr
        (storePtr (storeInt m (k + 84) (n + 1 : Nat)) (k + 120 + 8 * n) (b + 24))
        ⟨k + 128 + 8 * n, size - (216 + 8 * n), .unallocated⟩ (newTail k size n b) rfl rfl
        (by simp only [newTail, Chunk.addr]; omega) (by simp only []; omega)
        (by simp only [Chunk.addr]; omega)
      refine hnew.frame ?_
      unfold listRegion
      simp only [Chunk.addr]
      rw [agree_storeInt (by omega), agree_storeInt (by omega), agree_storePtr (by omega)]
      exact .refl _ _ _

/-- The count and the new slot. -/
theorem listRegion_slot (hroom : 216 + 8 * n ≤ size) (hn : n < 2147483647)
    (hb : b + 24 < 18446744073709551616) :
    nRegions (listRegion m k size n b) (k + 80) = (n + 1 : Nat) ∧
      loadPtr (listRegion m k size n b) (k + 120 + 8 * n) = b + 24 := by
  constructor
  · unfold nRegions listRegion
    rw [loadInt_storeInt (by omega), loadInt_storeInt (by omega), loadInt_storePtr (by omega),
      loadInt_storeSmartPtr (by omega), loadInt_storePtr (by omega)]
    exact loadInt_storeInt_same _ _ (by omega) (by omega)
  · unfold listRegion
    rw [loadPtr_storeInt (by omega), loadPtr_storeInt (by omega), loadPtr_storePtr (by omega),
      loadPtr_storeSmartPtr (by omega), loadPtr_storePtr_same _ _ hb]

/-- A region list with one more region at its end. -/
theorem Heap.kernel_append (H : Heap) (R : Region) :
    (H.withUsers (H.users ++ [R])).count = H.count + 1 ∧
      (H.withUsers (H.users ++ [R])).kernel = Region.kernel H.base H.size (H.count + 1) := by
  have hcnt : (H.withUsers (H.users ++ [R])).count = H.count + 1 := by
    simp [Heap.count, Heap.withUsers]
  refine ⟨hcnt, ?_⟩
  rw [Heap.kernel, hcnt]
  rfl

/-- `create_region` lists the region that was laid out beside the heap. -/
theorem appendRegion_spec (hH : HeapAt m h H) (hP : HeapPlaced H)
    (hroom : 216 + 8 * H.count ≤ H.size) (hR : RegionAt m R) (hs : R.Sound)
    (hapart : ∀ x ∈ H.extents, NoOverlap x (R.base, R.size)) :
    HeapAt (appendRegion m h R.base) h (H.withUsers (H.users ++ [R])) ∧
      WritesOnly m (appendRegion m h R.base) H.base (H.base + H.size) := by
  have hptr := hH.ptr
  have hRfit := hs.addressable
  have hRlo := hs.room
  have hsmall := hP.small
  subst hptr
  have hcnt := H.kernel_append R
  rw [appendRegion_eq hH.path hH.kernel hH.nRegions (Nat.le_add_left _ _) hroom hsmall
    hP.addressable]
  have hkernel := listRegion_kernel (b := R.base) hH.kernel hroom hsmall hP.addressable
  have hslot := listRegion_slot (m := m) (k := H.base) (b := R.base) hroom (by omega) (by omega)
  have hkept := @listRegion_kept m H.base H.size H.count R.base
  have hw : WritesOnly m (listRegion m H.base H.size H.count R.base) H.base (H.base + H.size) := by
    intro x hx
    exact hkept _ _ (by omega) (by omega) (by omega) (by omega) (by omega) x (Nat.le_refl x)
      (Nat.lt_succ_self x)
  generalize listRegion m H.base H.size H.count R.base = m' at hkernel hslot hkept hw ⊢
  refine ⟨⟨rfl, ?_, ?_, ?_, ?_, ?_, ?_⟩, hw⟩
  · exact (loadInt_congr (hkept (H.base + 80) _ (by omega) (by omega) (by omega) (by omega)
      (by omega))).trans hH.alignment
  · rw [hcnt.1]
    exact hslot.1
  · exact (loadPtr_congr (hkept (H.base + 88) _ (by omega) (by omega) (by omega) (by omega)
      (by omega))).trans hH.regions
  · have hlist : (H.base + 24) :: (H.users ++ [R]).map Region.record
        = ((H.base + 24) :: H.users.map Region.record) ++ [R.record] := by simp
    have hlen : ((H.base + 24) :: H.users.map Region.record).length = H.count := by
      simp [Heap.count]
    change PointersAt m' (H.base + 120) ((H.base + 24) :: (H.users ++ [R]).map Region.record)
    rw [hlist, PointersAt.append_iff, hlen]
    refine ⟨hH.array.frame ?_, PointersAt.cons_iff.2 ⟨hslot.2, .nil⟩⟩
    rw [hlen]
    exact hkept _ _ (by omega) (by omega) (by omega) (by omega) (by omega)
  · rw [hcnt.2]
    exact hkernel
  · intro Q hQ
    simp only [Heap.withUsers, List.mem_append, List.mem_singleton] at hQ
    rcases hQ with hQ | rfl
    · have hpair := hP.apart
      rw [Heap.extents, List.pairwise_cons] at hpair
      have hd := hpair.1 (Q.base, Q.size) (List.mem_map_of_mem hQ)
      exact (hH.users Q hQ).frame (hP.sound Q hQ).toPlaced (hw.agreeOn hd.symm)
    · have hd := hapart (H.base, H.size) List.mem_cons_self
      exact hR.frame hs.toPlaced (hw.agreeOn hd.symm)

end Memory
end EmbeddedOS
