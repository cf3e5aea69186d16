import EmbeddedOS.Memory.AllocGrowth

/-!
# Growth of the kernel region

When the kernel region has no slot left, `create_region` calls `grow_kheap`. That moves the heap to
a larger kernel region, lists all regions there, and relinquishes the old one, which fills it with
the character V. `create_region` has its own copy of the heap pointer, so its callers go on with
the old one.
-/

namespace EmbeddedOS
namespace Memory

open Base Base.ByteMem Stdlib

variable {m m' : ByteMem} {h h' i n k a size : Nat} {H : Heap} {R : Region} {s s1 s' : Machine}
  {live : List (Nat × Nat)}

/-! ## `grow_kheap` -/

/-- What an `int` reads in memory that `relinquish` has filled. -/
abbrev FILLED : Int := 1448498774

theorem loadInt_filled (hfill : ∀ x, a ≤ x → x < a + 4 → m x = 86) : loadInt m a = FILLED := by
  have hload : load m a 4 = 1448498774 := by
    simp only [load]
    rw [hfill a (by omega) (by omega), hfill (a + 1) (by omega) (by omega),
      hfill (a + 1 + 1) (by omega) (by omega), hfill (a + 1 + 1 + 1) (by omega) (by omega)]
    rfl
  rw [loadInt, hload]
  rfl

/-- The heap with a kernel region of `size` bytes at `k`. -/
def Heap.movedTo (H : Heap) (k size : Nat) : Heap := { H with base := k, size := size }

/-- A larger kernel region beside the heap. -/
theorem HeapPlaced.movedTo (hP : HeapPlaced H) (hle : H.size ≤ size) (hsmall : size < 2147483648)
    (hfit : k + size < 18446744073709551616)
    (hapart : ∀ x ∈ H.extents, NoOverlap x (k, size)) : HeapPlaced (H.movedTo k size) := by
  refine ⟨hsmall, hfit, hP.room.trans hle, ?_, hP.sound⟩
  refine List.pairwise_cons.2 ⟨fun x hx => ?_, (List.pairwise_cons.1 hP.apart).2⟩
  exact (hapart x (List.mem_cons_of_mem _ hx)).symm

/-- The stores of `grow_kheap` into the new kernel region. -/
def layKernel (m : ByteMem) (H : Heap) (k size : Nat) : ByteMem :=
  storeHeapInfo (copy (storePtr (initKernelRegion m k size H.count) (k + 120) (k + 24)) (k + 128)
    (H.base + 128) (8 * H.users.length)) (k + 80) ⟨H.alignment, H.count, k + 120⟩

theorem layKernel_spec (hH : HeapAt m h H) (hP : HeapPlaced H) (hP' : HeapPlaced (H.movedTo k size))
    (hapart : ∀ x ∈ H.extents, NoOverlap x (k, size)) :
    HeapAt (layKernel m H k size) (k + 80) (H.movedTo k size) ∧
      WritesOnly m (layKernel m H k size) k (k + size) := by
  have hroom : 208 + 8 * H.count ≤ size := hP'.room
  have hsmall : size < 2147483648 := hP'.small
  have hfit : k + size < 18446744073709551616 := hP'.addressable
  have hcnt : H.count = H.users.length + 1 := rfl
  have hHroom := hP.room
  have hkernel := hapart (H.base, H.size) List.mem_cons_self
  unfold NoOverlap at hkernel
  simp only at hkernel
  rcases initKernelRegion_spec (m := m) hroom hsmall hfit with ⟨hK, hw1⟩
  unfold layKernel
  generalize initKernelRegion m k size H.count = m1 at hK hw1 ⊢
  have hw2 : WritesOnly m1 (storePtr m1 (k + 120) (k + 24)) (k + 120) (k + 128) :=
    (WritesOnly.storePtr _ _ _).mono (Nat.le_refl _) (by omega)
  have hslot : loadPtr (storePtr m1 (k + 120) (k + 24)) (k + 120) = k + 24 :=
    loadPtr_storePtr_same _ _ (by omega)
  generalize storePtr m1 (k + 120) (k + 24) = m2 at hw2 hslot ⊢
  -- The old region array lies beside the new kernel region.
  have hold : PointersAt m2 (H.base + 128 + 0) (H.users.map Region.record) := by
    refine ((PointersAt.cons_iff.1 hH.array).2).frame ?_
    rw [List.length_map]
    exact ((hw1.trans (hw2.mono (by omega) (by omega))).agreeOn (by omega)).mono (by omega) (by omega)
  have hw3 : WritesOnly m2 (copy m2 (k + 128) (H.base + 128) (8 * H.users.length)) (k + 128)
      (k + 128 + 8 * H.users.length) := .copy _ _ _ _
  have hlist := hold.copied (d := k + 128) (n := 8 * H.users.length) (by simp)
  generalize copy m2 (k + 128) (H.base + 128) (8 * H.users.length) = m3 at hw3 hlist ⊢
  have hlisted : WritesOnly m1 m3 (k + 120) (k + 120 + 8 * H.count) :=
    (hw2.mono (Nat.le_refl _) (by omega)).trans (hw3.mono (by omega) (by omega))
  have hal : -2147483648 ≤ H.alignment ∧ H.alignment < 2147483648 := by
    rw [← hH.alignment, alignment, loadInt, i32_eq]
    omega
  refine ⟨heapInfo_spec hP' hal ?_ ?_ ?_, ?_⟩
  · exact hK.kernel_frame hroom fun lo hi _ hd => hlisted.agreeOn (by omega)
  · refine PointersAt.cons_iff.2 ⟨?_, hlist⟩
    exact (loadPtr_congr (hw3.agreeOn (.inl (by omega)))).trans hslot
  · intro R hR
    have hbeside := hapart (R.base, R.size) (List.mem_cons_of_mem _ (List.mem_map_of_mem hR))
    unfold NoOverlap at hbeside
    simp only at hbeside
    exact (hH.users R hR).frame (hP.sound R hR).toPlaced
      ((hw1.trans (hlisted.mono (by omega) (by omega))).agreeOn (by omega))
  · exact (hw1.trans (hlisted.mono (by omega) (by omega))).trans
      ((writesOnly_storeHeapInfo _ _ _).mono (by omega) (by omega))

/-- The pointers that lead to the kernel region. -/
theorem HeapAt.kernel_fields (hH : HeapAt m h H) :
    regionPtr m h 0 = H.kernel.record ∧ allocSize m (regionPtr m h 0) = H.size ∧
      baseAddr m (regionPtr m h 0) = H.base := by
  have hptr : regionPtr m h 0 = H.kernel.record := by
    rw [hH.ptr]
    exact hH.path.ptr
  rw [hptr]
  exact ⟨rfl, hH.kernel.allocSize, hH.kernel.baseAddr⟩

/-- The call of `memcpy` in `grow_kheap` copies the slots of the user regions. -/
theorem copySlots_eq (hH : HeapAt m h H) (hP : HeapPlaced H) (_ : 208 + 8 * H.count ≤ size)
    (hapart : NoOverlap (H.base, H.size) (k, size)) :
    memcpy m (regArrAddr k + REGION_ARR) (regions m h + REGION_ARR)
        (u32 ((nRegions m h - 1) * REGION_ARR)) =
      copy m (k + 128) (H.base + 128) (8 * H.users.length) := by
  have hroom := hP.room
  have hsmall := hP.small
  have hcnt : H.count = H.users.length + 1 := rfl
  have hlen : u32 ((nRegions m h - 1) * REGION_ARR) = 8 * H.users.length := by
    rw [hH.nRegions, hcnt]
    simp only [REGION_ARR]
    exact u32_of_range (by omega) (by omega)
  have hdest : regArrAddr k + REGION_ARR = k + 128 := rfl
  have hsrc : H.base + 120 + REGION_ARR = H.base + 128 := rfl
  unfold NoOverlap at hapart
  simp only at hapart
  rw [hlen, hH.regions, hdest, hsrc]
  exact memcpy_eq_copy m (by omega) (by omega)

/-- `grow_kheap` with its reservation made, up to the call of `relinquish`. -/
theorem growKheap_eq (hH : HeapReady s h H) (hal : H.alignment = 4096)
    (hsize : H.size + 4096 = size) (hsmall : size < 2147483648)
    (hres : reserve s (u32 ((size : Int).tdiv 4096)) MEM_K = some (k, s1)) (hk : k ≠ 0)
    (hP' : HeapPlaced (H.movedTo k size)) (hclear : HeapAt (memset s1.mem k 0 size) h H)
    (hapart : ∀ x ∈ H.extents, NoOverlap x (k, size)) :
    growKheap s h =
      (relinquish { s1 with mem := layKernel (memset s1.mem k 0 size) H k size }
        H.base (u32 ((H.size : Int).tdiv ALIGN))).bind fun q =>
          some (chunkAddr q.2.mem (loadPtr q.2.mem (k + size - 24)), q.2) := by
  have hP := hH.placed
  have hkernel := hapart (H.base, H.size) List.mem_cons_self
  have hroom : 208 + 8 * H.count ≤ size := hP'.room
  have hfit : k + size < 18446744073709551616 := hP'.addressable
  have hcnt : H.count = H.users.length + 1 := rfl
  rcases hH.image.kernel_fields with ⟨_, hasize, _⟩
  have halign : alignment s.mem h = 4096 := hH.image.alignment.trans hal
  have hsum : i32 ((H.size : Int) + 4096) = size :=
    (i32_of_range (by omega) (by omega)).trans (by omega)
  have hlen : u32 (size : Int) = size := u32_of_range rfl (by omega)
  have hslot : ((k : Int) + size - 5 * CHUNK_ARR).toNat + 16 = k + size - 24 := by
    simp only [CHUNK_ARR]
    omega
  have hlaid := layKernel_spec hclear hP hP' hapart
  unfold growKheap
  simp only [hasize, halign, hsum, hlen, Option.bind_eq_bind]
  rw [if_neg (by decide), hres, Option.bind_some]
  simp only []
  rw [if_neg hk]
  generalize memset s1.mem k 0 size = m0 at hclear hlaid ⊢
  simp only [hclear.nRegions, hslot]
  -- The new kernel region is laid out beside the old one.
  rcases initKernelRegion_spec (m := m0) hroom hsmall hfit with ⟨hK, hw1⟩
  unfold layKernel at hlaid ⊢
  generalize initKernelRegion m0 k size H.count = m1 at hK hw1 hlaid ⊢
  have hw2 : WritesOnly m1 (storePtr m1 (k + 120) (k + 24)) (k + 120) (k + 128) :=
    (WritesOnly.storePtr _ _ _).mono (Nat.le_refl _) (by omega)
  have hfirst : storePtr m1 (regArrAddr k) (k + CHUNK_INFO_SIZE) = storePtr m1 (k + 120) (k + 24) := rfl
  rw [hfirst]
  generalize storePtr m1 (k + 120) (k + 24) = m2 at hw2 hlaid ⊢
  have hold : HeapAt m2 h H := hclear.frame hP fun x hx => by
    have hbeside := hapart x hx
    unfold NoOverlap at hbeside
    exact (hw1.trans (hw2.mono (by omega) (by omega))).agreeOn (by simpa using hbeside)
  rw [copySlots_eq hold hP hroom hkernel]
  have hw3 : WritesOnly m2 (copy m2 (k + 128) (H.base + 128) (8 * H.users.length)) (k + 128)
      (k + 128 + 8 * H.users.length) := .copy _ _ _ _
  generalize copy m2 (k + 128) (H.base + 128) (8 * H.users.length) = m3 at hw3 hlaid ⊢
  have hrecord : chunkAddr m3 (loadPtr m3 (k + size - 24)) = k + 80 :=
    heapRecord_eq hK ((hw2.mono (Nat.le_refl _) (by omega)).trans
      (hw3.mono (by omega) (Nat.le_refl _))) (by omega) (by omega) (by omega)
  have hregs : regArrAddr k = k + 120 := rfl
  rw [hrecord, hregs, hal]
  rw [hal] at hlaid
  generalize storeHeapInfo m3 (k + 80) ⟨4096, H.count, k + 120⟩ = m4 at hlaid ⊢
  -- The old one is still there when it is relinquished.
  have hold4 : HeapAt m4 h H := hclear.frame hP fun x hx => hlaid.2.agreeOn (hapart x hx)
  rcases hold4.kernel_fields with ⟨_, hasize4, hbase4⟩
  rw [hasize4, hbase4]

/-- What `grow_kheap` leaves: the heap in a larger kernel region beside everything that was in use,
and the old one filled. -/
structure Grown (s s' : Machine) (h h' : Nat) (H : Heap) (k size : Nat) : Prop where
  ptr : h' = k + 80
  image : HeapAt s'.mem h' (H.movedTo k size)
  placed : HeapPlaced (H.movedTo k size)
  apart : ∀ x l, Owned s x l → 0 < l → NoOverlap (x, l) (k, size)
  larger : size = H.size + 4096
  filled : ∀ x, H.base ≤ x → x < H.base + H.size → s'.mem x = 86

/-- The pages that `reserve` hands out for the new kernel region lie beside the heap, and clearing
them leaves the heap alone. -/
theorem HeapReady.kernelReserved (hH : HeapReady s h H) (hpages : H.size % 4096 = 0)
    (hsize : H.size + 4096 = size) (hsmall : size < 2147483648)
    (hres : reserve s (u32 ((size : Int).tdiv 4096)) MEM_K = some (k, s1)) :
    Handed s s1 MEM_K k size ∧ (∀ x ∈ H.extents, NoOverlap x (k, size)) ∧
      HeapPlaced (H.movedTo k size) ∧ HeapAt (memset s1.mem k 0 size) h H := by
  have hP := hH.placed
  have hoff := hH.pages.offset
  have hcount : u32 ((size : Int).tdiv 4096) = size / 4096 := by
    have hdiv : (size : Int).tdiv 4096 = (size / 4096 : Nat) := rfl
    exact u32_of_range hdiv (by omega)
  have hcover : 4096 * count (size / 4096) = size := by
    have hpos : count (size / 4096) = size / 4096 := if_neg (by omega)
    rw [hpos]
    omega
  have hhand : Handed s s1 MEM_K k (4096 * count (size / 4096)) := by
    rw [hcount] at hres
    exact reserve_handed hH.pages (by omega) (.inl rfl) hres
  rw [hcover] at hhand
  have hbound := hhand.bound
  have hapart : ∀ x ∈ H.extents, NoOverlap x (k, size) := fun x hx =>
    hhand.apart x.1 x.2 (hH.owned x hx) (hP.extent_pos hx)
  refine ⟨hhand, hapart, hP.movedTo (by omega) hsmall (by omega) hapart, ?_⟩
  rw [memset_eq_fill]
  exact hH.image.frame hP fun x hx =>
    (hhand.writes.trans (.fill _ _ _ _)).agreeOn (hapart x hx)

/-- What is there after the old kernel region was relinquished. -/
theorem HeapReady.grown {r : Int} {s2 : Machine} (hH : HeapReady s h H)
    (hpages : H.size % 4096 = 0) (hsize : H.size + 4096 = size) (hhand : Handed s s1 MEM_K k size)
    (hP' : HeapPlaced (H.movedTo k size)) (hapart : ∀ x ∈ H.extents, NoOverlap x (k, size))
    (hm : HeapAt m (k + 80) (H.movedTo k size))
    (hrel : relinquish { s1 with mem := m } H.base (u32 ((H.size : Int).tdiv ALIGN)) = some (r, s2)) :
    Grown s s2 h (chunkAddr s2.mem (loadPtr s2.mem (k + size - 24))) H k size := by
  have hP := hH.placed
  have hHsmall := hP.small
  have hpagesOld : u32 ((H.size : Int).tdiv ALIGN) = H.size / 4096 := by
    have hdiv : (H.size : Int).tdiv ALIGN = (H.size / 4096 : Nat) := rfl
    exact u32_of_range hdiv (by omega)
  have hmem : s2.mem = fill m H.base H.size 86 := by
    have hlen : u32 (((H.size / 4096 : Nat) : Int) * CHUNK_SIZE) = H.size := by
      simp only [CHUNK_SIZE]
      exact u32_of_range (by omega) (by omega)
    rw [hpagesOld, relinquish, Option.bind_eq_bind, Option.bind_eq_some_iff] at hrel
    rcases hrel with ⟨map, _, hrel⟩
    rw [Option.some.injEq, Prod.mk.injEq] at hrel
    rw [← hrel.2]
    simp only [hlen, memset_eq_fill]
  have hkernel := hapart (H.base, H.size) List.mem_cons_self
  have hbeside : ∀ x ∈ (H.movedTo k size).extents, NoOverlap x (H.base, H.size) := by
    intro x hx
    rcases List.mem_cons.1 hx with rfl | hx
    · exact hkernel.symm
    · exact ((List.pairwise_cons.1 hP.apart).1 x hx).symm
  have hfilled : WritesOnly m s2.mem H.base (H.base + H.size) := by
    rw [hmem]
    exact .fill _ _ _ _
  have himage : HeapAt s2.mem (k + 80) (H.movedTo k size) :=
    hm.frame hP' fun x hx => hfilled.agreeOn (hbeside x hx)
  have hroom : 208 + 8 * H.count ≤ size := hP'.room
  have hptr : chunkAddr s2.mem (loadPtr s2.mem (k + size - 24)) = k + 80 :=
    heapRecord_eq himage.kernel (.refl _ (k + 80) (k + 80)) (Nat.le_refl _)
      (show k + 80 ≤ k + size - 40 by omega) (show 208 ≤ size by omega)
  refine ⟨hptr, hptr.symm ▸ himage, hP', fun x l hown hl => hhand.apart x l hown hl, hsize.symm, ?_⟩
  intro x hlo hhi
  rw [hmem, fill, if_pos ⟨hlo, hhi⟩]

/-- `grow_kheap` returns a heap with a larger kernel region, or leaves the heap alone. -/
theorem growKheap_spec (hH : HeapReady s h H) (hal : H.alignment = 4096)
    (hpages : H.size % 4096 = 0) (hrun : growKheap s h = some (h', s')) :
    (h' = 0 ∧ HeapAt s'.mem h H) ∨ ∃ k size, Grown s s' h h' H k size := by
  have hP := hH.placed
  have hHsmall := hP.small
  rcases hH.image.kernel_fields with ⟨_, hasize, _⟩
  have halign : alignment s.mem h = 4096 := hH.image.alignment.trans hal
  obtain ⟨size, hsize⟩ : ∃ size, H.size + 4096 = size := ⟨_, rfl⟩
  have hsum : (H.size : Int) + 4096 = size := by omega
  have hunfold := hrun
  unfold growKheap at hunfold
  simp only [hasize, halign, hsum, Option.bind_eq_bind] at hunfold
  rw [if_neg (by decide), Option.bind_eq_some_iff] at hunfold
  rcases hunfold with ⟨⟨k, s1⟩, hres, hunfold⟩
  have hsmall : size < 2147483648 := by
    -- The size would be negative as an `int`, and so would the number of pages.
    by_contra hlarge
    have hover : i32 (size : Int) = -2147483648 := by
      rw [i32_eq]
      omega
    rw [hover] at hres
    have hneg : u32 ((-2147483648 : Int).tdiv 4096) = 4294443008 := by decide
    rw [hneg, reserve_negative (.inl rfl) (by rw [hH.pages.maxChunk]; decide) (by decide)
      (by decide)] at hres
    cases hres
  rw [i32_of_range (by omega) (by omega)] at hres
  rcases hH.kernelReserved hpages hsize hsmall hres with ⟨hhand, hapart, hP', hclear⟩
  by_cases hk : k = 0
  · simp only [] at hunfold
    rw [if_pos hk, Option.some.injEq, Prod.mk.injEq] at hunfold
    rcases hunfold with ⟨rfl, rfl⟩
    exact .inl ⟨rfl, hH.image.frame hP fun x hx => hhand.writes.agreeOn (hapart x hx)⟩
  · rw [growKheap_eq hH hal hsize hsmall hres hk hP' hclear hapart, Option.bind_eq_some_iff] at hrun
    rcases hrun with ⟨⟨r, s2⟩, hrel, hrun⟩
    rw [Option.some.injEq, Prod.mk.injEq] at hrun
    rcases hrun with ⟨rfl, rfl⟩
    have hlaid := (layKernel_spec hclear hP hP' hapart).1
    exact .inr ⟨k, size, hH.grown hpages hsize hhand hP' hapart hlaid hrel⟩

/-- With pages for it, there is a new kernel region. -/
theorem growKheap_grown (hH : HeapReady s h H) (hal : H.alignment = 4096)
    (hpages : H.size % 4096 = 0) (hsize : H.size + 4096 = size) (hsmall : size < 2147483648)
    (hres : reserve s (u32 ((size : Int).tdiv 4096)) MEM_K = some (k, s1)) (hk : k ≠ 0)
    (hrel : ∀ m, (relinquish { s1 with mem := m } H.base
      (u32 ((H.size : Int).tdiv ALIGN))).isSome = true) :
    ∃ h' s', growKheap s h = some (h', s') ∧ Grown s s' h h' H k size := by
  rcases hH.kernelReserved hpages hsize hsmall hres with ⟨hhand, hapart, hP', hclear⟩
  rw [growKheap_eq hH hal hsize hsmall hres hk hP' hclear hapart]
  have hlaid := (layKernel_spec hclear hH.placed hP' hapart).1
  generalize layKernel (memset s1.mem k 0 size) H k size = m at hlaid ⊢
  rcases Option.isSome_iff_exists.1 (hrel m) with ⟨⟨r, s2⟩, hrel⟩
  rw [hrel, Option.bind_some]
  exact ⟨_, _, rfl, hH.grown hpages hsize hhand hP' hapart hlaid hrel⟩

end Memory
end EmbeddedOS
