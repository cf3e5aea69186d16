import EmbeddedOS.Memory.HeapListing

/-!
# New regions

`create` lays out the kernel region and the first user region; `create_region` reserves pages for
one more and lists it in the kernel region. As long as the kernel region has a slot left, both
leave a heap whose regions lie beside each other on reserved pages.
-/

namespace EmbeddedOS
namespace Memory

open Base Base.ByteMem Stdlib

variable {m m' : ByteMem} {h : Nat} {H : Heap} {R : Region} {s s' : Machine}

/-! ## Heaps on reserved pages -/

/-- A heap in memory whose regions lie beside each other on reserved pages. -/
structure HeapReady (s : Machine) (h : Nat) (H : Heap) : Prop where
  pages : PagesReady s
  image : HeapAt s.mem h H
  placed : HeapPlaced H
  owned : ∀ x ∈ H.extents, Owned s x.1 x.2

theorem HeapPlaced.extent_pos (hP : HeapPlaced H) {x : Nat × Nat} (hx : x ∈ H.extents) :
    0 < x.2 := by
  simp only [Heap.extents, List.mem_cons, List.mem_map] at hx
  rcases hx with rfl | ⟨R, hR, rfl⟩
  · have := hP.room
    simp only []
    omega
  · have := (hP.sound R hR).room
    simp only []
    omega

theorem extents_append (H : Heap) (R : Region) :
    (H.withUsers (H.users ++ [R])).extents = H.extents ++ [(R.base, R.size)] := by
  simp [Heap.extents, Heap.withUsers]

/-- One more region beside the others. -/
theorem HeapPlaced.append (hP : HeapPlaced H) (hroom : 216 + 8 * H.count ≤ H.size) (hs : R.Sound)
    (hapart : ∀ x ∈ H.extents, NoOverlap x (R.base, R.size)) :
    HeapPlaced (H.withUsers (H.users ++ [R])) := by
  refine ⟨hP.small, hP.addressable, ?_, ?_, ?_⟩
  · rw [(H.kernel_append R).1]
    change 208 + 8 * (H.count + 1) ≤ H.size
    omega
  · rw [extents_append H R]
    refine List.pairwise_append.2 ⟨hP.apart, by simp, ?_⟩
    intro x hx y hy
    rw [List.mem_singleton] at hy
    rw [hy]
    exact hapart x hx
  · intro Q hQ
    simp only [Heap.withUsers, List.mem_append, List.mem_singleton] at hQ
    rcases hQ with hQ | rfl
    · exact hP.sound Q hQ
    · exact hs

/-- A write outside every region leaves the heap in memory. -/
theorem HeapAt.frame (hH : HeapAt m h H) (hP : HeapPlaced H)
    (ha : ∀ x ∈ H.extents, AgreeOn m' m x.1 (x.1 + x.2)) : HeapAt m' h H := by
  have hk := ha (H.base, H.size) List.mem_cons_self
  have hroom := hP.room
  have hptr := hH.ptr
  have hlen : ((H.base + 24) :: H.users.map Region.record).length = H.count := by
    simp [Heap.count]
  simp only [] at hk
  refine ⟨hH.ptr, ?_, ?_, ?_, ?_, hH.kernel.frame hP.kernel.toPlaced hk, ?_⟩
  · exact (loadInt_congr (hk.mono (by omega) (by omega))).trans hH.alignment
  · exact (loadInt_congr (hk.mono (by omega) (by omega))).trans hH.nRegions
  · exact (loadPtr_congr (hk.mono (by omega) (by omega))).trans hH.regions
  · exact hH.array.frame (hk.mono (by omega) (by rw [hlen]; omega))
  · intro R hR
    exact (hH.users R hR).frame (hP.sound R hR).toPlaced
      (ha (R.base, R.size) (List.mem_cons_of_mem _ (List.mem_map_of_mem hR)))

/-! ## `create_region` -/

/-- The free bytes of the kernel region. -/
def kernelRoom (m : ByteMem) (h : Nat) : Int :=
  allocSize m (regionPtr m h 0) - usedSize m (regionPtr m h 0)

/-- A call of `create_region` that reserves pages for the whole region and finds a free slot in
the kernel region. -/
structure RegionFits (s : Machine) (h : Nat) (size : Int) : Prop where
  small : size < 2147483648
  pages : size ≤ 4096 * count (size.toNat / 4096)
  room : 8 ≤ kernelRoom s.mem h

theorem zone_user (s : Machine) : (zone s MEM_U).1 = 4096 := by
  unfold zone
  rw [if_neg (by decide)]
  rfl

theorem HeapAt.kernelRoom_eq (hH : HeapAt m h H) :
    kernelRoom m h = (H.size : Int) - (208 + 8 * H.count : Nat) := by
  have hrec : regionPtr m h 0 = H.kernel.record := by
    rw [hH.ptr]
    exact hH.path.ptr
  rw [kernelRoom, hrec, hH.kernel.allocSize, hH.kernel.usedSize, Heap.kernel, Region.used_kernel]
  rfl

/-- The test of `create_region` for a full kernel region. -/
theorem HeapAt.room_iff (hH : HeapAt m h H) (hP : HeapPlaced H) :
    i32 (kernelRoom m h) < (REGION_ARR : Int) ↔ kernelRoom m h < 8 := by
  have hsmall := hP.small
  have hroom := hP.room
  rw [hH.kernelRoom_eq, i32_of_range (by omega) (by omega)]
  exact Iff.rfl

/-- `create_region` without growth of the kernel region. -/
theorem createRegion_eq {s1 : Machine} {size : Int} {a : Nat}
    (hres : reserve s (u32 (size.tdiv ALIGN)) MEM_U = some (a, s1)) (ha : a ≠ 0) (hh : h ≠ 0)
    (hroom : ¬ i32 (kernelRoom (memset s1.mem a 0 (u32 size)) h) < (REGION_ARR : Int)) :
    createRegion s h size = some { s1 with
      mem := appendRegion (initUserRegion (memset s1.mem a 0 (u32 size)) a size) h a } := by
  unfold kernelRoom at hroom
  unfold createRegion
  simp only [hres, Option.bind_eq_bind, Option.bind_some]
  rw [if_neg ha, if_neg hroom, if_neg hh]

/-- The kernel region lies beside every user region. -/
theorem HeapPlaced.kernel_apart (hP : HeapPlaced H) (hR : R ∈ H.users) :
    NoOverlap (H.base, H.size) (R.base, R.size) :=
  (List.pairwise_cons.1 hP.apart).1 _ (List.mem_map_of_mem hR)

/-- Laying out and listing a region on pages beside the heap. -/
theorem layRegion_spec {a size : Nat} (hH : HeapAt m h H) (hP : HeapPlaced H)
    (hroom : 216 + 8 * H.count ≤ H.size) (hlo : 128 ≤ size) (hsmall : size < 2147483648)
    (hfit : a + size < 18446744073709551616)
    (hapart : ∀ x ∈ H.extents, NoOverlap x (a, size)) :
    HeapAt (appendRegion (initUserRegion m a size) h a) h
        (H.withUsers (H.users ++ [Region.fresh a size])) ∧
      HeapPlaced (H.withUsers (H.users ++ [Region.fresh a size])) ∧
      ∀ Q ∈ H.users, AgreeOn (appendRegion (initUserRegion m a size) h a) m Q.base
        (Q.base + Q.size) := by
  have hinit := initUserRegion_spec (m := m) hlo hsmall hfit
  have hs : (Region.fresh a size).Sound := Region.sound_fresh hlo hsmall hfit
  have hframe : HeapAt (initUserRegion m a size) h H := by
    refine hH.frame hP ?_
    intro x hx
    exact hinit.2.agreeOn (hapart x hx)
  have hlist := appendRegion_spec hframe hP hroom hinit.1 hs hapart
  refine ⟨hlist.1, hP.append hroom hs hapart, ?_⟩
  intro Q hQ
  have hbeside := hapart (Q.base, Q.size) (List.mem_cons_of_mem _ (List.mem_map_of_mem hQ))
  have hkernel := hP.kernel_apart hQ
  unfold NoOverlap at hbeside hkernel
  exact (hlist.2.agreeOn (by omega)).trans (hinit.2.agreeOn (by omega))

/-- The pages of a new region lie beside the heap. -/
theorem HeapReady.handed_apart {type a len size : Nat} (hH : HeapReady s h H)
    (hhand : Handed s s' type a len) (hsize : size ≤ len) :
    ∀ x ∈ H.extents, NoOverlap x (a, size) := by
  intro x hx
  have hx' := hhand.apart x.1 x.2 (hH.owned x hx) (hH.placed.extent_pos hx)
  unfold NoOverlap at hx' ⊢
  simp only [] at hx' ⊢
  omega

/-- The pages that `reserve` hands out for a region lie beside the heap, and clearing them leaves
the heap alone. -/
theorem HeapReady.reserved {size a : Nat} {s1 : Machine} (hH : HeapReady s h H) (hlo : 128 ≤ size)
    (hsmall : size < 2147483648) (hcover : size ≤ 4096 * count (size / 4096))
    (hres : reserve s (u32 ((size : Int).tdiv ALIGN)) MEM_U = some (a, s1)) :
    Handed s s1 MEM_U a (4096 * count (size / 4096)) ∧ a ≠ 0 ∧
      HeapReady { s1 with mem := memset s1.mem a 0 size } h H ∧
      ∀ x ∈ H.extents, AgreeOn (memset s1.mem a 0 size) s.mem x.1 (x.1 + x.2) := by
  have hpages : u32 ((size : Int).tdiv ALIGN) = size / 4096 := by
    have hdiv : (size : Int).tdiv ALIGN = (size / 4096 : Nat) := rfl
    exact u32_of_range hdiv (by omega)
  have hhand : Handed s s1 MEM_U a (4096 * count (size / 4096)) := by
    rw [hpages] at hres
    exact reserve_handed hH.pages (by omega) (.inr rfl) hres
  have hstart := hhand.start
  rw [zone_user] at hstart
  have hclear : WritesOnly s.mem (memset s1.mem a 0 size) a (a + 4096 * count (size / 4096)) := by
    rw [memset_eq_fill]
    exact hhand.writes.trans ((WritesOnly.fill _ _ _ _).mono (Nat.le_refl _) (by omega))
  have hcleared : ∀ x ∈ H.extents, AgreeOn (memset s1.mem a 0 size) s.mem x.1 (x.1 + x.2) := by
    intro x hx
    exact hclear.agreeOn (hhand.apart x.1 x.2 (hH.owned x hx) (hH.placed.extent_pos hx))
  generalize memset s1.mem a 0 size = m at hcleared ⊢
  exact ⟨hhand, by omega, ⟨hhand.ready.withMem m, hH.image.frame hH.placed hcleared, hH.placed,
    fun x hx => (hhand.keeps _ _ (hH.owned x hx)).withMem m⟩, hcleared⟩

/-- `create_region`, when `reserve` hands out pages. -/
theorem createRegion_reserved {size a : Nat} {s1 : Machine} (hH : HeapReady s h H)
    (hlo : 128 ≤ size) (hfits : RegionFits s h size)
    (hres : reserve s (u32 ((size : Int).tdiv ALIGN)) MEM_U = some (a, s1)) :
    ∃ m', createRegion s h size = some { s1 with mem := m' } ∧
      HeapReady { s1 with mem := m' } h (H.withUsers (H.users ++ [Region.fresh a size])) ∧
      ∀ Q ∈ H.users, AgreeOn m' s.mem Q.base (Q.base + Q.size) := by
  have hsmall := hfits.small
  have hcover := hfits.pages
  rw [Int.toNat_natCast] at hcover
  have hlen : u32 (size : Int) = size := u32_of_range rfl (by omega)
  rcases hH.reserved hlo (by omega) (by omega) hres with ⟨hhand, ha, hready, hcleared⟩
  have hbound := hhand.bound
  have hoff := hH.pages.offset
  have hptr := hH.image.ptr
  have hapart := hH.handed_apart hhand (show size ≤ _ by omega)
  have hframe : HeapAt (memset s1.mem a 0 size) h H := hready.image
  have hroom : 8 ≤ kernelRoom (memset s1.mem a 0 size) h := by
    rw [hframe.kernelRoom_eq, ← hH.image.kernelRoom_eq]
    exact hfits.room
  have hgrow : ¬ i32 (kernelRoom (memset s1.mem a 0 (u32 (size : Int))) h) < (REGION_ARR : Int) := by
    rw [hlen, hframe.room_iff hH.placed]
    omega
  have hcreate := createRegion_eq hres ha (by omega) hgrow
  rw [hlen] at hcreate
  rw [hframe.kernelRoom_eq] at hroom
  have hlaid := layRegion_spec hframe hH.placed (by omega) hlo (by omega) (by omega) hapart
  have howned : ∀ x ∈ (H.withUsers (H.users ++ [Region.fresh a size])).extents,
      Owned s1 x.1 x.2 := by
    intro x hx
    rw [extents_append, List.mem_append, List.mem_singleton] at hx
    rcases hx with hx | rfl
    · exact hhand.keeps _ _ (hH.owned x hx)
    · exact hhand.owned.mono (show size ≤ _ by omega)
  generalize appendRegion (initUserRegion (memset s1.mem a 0 size) a size) h a = m' at hcreate hlaid
  refine ⟨_, hcreate, ⟨hhand.ready.withMem m', hlaid.1, hlaid.2.1,
    fun x hx => (howned x hx).withMem m'⟩, ?_⟩
  intro Q hQ
  exact (hlaid.2.2 Q hQ).trans
    (hcleared (Q.base, Q.size) (List.mem_cons_of_mem _ (List.mem_map_of_mem hQ)))

theorem createRegion_spec {size : Nat} (hH : HeapReady s h H) (hlo : 128 ≤ size)
    (hfits : RegionFits s h size) (hrun : createRegion s h size = some s') :
    ∃ a, HeapReady s' h (H.withUsers (H.users ++ [Region.fresh a size])) ∧
      ∀ Q ∈ H.users, AgreeOn s'.mem s.mem Q.base (Q.base + Q.size) := by
  cases hres : reserve s (u32 ((size : Int).tdiv ALIGN)) MEM_U with
  | none =>
      unfold createRegion at hrun
      rw [hres] at hrun
      cases hrun
  | some p =>
      rcases createRegion_reserved hH hlo hfits hres with ⟨m', hcreate, hspec⟩
      rw [hrun, Option.some.injEq] at hcreate
      subst hcreate
      exact ⟨p.1, hspec⟩

/-! ## `create` -/

/-- A call of `create` that reserves pages for two whole regions. -/
structure CreateFits (alignment size : Nat) : Prop where
  lo : 224 ≤ size
  small : size < 2147483648
  pages : size ≤ 4096 * count (size / alignment)

theorem storeHeapInfo_fields (m : ByteMem) (p : Nat) {a n : Int} {r : Nat}
    (ha : -2147483648 ≤ a ∧ a < 2147483648) (hn : -2147483648 ≤ n ∧ n < 2147483648)
    (hr : r < 18446744073709551616) :
    alignment (storeHeapInfo m p ⟨a, n, r⟩) p = a ∧ nRegions (storeHeapInfo m p ⟨a, n, r⟩) p = n ∧
      regions (storeHeapInfo m p ⟨a, n, r⟩) p = r := by
  unfold alignment nRegions regions storeHeapInfo
  dsimp only
  refine ⟨?_, ?_, ?_⟩
  · rw [loadInt_storePtr (by omega), loadInt_storeInt (by omega),
      loadInt_storeInt_same _ _ ha.1 ha.2]
  · rw [loadInt_storePtr (by omega), loadInt_storeInt_same _ _ hn.1 hn.2]
  · rw [loadPtr_storePtr_same _ _ hr]

theorem writesOnly_storeHeapInfo (m : ByteMem) (p : Nat) (i : HeapInfo) :
    WritesOnly m (storeHeapInfo m p i) p (p + 16) := by
  unfold storeHeapInfo
  refine (((WritesOnly.storeInt m p _).mono ?_ ?_).trans
    ((WritesOnly.storeInt _ (p + 4) _).mono ?_ ?_)).trans
    ((WritesOnly.storePtr _ (p + 8) _).mono ?_ ?_) <;> omega

/-- The kernel region does not depend on the heap record and the slots of the region array. -/
theorem RegionAt.kernel_frame {k size n : Nat} (hK : RegionAt m (Region.kernel k size n))
    (hroom : 208 + 8 * n ≤ size) (hkept : ∀ lo hi, (hi ≤ k + 80 ∨ k + 96 ≤ lo) →
      (hi ≤ k + 120 ∨ k + 120 + 8 * n ≤ lo) → AgreeOn m' m lo hi) :
    RegionAt m' (Region.kernel k size n) := by
  have harr : (Region.kernel k size n).arr = k + size - 40 := rfl
  refine ⟨?_, ?_, ?_, ?_, ?_, ?_, ?_⟩
  · exact (loadInt_congr (hkept (k + 24) _ (by omega) (by omega))).trans hK.allocSize
  · exact (loadInt_congr (hkept (k + 28) _ (by omega) (by omega))).trans hK.usedSize
  · exact (loadInt_congr (hkept (k + 32) _ (by omega) (by omega))).trans hK.nChunks
  · exact (loadPtr_congr (hkept (k + 40) _ (by omega) (by omega))).trans hK.baseAddr
  · exact (loadPtr_congr (hkept (k + 48) _ (by omega) (by omega))).trans hK.chunks
  · refine hK.array.frame (hkept _ _ ?_ ?_) <;> rw [harr] <;> omega
  · intro c hc
    refine (hK.headers c hc).frame ?_
    simp only [Region.entries, Region.arrayChunk, Region.infoChunk, harr, List.mem_cons] at hc
    simp only [Region.kernel, List.mem_cons, List.not_mem_nil, or_false] at hc
    simp only [Chunk.addr]
    rcases hc with rfl | rfl | rfl | rfl | rfl <;>
      exact hkept _ _ (by simp only []; omega) (by simp only []; omega)

/-- The last store of a new kernel region: the heap record. -/
theorem heapInfo_spec {k size : Nat} {al : Int} {users : List Region}
    (hP : HeapPlaced ⟨k, size, al, users⟩) (hal : -2147483648 ≤ al ∧ al < 2147483648)
    (hK : RegionAt m (Region.kernel k size (users.length + 1)))
    (harray : PointersAt m (k + 120) ((k + 24) :: users.map Region.record))
    (husers : ∀ R ∈ users, RegionAt m R) :
    HeapAt (storeHeapInfo m (k + 80) ⟨al, (users.length + 1 : Nat), k + 120⟩) (k + 80)
      ⟨k, size, al, users⟩ := by
  have hfit : k + size < 18446744073709551616 := hP.addressable
  have hsmall : size < 2147483648 := hP.small
  have hroom : 208 + 8 * (users.length + 1) ≤ size := hP.room
  have hfields := storeHeapInfo_fields m (k + 80) (n := (users.length + 1 : Nat)) (r := k + 120)
    hal (by omega) (by omega)
  have hw := writesOnly_storeHeapInfo m (k + 80) ⟨al, (users.length + 1 : Nat), k + 120⟩
  generalize storeHeapInfo m (k + 80) ⟨al, (users.length + 1 : Nat), k + 120⟩ = m' at hfields hw ⊢
  refine ⟨rfl, hfields.1, hfields.2.1, hfields.2.2, harray.frame (hw.agreeOn (by omega)),
    hK.kernel_frame hroom fun lo hi hd _ => hw.agreeOn (by omega), ?_⟩
  intro R hR
  have hapart := hP.kernel_apart hR
  unfold NoOverlap at hapart
  exact (husers R hR).frame (hP.sound R hR).toPlaced (hw.agreeOn (by simp only [] at hapart; omega))

/-- The last stores of `create`: the two slots of the region array and the heap record. -/
theorem listFirst_spec {k size a asize : Nat} {al : Int}
    (hK : RegionAt m (Region.kernel k size 2)) (hR : RegionAt m (Region.fresh a asize))
    (hP : HeapPlaced ⟨k, size, al, [Region.fresh a asize]⟩)
    (hal : -2147483648 ≤ al ∧ al < 2147483648) :
    HeapAt (storeHeapInfo (storePtr (storePtr m (k + 120) (k + 24)) (k + 128) (a + 24)) (k + 80)
      ⟨al, 2, k + 120⟩) (k + 80) ⟨k, size, al, [Region.fresh a asize]⟩ := by
  have hs := hP.sound (Region.fresh a asize) List.mem_cons_self
  have hfit : k + size < 18446744073709551616 := hP.addressable
  have hlo : 208 + 8 * 2 ≤ size := hP.room
  have hRfit : a + asize < 18446744073709551616 := hs.addressable
  have hRlo : 8 * 3 + 80 ≤ asize := hs.room
  have hapart : NoOverlap (k, size) (a, asize) := hP.kernel_apart List.mem_cons_self
  unfold NoOverlap at hapart
  have hslots : loadPtr (storePtr (storePtr m (k + 120) (k + 24)) (k + 128) (a + 24)) (k + 120)
        = k + 24 ∧
      loadPtr (storePtr (storePtr m (k + 120) (k + 24)) (k + 128) (a + 24)) (k + 128) = a + 24 := by
    constructor
    · rw [loadPtr_storePtr (by omega), loadPtr_storePtr_same _ _ (by omega)]
    · rw [loadPtr_storePtr_same _ _ (by omega)]
  have hw : WritesOnly m (storePtr (storePtr m (k + 120) (k + 24)) (k + 128) (a + 24)) (k + 120)
      (k + 136) :=
    ((WritesOnly.storePtr _ _ _).mono (by omega) (by omega)).trans
      ((WritesOnly.storePtr _ _ _).mono (by omega) (by omega))
  generalize storePtr (storePtr m (k + 120) (k + 24)) (k + 128) (a + 24) = m2 at hslots hw ⊢
  refine heapInfo_spec hP hal (hK.kernel_frame (by omega) fun lo hi _ hd => hw.agreeOn (by omega)) ?_ ?_
  · exact PointersAt.cons_iff.2 ⟨hslots.1, PointersAt.cons_iff.2 ⟨hslots.2, .nil⟩⟩
  · intro R hmem
    rw [List.mem_singleton.1 hmem]
    have hbeside : a + asize ≤ k + 120 ∨ k + 136 ≤ a := by
      simp only at hapart
      omega
    exact hR.frame hs.toPlaced (hw.agreeOn hbeside)

/-- The address of the heap record, read through the chunk array, is not affected by a write
behind the record or to it. -/
theorem heapRecord_eq {k size n lo hi : Nat} (hK : RegionAt m (Region.kernel k size n))
    (hw : WritesOnly m m' lo hi) (hlo : k + 80 ≤ lo) (hhi : hi ≤ k + size - 40)
    (hsize : 208 ≤ size) : chunkAddr m' (loadPtr m' (k + size - 24)) = k + 80 := by
  have hslot : loadPtr m (k + size - 40 + 8 * 2) = k + 56 :=
    hK.entry (c := ⟨k + 56, 16, .reserved⟩) rfl
  have hcell : k + size - 40 + 8 * 2 = k + size - 24 := by omega
  have haddr : chunkAddr m (k + 56) = k + 80 :=
    (hK.headers ⟨k + 56, 16, .reserved⟩ (by simp [Region.entries, Region.kernel])).addr
  rw [hcell] at hslot
  rw [loadPtr_congr (hw.agreeOn (.inr (by omega))), hslot]
  exact (loadPtr_congr (hw.agreeOn (.inl (by omega)))).trans haddr

/-- The regions of a new heap, laid out and listed. -/
theorem layHeap_spec {k a size : Nat} {al : Int} (m : ByteMem)
    (hP : HeapPlaced ⟨k, size, al, [Region.fresh a size]⟩)
    (hal : -2147483648 ≤ al ∧ al < 2147483648) :
    ∃ m2, m2 = storePtr (storePtr (initUserRegion (initKernelRegion m k size 2) a size)
        (k + 120) (k + 24)) (k + 128) (a + 24) ∧
      chunkAddr m2 (loadPtr m2 (k + size - 24)) = k + 80 ∧
      chunkAddr (storeHeapInfo m2 (k + 80) ⟨al, 2, k + 120⟩)
        (loadPtr (storeHeapInfo m2 (k + 80) ⟨al, 2, k + 120⟩) (k + size - 24)) = k + 80 ∧
      HeapAt (storeHeapInfo m2 (k + 80) ⟨al, 2, k + 120⟩) (k + 80)
        ⟨k, size, al, [Region.fresh a size]⟩ := by
  have hroom : 208 + 8 * 2 ≤ size := hP.room
  have hsmall : size < 2147483648 := hP.small
  have hfresh := hP.sound (Region.fresh a size) List.mem_cons_self
  have hapart : NoOverlap (k, size) (a, size) :=
    (List.pairwise_cons.1 hP.apart).1 (a, size) List.mem_cons_self
  have hkernel := initKernelRegion_spec (m := m) hroom hsmall hP.addressable
  have huser : RegionAt (initUserRegion (initKernelRegion m k size 2) a size)
      (Region.fresh a size) ∧ WritesOnly (initKernelRegion m k size 2)
        (initUserRegion (initKernelRegion m k size 2) a size) a (a + size) :=
    initUserRegion_spec (by omega) hsmall hfresh.addressable
  have hK : RegionAt (initUserRegion (initKernelRegion m k size 2) a size)
      (Region.kernel k size 2) :=
    hkernel.1.frame (Region.sound_kernel hroom hsmall hP.addressable).toPlaced
      (huser.2.agreeOn hapart)
  generalize initUserRegion (initKernelRegion m k size 2) a size = m1 at hK huser
  have hw : WritesOnly m1 (storePtr (storePtr m1 (k + 120) (k + 24)) (k + 128) (a + 24)) (k + 120)
      (k + 136) :=
    ((WritesOnly.storePtr _ _ _).mono (by omega) (by omega)).trans
      ((WritesOnly.storePtr _ _ _).mono (by omega) (by omega))
  have hlisted := listFirst_spec hK huser.1 hP hal
  refine ⟨_, rfl, ?_, ?_, hlisted⟩
  · exact heapRecord_eq hK hw (by omega) (by omega) (by omega)
  · have hwh := (writesOnly_storeHeapInfo
      (storePtr (storePtr m1 (k + 120) (k + 24)) (k + 128) (a + 24)) (k + 80) ⟨al, 2, k + 120⟩)
    have hboth := (hw.mono (show k + 80 ≤ k + 120 by omega) (Nat.le_refl _)).trans
      (hwh.mono (Nat.le_refl _) (show k + 80 + 16 ≤ k + 136 by omega))
    exact heapRecord_eq hK hboth (by omega) (by omega) (by omega)

/-- `create` with both its reservations made. -/
theorem create_eq {alignment size k a : Nat} {s1 s2 : Machine} {m2 : ByteMem}
    (hal : alignment ≠ 0) (hresK : reserve s (size / alignment) MEM_K = some (k, s1)) (hk : k ≠ 0)
    (hresU : reserve { s1 with mem := memset s1.mem k 0 size } (size / alignment) MEM_U =
      some (a, s2)) (ha : a ≠ 0) (hsize : 40 ≤ size)
    (hm2 : m2 = storePtr (storePtr (initUserRegion (initKernelRegion (memset s2.mem a 0 size) k
      size 2) a size) (k + 120) (k + 24)) (k + 128) (a + 24))
    (hread : chunkAddr m2 (loadPtr m2 (k + size - 24)) = k + 80)
    (hread' : chunkAddr (storeHeapInfo m2 (k + 80) ⟨i32 alignment, 2, k + 120⟩)
      (loadPtr (storeHeapInfo m2 (k + 80) ⟨i32 alignment, 2, k + 120⟩) (k + size - 24)) = k + 80) :
    create s alignment size =
      some (k + 80, { s2 with mem := storeHeapInfo m2 (k + 80) ⟨i32 alignment, 2, k + 120⟩ }) := by
  have hslot : ((k : Int) + size - 5 * CHUNK_ARR).toNat + 16 = k + size - 24 := by
    simp only [CHUNK_ARR]
    omega
  have harray : regArrAddr k = k + 120 := rfl
  have hrecord : regInfoAddr a = a + 24 := rfl
  have hnext : k + 120 + 8 = k + 128 := rfl
  unfold create
  rw [if_neg hal]
  simp only [hresK, Option.bind_eq_bind, Option.bind_some]
  rw [if_neg hk]
  simp only [hresU, Option.bind_some]
  rw [if_neg ha]
  simp only [hslot, harray, hrecord, hnext, CHUNK_INFO_SIZE, ← hm2, hread, hread']

/-- `create` with both its reservations made returns a heap with one fresh user region. -/
theorem create_ready {alignment size k a : Nat} {s1 s2 : Machine} (hpages : PagesReady s)
    (hfits : CreateFits alignment size) (hal : alignment ≠ 0)
    (hresK : reserve s (size / alignment) MEM_K = some (k, s1)) (hk : k ≠ 0)
    (hresU : reserve { s1 with mem := memset s1.mem k 0 size } (size / alignment) MEM_U =
      some (a, s2)) :
    ∃ m', create s alignment size = some (k + 80, { s2 with mem := m' }) ∧
      HeapReady { s2 with mem := m' } (k + 80) ⟨k, size, i32 alignment, [Region.fresh a size]⟩ := by
  have hlo := hfits.lo
  have hsmall := hfits.small
  have hcover := hfits.pages
  have hdiv : size / alignment ≤ size := Nat.div_le_self _ _
  have hpos := count_pos (size / alignment)
  have hoff := hpages.offset
  have halInt : -2147483648 ≤ i32 alignment ∧ i32 alignment < 2147483648 := by
    rw [i32_eq]
    omega
  have hhandK := reserve_handed hpages (by omega) (.inl rfl) hresK
  have hboundK := hhandK.bound
  have hoffK := hhandK.offset
  have hownK : Owned { s1 with mem := memset s1.mem k 0 size } k
      (4096 * count (size / alignment)) := hhandK.owned.withMem _
  have hhandU := reserve_handed (hhandK.ready.withMem (memset s1.mem k 0 size)) (by omega)
    (.inr rfl) hresU
  have hboundU := hhandU.bound
  have hstartU := hhandU.start
  have hapart := hhandU.apart k _ hownK (by omega)
  rw [zone_user] at hstartU
  simp only [] at hboundU hstartU
  have hP : HeapPlaced ⟨k, size, i32 alignment, [Region.fresh a size]⟩ := by
    refine ⟨hsmall, by simp only []; omega, hlo, ?_, ?_⟩
    · refine List.pairwise_cons.2 ⟨?_, List.pairwise_singleton _ _⟩
      intro x hx
      rw [List.mem_singleton.1 hx]
      unfold NoOverlap at hapart ⊢
      simp only [Region.fresh] at hapart ⊢
      omega
    · intro R hR
      rw [List.mem_singleton.1 hR]
      exact Region.sound_fresh (by omega) hsmall (by omega)
  rcases layHeap_spec (memset s2.mem a 0 size) hP halInt with ⟨m2, hm2, hread, hread', hH⟩
  refine ⟨_, create_eq hal hresK hk hresU (by omega) (by omega) hm2 hread hread', ?_⟩
  generalize storeHeapInfo m2 (k + 80) ⟨i32 alignment, 2, k + 120⟩ = m3 at hH
  refine ⟨hhandU.ready.withMem m3, hH, hP, ?_⟩
  intro x hx
  rcases List.mem_cons.1 hx with rfl | hx
  · exact (hhandU.keeps _ _ (hownK.mono (by simp only []; omega))).withMem m3
  · rw [List.mem_singleton.1 hx]
    exact (hhandU.owned.mono (by simp only [Region.fresh]; omega)).withMem m3

theorem create_spec {alignment size : Nat} (hpages : PagesReady s)
    (hfits : CreateFits alignment size) (hrun : create s alignment size = some (h, s'))
    (hne : h ≠ 0) :
    ∃ k a, HeapReady s' h ⟨k, size, i32 alignment, [Region.fresh a size]⟩ := by
  have hal0 : alignment ≠ 0 := by
    rintro rfl
    cases hrun
  cases hresK : reserve s (size / alignment) MEM_K with
  | none =>
      unfold create at hrun
      rw [if_neg hal0, hresK] at hrun
      cases hrun
  | some p =>
      rcases p with ⟨k, s1⟩
      have hk : k ≠ 0 := by
        rintro rfl
        unfold create at hrun
        simp only [hresK, Option.bind_eq_bind, Option.bind_some] at hrun
        rw [if_neg hal0, if_pos trivial] at hrun
        cases hrun
        exact hne rfl
      cases hresU : reserve { s1 with mem := memset s1.mem k 0 size } (size / alignment) MEM_U with
      | none =>
          unfold create at hrun
          simp only [hresK, Option.bind_eq_bind, Option.bind_some] at hrun
          rw [if_neg hal0, if_neg hk, hresU] at hrun
          cases hrun
      | some q =>
          rcases q with ⟨a, s2⟩
          rcases create_ready hpages hfits hal0 hresK hk hresU with ⟨t, hcreate, hready⟩
          rw [hcreate, Option.some.injEq, Prod.mk.injEq] at hrun
          rcases hrun with ⟨rfl, rfl⟩
          exact ⟨k, a, hready⟩

end Memory
end EmbeddedOS
