import EmbeddedOS.Memory.FullKernel
import EmbeddedOS.Memory.KernelGrowth

/-!
# The heap after `create_region`

`alloc` goes on with the heap pointer that it was called with. As long as the kernel region has a
slot left, the heap record behind that pointer lists the new region with the old ones. When
`create_region` has to grow the kernel region, the record lies on pages that were relinquished, and
what is left of it is the filling.
-/

namespace EmbeddedOS
namespace Memory

open Base Base.ByteMem Stdlib

variable {m : ByteMem} {h i n a size : Nat} {H H' : Heap} {s s0 s1 s' : Machine}
  {live : List (Nat × Nat)} {as : List HeapCall}

/-! ## What survives -/

/-- The heap at `h` lists the regions that it listed before, and one more of `size` bytes on pages
that were not in use. -/
structure ListsNew (s s' : Machine) (h : Nat) (size : Int) : Prop where
  count : nRegions s'.mem h = nRegions s.mem h + 1
  old : ∀ i : Nat, i < nRegions s.mem h →
    regionPtr s'.mem h i = regionPtr s.mem h i ∧
      baseAddr s'.mem (regionPtr s.mem h i) = baseAddr s.mem (regionPtr s.mem h i) ∧
      allocSize s'.mem (regionPtr s.mem h i) = allocSize s.mem (regionPtr s.mem h i)
  new : ∃ a, regionPtr s'.mem h (nRegions s.mem h).toNat = regInfoAddr a ∧
    baseAddr s'.mem (regInfoAddr a) = a ∧ allocSize s'.mem (regInfoAddr a) = size ∧
      ∀ x : Nat, a ≤ x → x < a + size → OnUsedPage s' x ∧ ¬ OnUsedPage s x

/-- The region array has no byte in common with another chunk of the kernel region. -/
def ArrayApart (m : ByteMem) (h : Nat) : Prop :=
  ∀ j : Nat, j < nChunks m (regionPtr m h 0) →
    chunkAddr m (chunkPtr m (regionPtr m h 0) j) ≠ regions m h →
      NoOverlap (chunkPtr m (regionPtr m h 0) j, CHUNK_INFO_SIZE)
          (regions m h, (nRegions m h * REGION_ARR).toNat) ∧
        NoOverlap (chunkAddr m (chunkPtr m (regionPtr m h 0) j),
            (chunkSize m (chunkPtr m (regionPtr m h 0) j)).toNat)
          (regions m h, (nRegions m h * REGION_ARR).toNat)

/-- What later calls through `h` do is determined by the memory on the pages in use. -/
def Undisturbed (s : Machine) (h : Nat) (live : List (Nat × Nat)) : Prop :=
  ∀ cs t, Run (SafeStep h) ⟨s, live⟩ cs t → ∀ m, SameInUse s m →
    ∃ t2, Run (HeapStep h) ⟨{ s with mem := m }, live⟩ cs ⟨t2, t.live⟩

/-- The heap at `h` is good after a region of `size` bytes was created. -/
structure Survives (s s' : Machine) (h : Nat) (size : Int) (live : List (Nat × Nat)) : Prop where
  lists : ListsNew s s' h size
  apart : ArrayApart s'.mem h
  undisturbed : Undisturbed s' h live

/-- The heap at `h` is good after the call of `create_region` in `alloc`, and when `alloc` returns
from the new region. -/
def AllocSurvives (s : Machine) (h n : Nat) (live : List (Nat × Nat)) : Prop :=
  ∃ s1, createRegion s h (newRegionSize (alignment s.mem h) n) = some s1 ∧
    Survives s s1 h (newRegionSize (alignment s.mem h) n) live ∧
    ∀ p t, alloc 2 s h n = some (p, t) →
      Survives s t h (newRegionSize (alignment s.mem h) n) ((p, n) :: live)

/-! ## With a slot left -/

/-- The record of region `i` names its extent. -/
theorem HeapAt.listed {x : Nat × Nat} (hH : HeapAt m h H) (hi : H.extents[i]? = some x) :
    regionPtr m h i = regInfoAddr x.1 ∧ baseAddr m (regInfoAddr x.1) = x.1 ∧
      allocSize m (regInfoAddr x.1) = x.2 := by
  cases i with
  | zero =>
      obtain rfl : (H.base, H.size) = x := Option.some.inj hi
      exact ⟨hH.ptr ▸ hH.path.ptr, hH.kernel.baseAddr, hH.kernel.allocSize⟩
  | succ k =>
      have hk : (H.users.map fun R => (R.base, R.size))[k]? = some x := hi
      rw [List.getElem?_map, Option.map_eq_some_iff] at hk
      rcases hk with ⟨R, hR, rfl⟩
      have hat := hH.users R (List.mem_of_getElem? hR)
      exact ⟨hH.regionPtr_eq hR, hat.baseAddr, hat.allocSize⟩

theorem Heap.extents_length (H : Heap) : H.extents.length = H.count := by
  simp [Heap.extents, Heap.count]

theorem HeapReady.listsNew (hH : HeapReady s h H) (hH' : HeapReady s' h H')
    (hext : H'.extents = H.extents ++ [(a, size)])
    (hfresh : ∀ x, a ≤ x → x < a + size → ¬ OnUsedPage s x) : ListsNew s s' h size := by
  have hlen := H.extents_length
  have hlen' := H'.extents_length
  rw [hext, List.length_append, List.length_singleton] at hlen'
  refine ⟨?_, ?_, a, ?_⟩
  · rw [hH'.image.nRegions, hH.image.nRegions]
    omega
  · intro i hi
    rw [hH.image.nRegions] at hi
    obtain ⟨x, hx⟩ : ∃ x, H.extents[i]? = some x := ⟨_, List.getElem?_eq_getElem (by omega)⟩
    have hx' : H'.extents[i]? = some x := by
      rw [hext, List.getElem?_append_left (by omega)]
      exact hx
    rcases hH.image.listed hx with ⟨hptr, hbase, hsize⟩
    rcases hH'.image.listed hx' with ⟨hptr', hbase', hsize'⟩
    rw [hptr]
    exact ⟨hptr', hbase'.trans hbase.symm, hsize'.trans hsize.symm⟩
  · have hx' : H'.extents[(nRegions s.mem h).toNat]? = some (a, size) := by
      rw [hext, hH.image.nRegions, Int.toNat_natCast, ← hlen, List.getElem?_concat_length]
    rcases hH'.image.listed hx' with ⟨hptr, hbase, hsize⟩
    refine ⟨hptr, hbase, hsize, fun x hlo hhi => ⟨?_, hfresh x hlo (by exact_mod_cast hhi)⟩⟩
    exact hH'.owned (a, size) (List.mem_of_getElem? hx') x hlo (by exact_mod_cast hhi)

theorem HeapReady.arrayApart (hH : HeapReady s h H) : ArrayApart s.mem h := by
  have hroom := hH.placed.room
  rcases hH.image.kernel_fields with ⟨hptr, -, -⟩
  have hK := hH.image.kernel
  have hlen : (H.count * REGION_ARR : Int).toNat = 8 * H.count := by
    simp only [REGION_ARR]
    omega
  intro j hj hne
  rw [hptr, hK.nChunks] at hj
  rw [hptr, hH.image.regions] at hne ⊢
  rw [hH.image.nRegions, hlen]
  obtain ⟨c, hc⟩ : ∃ c, H.kernel.entries[j]? = some c := by
    refine ⟨_, List.getElem?_eq_getElem ?_⟩
    rw [entries_length]
    omega
  have hhead := hK.header hc
  rw [hK.chunkPtr hc] at hne ⊢
  rw [hhead.addr] at hne
  rw [hhead.addr, hhead.size, Int.toNat_natCast]
  have harr : H.kernel.arr = H.base + H.size - 40 := rfl
  have hmem := List.mem_of_getElem? hc
  simp only [Region.entries, Region.arrayChunk, Region.infoChunk, harr, List.mem_cons] at hmem
  simp only [Heap.kernel, Region.kernel, List.mem_cons, List.not_mem_nil, or_false] at hmem
  unfold NoOverlap
  simp only [Chunk.addr, CHUNK_INFO_SIZE] at hne ⊢
  rcases hmem with rfl | rfl | rfl | rfl | rfl <;> simp only [] at hne ⊢ <;> omega

theorem HeapInv.undisturbed (hinv : HeapInv h live s H) : Undisturbed s h live := by
  intro cs t hrun m hm
  rcases (hinv.twins hm).run hrun with ⟨us, t2, hrun2, _⟩
  exact ⟨t2, hrun2⟩

theorem HeapInv.survives {live' : List (Nat × Nat)} (hH : HeapReady s h H)
    (hinv' : HeapInv h live' s' H') (hext : H'.extents = H.extents ++ [(a, size)])
    (hfresh : ∀ x, a ≤ x → x < a + size → ¬ OnUsedPage s x) : Survives s s' h size live' :=
  ⟨hH.listsNew hinv'.ready hext hfresh, hinv'.ready.arrayApart, hinv'.undisturbed⟩

/-! ## With the kernel region full -/

/-- `create_region` with growth of the kernel region. -/
theorem createRegion_grows {v : Int} (hres : reserve s (u32 (v.tdiv ALIGN)) MEM_U = some (a, s1))
    (ha : a ≠ 0)
    (hfull : i32 (kernelRoom (memset s1.mem a 0 (u32 v)) h) < (REGION_ARR : Int)) :
    createRegion s h v =
      (growKheap { s1 with mem := memset s1.mem a 0 (u32 v) } h).bind fun q =>
        if q.1 = 0 then some q.2
        else some { q.2 with mem := appendRegion (initUserRegion q.2.mem a v) q.1 a } := by
  unfold kernelRoom at hfull
  unfold createRegion
  simp only [hres, Option.bind_eq_bind, Option.bind_some]
  rw [if_neg ha, if_pos hfull]

/-- Laying out and listing the new region leaves the old kernel region as `grow_kheap` left it. -/
theorem Grown.stale {k ksize h' : Nat} (hg : Grown s s' h h' H k ksize) (hH : HeapReady s h H)
    (hown : Owned s a size) (hlo : 128 ≤ size) (hsmall : size < 2147483648)
    (hfit : a + size < 18446744073709551616)
    (hapart : ∀ x ∈ H.extents, NoOverlap x (a, size)) :
    nRegions (appendRegion (initUserRegion s'.mem a size) h' a) h = FILLED := by
  have hP := hH.placed
  have hP' := hg.placed
  have hroom : 208 + 8 * H.count ≤ H.size := hP.room
  have hptr := hH.image.ptr
  have hfill := hg.filled
  have hs : (Region.fresh a size).Sound := Region.sound_fresh hlo hsmall hfit
  have hinit := initUserRegion_spec (m := s'.mem) hlo hsmall hfit
  have hbeside : ∀ x ∈ (H.movedTo k ksize).extents, NoOverlap x (a, size) := by
    intro x hx
    rcases List.mem_cons.1 hx with rfl | hx
    · exact (hg.apart a size hown (by omega)).symm
    · exact hapart x (List.mem_cons_of_mem _ hx)
  have hmoved : HeapAt (initUserRegion s'.mem a size) h' (H.movedTo k ksize) :=
    hg.image.frame hP' fun x hx => hinit.2.agreeOn (hbeside x hx)
  have hlarger : 216 + 8 * (H.movedTo k ksize).count ≤ (H.movedTo k ksize).size := by
    have hk := hg.larger
    show 216 + 8 * H.count ≤ ksize
    omega
  have hlist : WritesOnly (initUserRegion s'.mem a size)
      (appendRegion (initUserRegion s'.mem a size) h' a) k (k + ksize) :=
    (appendRegion_spec hmoved hP' hlarger hinit.1 hs hbeside).2
  have hold := hapart (H.base, H.size) List.mem_cons_self
  have hnew := hg.apart H.base H.size (hH.owned _ List.mem_cons_self) (by omega)
  unfold NoOverlap at hold hnew
  rw [nRegions]
  refine (loadInt_congr ((hlist.agreeOn ?_).trans (hinit.2.agreeOn ?_))).trans
    (loadInt_filled fun x hx hx' => hfill x (by omega) (by omega))
  · omega
  · omega

/-- The kernel region is as full after the new region has been filled with zeros. -/
theorem kernelRoom_filled (hH : HeapReady s h H) (himage : HeapAt (memset m a 0 size) h H)
    (hlen : u32 (size : Int) = size) (hfull : kernelRoom s.mem h < 8) :
    i32 (kernelRoom (memset m a 0 (u32 (size : Int))) h) < (REGION_ARR : Int) := by
  rw [hlen, himage.room_iff hH.placed, himage.kernelRoom_eq, ← hH.image.kernelRoom_eq]
  exact hfull

/-- When the kernel region is full, the caller's heap record does not count the new region. -/
theorem createRegion_full (hH : HeapReady s h H) (hal : H.alignment = 4096)
    (hpages : H.size % 4096 = 0) (hlo : 128 ≤ size) (hsmall : size < 2147483648)
    (hcover : size ≤ 4096 * count (size / 4096)) (hfull : kernelRoom s.mem h < 8)
    (hrun : createRegion s h size = some s') : nRegions s'.mem h ≠ nRegions s.mem h + 1 := by
  have hroom := hH.placed.room
  have hHsmall := hH.placed.small
  rw [hH.image.nRegions]
  cases hres : reserve s (u32 ((size : Int).tdiv ALIGN)) MEM_U with
  | none =>
      rw [createRegion, hres] at hrun
      cases hrun
  | some q =>
      rcases q with ⟨a, s1⟩
      rcases hH.reserved hlo hsmall hcover hres with ⟨hhand, ha, hready, _⟩
      have hlen : u32 (size : Int) = size := u32_of_range rfl (by omega)
      have hbound := hhand.bound
      have hoff := hH.pages.offset
      have hapart := hH.handed_apart hhand hcover
      have hown := (hhand.owned.mono hcover).withMem (memset s1.mem a 0 size)
      have hgrow := kernelRoom_filled hH hready.image hlen hfull
      rw [createRegion_grows hres ha hgrow, hlen, Option.bind_eq_some_iff] at hrun
      generalize { s1 with mem := memset s1.mem a 0 size } = s2 at hready hown hrun
      rcases hrun with ⟨⟨h', s3⟩, hrun, hlast⟩
      rcases growKheap_spec hready hal hpages hrun with ⟨rfl, hold⟩ | ⟨k, ksize, hg⟩
      · -- No new kernel region: nothing is listed.
        simp only [if_true, Option.some.injEq] at hlast
        rw [← hlast, hold.nRegions]
        omega
      · have hne : h' ≠ 0 := by
          have hptr := hg.ptr
          omega
        rw [if_neg hne, Option.some.injEq] at hlast
        have hfilled : FILLED = 1448498774 := rfl
        rw [← hlast, hg.stale hready hown hlo hsmall (by omega) hapart]
        omega

/-- With pages for both regions `create_region` returns, and all that the caller's heap record counts
is the filling. -/
theorem createRegion_stale {k : Nat} {s2 : Machine} (hH : HeapReady s h H)
    (hal : H.alignment = 4096) (hpages : H.size % 4096 = 0) (hlarger : H.size + 4096 < 2147483648)
    (hlo : 128 ≤ size) (hsmall : size < 2147483648) (hcover : size ≤ 4096 * count (size / 4096))
    (hfull : kernelRoom s.mem h < 8)
    (hresU : reserve s (u32 ((size : Int).tdiv ALIGN)) MEM_U = some (a, s1))
    (hresK : reserve { s1 with mem := memset s1.mem a 0 size }
      (u32 (((H.size + 4096 : Nat) : Int).tdiv 4096)) MEM_K = some (k, s2)) (hk : k ≠ 0)
    (hrel : ∀ m, (relinquish { s2 with mem := m } H.base
      (u32 ((H.size : Int).tdiv ALIGN))).isSome = true) :
    ∃ s', createRegion s h size = some s' ∧ nRegions s'.mem h = FILLED := by
  rcases hH.reserved hlo hsmall hcover hresU with ⟨hhand, ha, hready, _⟩
  have hlen : u32 (size : Int) = size := u32_of_range rfl (by omega)
  have hbound := hhand.bound
  have hoff := hH.pages.offset
  have hapart := hH.handed_apart hhand hcover
  have hown := (hhand.owned.mono hcover).withMem (memset s1.mem a 0 size)
  have hgrow := kernelRoom_filled hH hready.image hlen hfull
  rw [createRegion_grows hresU ha hgrow, hlen]
  generalize { s1 with mem := memset s1.mem a 0 size } = u at hready hown hresK
  rcases growKheap_grown hready hal hpages rfl hlarger hresK hk hrel with ⟨h', s3, hgrown, hg⟩
  have hne : h' ≠ 0 := by
    have hptr := hg.ptr
    omega
  have hstale := hg.stale hready hown hlo hsmall (by omega) hapart
  rw [hgrown, Option.bind_some, if_neg hne]
  generalize appendRegion (initUserRegion s3.mem a size) h' a = m at hstale ⊢
  exact ⟨_, rfl, hstale⟩

/-! ## `alloc` -/

/-- The region that `alloc` creates, if `reserve` succeeds. -/
theorem newRegionSize_reserved (hP : PagesReady s) (hn : n + 32 < 2147483648)
    (hres : (reserve s (u32 ((newRegionSize 4096 n).tdiv ALIGN)) MEM_U).isSome = true) :
    ∃ v : Nat, newRegionSize 4096 n = v ∧ n + 128 < v ∧ v % 4096 = 0 ∧ v < 2147483648 := by
  have hal : WholePages 4096 := by decide
  rcases newRegionSize_eq hal (by decide) hn with ⟨v, hsize, hlo, hhi, hpages⟩
  have hsmall : v < 2147483648 := by
    by_contra hlarge
    rw [hsize, reserve_wrapped hP hpages (by omega) (by omega)] at hres
    cases hres
  exact ⟨v, hsize.trans (i32_of_range (by omega) (by omega)), hlo, hpages, hsmall⟩

/-- With a slot left, the heap is good after `create_region`, and the invariant holds. -/
theorem HeapInv.created (hinv : HeapInv h live s H) (hlo : 128 ≤ size)
    (hfits : RegionFits s h size)
    (hres : (reserve s (u32 ((size : Int).tdiv ALIGN)) MEM_U).isSome = true) :
    ∃ s1 a, createRegion s h size = some s1 ∧
      HeapInv h live s1 (H.withUsers (H.users ++ [Region.fresh a size])) ∧
      ∀ x, a ≤ x → x < a + size → ¬ OnUsedPage s x := by
  have hsmall := hfits.small
  have hcover := hfits.pages
  rw [Int.toNat_natCast] at hcover
  rcases Option.isSome_iff_exists.1 hres with ⟨⟨a, s1⟩, hres⟩
  rcases createRegion_reserved hinv.ready hlo hfits hres with ⟨m', hcreate, hready, _⟩
  rcases hinv.ready.reserved hlo (by omega) (by omega) hres with ⟨hhand, _⟩
  rcases hinv.grown hlo hfits hcreate with ⟨a', hinv', _⟩
  refine ⟨_, a, hcreate, (hinv'.both hready hready).1, fun x hlo hhi hused => ?_⟩
  have hown : Owned s x 1 := by
    intro y hy hy'
    obtain rfl : y = x := by omega
    exact hused
  have hbeside := hhand.apart x 1 hown (by omega)
  unfold NoOverlap at hbeside
  simp only at hbeside
  omega

/-- **Growth of the kernel region.** In every run whose calls are safe, the heap is good after an
`alloc` that has to create a region exactly if the kernel region has a slot left. -/
theorem alloc_survives_iff (hfits : CreateFits 4096 size) (hwhole : size % 4096 = 0)
    (hcreated : Created 4096 size h s0) (hrun : Run (SafeStep h) ⟨s0, []⟩ as ⟨s, live⟩)
    (hn : n + 32 < 2147483648) (hfind : roomFor s h n = none)
    (hres : (reserve s (u32 ((newRegionSize 4096 n).tdiv ALIGN)) MEM_U).isSome = true) :
    AllocSurvives s h n live ↔ 8 ≤ kernelRoom s.mem h := by
  rcases hcreated.ready hfits with ⟨k, b, hready0⟩
  rcases hready0.inv_fresh.safeRun hrun with ⟨us, hinv⟩
  have hH := hinv.ready
  have hal : alignment s.mem h = 4096 := hH.image.alignment
  rcases newRegionSize_reserved hH.pages hn hres with ⟨v, hsize, hlo, hpages, hsmall⟩
  rw [hsize] at hres
  unfold AllocSurvives
  rw [hal, hsize]
  constructor
  · rintro ⟨s1, hcreate, hsurvives, _⟩
    have hcover : v ≤ 4096 * count (v / 4096) := by
      have hcount : count (v / 4096) = v / 4096 := if_neg (by omega)
      omega
    by_contra hfull
    exact createRegion_full hH rfl hwhole (by omega) hsmall hcover (Int.not_le.1 hfull) hcreate
      hsurvives.lists.count
  · intro hroom
    have hregion : RegionFits s h v := regionFits_of_small (by omega) hpages hsmall hroom
    rcases hinv.created (by omega) hregion hres with ⟨s1, a, hcreate, hinv1, hfresh⟩
    refine ⟨s1, hcreate, hinv1.survives hH (extents_append _ _) hfresh, ?_⟩
    intro p t halloc
    rw [alloc_without_room hfind hal (by decide), hsize, hcreate, Option.bind_some] at halloc
    have hfind1 := hH.findRoom_created hinv1.ready hn hfind
    by_cases hfree : n + 160 < v
    · rw [if_pos hfree] at hfind1
      have hclear := hinv1.ready.tailClear_fresh (by omega) hn hfind1
      rcases hinv1.carved hn hfind1 hclear with ⟨H', hinv', _, hcarved⟩
      rw [alloc_of_room hfind1, Option.some.injEq, Prod.mk.injEq] at halloc
      rcases halloc with ⟨rfl, rfl⟩
      exact hinv'.survives hH ((hcarved.same nofun).trans (extents_append _ _)) hfresh
    · rw [if_neg hfree] at hfind1
      have hal1 : alignment s1.mem h = 4096 := hinv1.ready.image.alignment
      rw [alloc_last_without_room hfind1 hal1 (by decide)] at halloc
      cases halloc

/-- 4000 bytes from a new heap: there is a slot for the region. -/
theorem alloc_survives_new_heap : ∃ s, Created 4096 4096 4176 s ∧ roomFor s 4176 4000 = none ∧
    AllocSurvives s 4176 4000 [] := by
  rcases exists_created with ⟨s, hcreated, hready, _, hleft⟩
  have hno : Heap.NoRoom ⟨4096, 4096, 4096, [Region.fresh 16777216 4096]⟩ 4000 := by
    intro R hR pre t hb
    have hfresh : [] ++ [Chunk.mk 16777272 3968 .unallocated] = pre ++ [t] := by
      rw [← hb, List.mem_singleton.1 hR]
      rfl
    rcases List.append_inj' hfresh rfl with ⟨_, hlast⟩
    obtain rfl : Chunk.mk 16777272 3968 .unallocated = t := by simpa using hlast
    decide
  have hfind := hready.roomFor_none hno (by decide)
  have hsize : newRegionSize 4096 4000 = (8192 : Nat) := newRegionSize_small (n := 4000) (by decide)
  have hzone : (zone s MEM_U).1 = 4096 ∧ (zone s MEM_U).2 = 262144 :=
    ⟨zone_user s, hready.pages.maxChunk⟩
  have hres : (reserve s (u32 ((newRegionSize 4096 4000).tdiv ALIGN)) MEM_U).isSome = true := by
    rcases reserve_of_free hready.pages (.inr rfl) (n := 2) (p := 4097) (by decide) (by omega)
      (by omega) (hleft.user.mono (Nat.le_refl _) (by decide)) with ⟨a, s1, hres, _⟩
    rw [hsize, show u32 (((8192 : Nat) : Int).tdiv ALIGN) = 2 from rfl, hres]
    rfl
  have hroom : 8 ≤ kernelRoom s.mem 4176 := by
    rw [kernelRoom_new_heap hready]
    decide
  exact ⟨s, hcreated, hfind, (alloc_survives_iff ⟨by decide, by decide, by decide⟩ (by decide)
    hcreated (.nil _) (by decide) hfind hres).2 hroom⟩

/-- 486 times 2000 bytes from a new heap: the last request finds the kernel region full, all pages
are there, and then the heap record of the caller counts 1448498774 regions. -/
theorem alloc_loses_full_heap : ∃ s t t' live, Created 4096 4096 4176 s ∧
    Run (SafeStep 4176) ⟨s, []⟩ (List.replicate 485 (.alloc 2000)) ⟨t, live⟩ ∧
    roomFor t 4176 2000 = none ∧ createRegion t 4176 (newRegionSize 4096 2000) = some t' ∧
    nRegions t'.mem 4176 = FILLED ∧ ¬ AllocSurvives t 4176 2000 live := by
  rcases exists_full_kernel with ⟨s, t, live, us, hcreated, hrun, hready, hlen, hno, hleft⟩
  have hcnt : nRegions t.mem 4176 = 486 := by
    rw [hready.image.nRegions, Heap.count, hlen]
    rfl
  have hfull : kernelRoom t.mem 4176 < 8 := by
    rw [hready.image.kernelRoom_eq, Heap.count, hlen]
    exact show (4096 : Int) - 4096 < 8 by decide
  have hal : alignment t.mem 4176 = 4096 := hready.image.alignment
  have hsize : newRegionSize 4096 2000 = (4096 : Nat) := newRegionSize_small (n := 2000) (by decide)
  have hzone : (zone t MEM_U).1 = 4096 ∧ (zone t MEM_U).2 = 262144 :=
    ⟨zone_user t, hready.pages.maxChunk⟩
  rcases reserve_of_free hready.pages (.inr rfl) (n := 1) (p := 4581) (by decide) (by omega)
    (by omega) (hleft.user.mono (Nat.le_refl _) (by decide)) with ⟨a, s1, hresU, hlo, _⟩
  rcases hready.reserved (show 128 ≤ 4096 by decide) (by decide) (by decide) hresU with
    ⟨hhand, _, hready1, _⟩
  have hkernel : FreePages s1 2 4096 :=
    hleft.kernel.reserve (n := 1) hready.pages (by decide) (.inr rfl) hresU (.inl (by omega))
  rcases reserve_of_free hready1.pages (.inl rfl) (n := 2) (p := 2) (by decide) (Nat.zero_le _)
    (show 2 + 2 < 4096 by decide) (hkernel.mono (Nat.le_refl _) (by decide)) with
    ⟨k, s2, hresK, _, _⟩
  have hhandK := reserve_handed (n := 2) hready1.pages (by decide) (.inl rfl) hresK
  have hk : k ≠ 0 := by
    have hfirst := (hhand.keeps _ _ hleft.first).withMem (memset s1.mem a 0 4096)
    have hbeside := hhandK.apart 0 1 hfirst (by decide)
    have hlen : 4096 * count 2 = 8192 := rfl
    unfold NoOverlap at hbeside
    omega
  have hoff : s2.memOffset = 0 := (hhandK.offset.trans hhand.offset).trans hleft.offset
  have hrel : ∀ m, (relinquish { s2 with mem := m } 4096
      (u32 (((4096 : Nat) : Int).tdiv ALIGN))).isSome = true := by
    intro m
    rcases markFreeUpTo_spec hhandK.ready.mirrored 1 (show 1 + 1 ≤ MAP_CHUNKS by decide) with
      ⟨map, hmark, _⟩
    have hfirst : (i32 (((4096 : Nat) : Int) - (s2.memOffset : Nat))).tdiv CHUNK_SIZE = (1 : Nat) := by
      rw [hoff]
      decide
    have hone : u32 (((4096 : Nat) : Int).tdiv ALIGN) = 1 := by decide
    simp only [relinquish, hfirst, hone, hmark, Option.bind_eq_bind, Option.bind_some,
      Option.isSome_some]
  have htwo : u32 (((4096 + 4096 : Nat) : Int).tdiv 4096) = 2 := by decide
  rw [← htwo] at hresK
  rcases createRegion_stale hready rfl (show 4096 % 4096 = 0 from rfl) (show 4096 + 4096 < 2147483648 by decide)
    (show 128 ≤ 4096 by decide) (by decide) (by decide) hfull hresU hresK hk hrel with
    ⟨t', hcreate, hstale⟩
  refine ⟨s, t, t', live, hcreated, hrun, hready.roomFor_none hno (by decide), hsize ▸ hcreate,
    hstale, ?_⟩
  rintro ⟨s3, hcreate3, hsurvives, _⟩
  rw [hal, hsize, hcreate, Option.some.injEq] at hcreate3
  subst hcreate3
  have hcount := hsurvives.lists.count
  rw [hstale, hcnt] at hcount
  cases hcount

end Memory
end EmbeddedOS
