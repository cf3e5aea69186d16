import EmbeddedOS.Memory.Reallocation

/-!
# Sizes that are `int`s

Requests are unsigned, the sizes of chunks and regions are signed. While a request and its headers
stay below `2^31`, the sizes of a region add up before and after every call, and a request is
served from a larger tail. Beyond, the test of `alloc` compares with a negative number.
-/

namespace EmbeddedOS
namespace Memory

open Base Base.ByteMem Stdlib

variable {m m' : ByteMem} {h i n p fuel : Nat} {H : Heap} {R : Region} {s s' : Machine}
  {b : Nat × Nat}

/-! ## Oversized requests -/

/-- The tail of region `i` serves `n` bytes at `p`: it is larger than the block with its headers,
the block lies inside the region, and something is left of the tail. -/
structure Serves (m m' : ByteMem) (h i n p : Nat) : Prop where
  size : (n : Int) + 32 < chunkSize m (tailPtr m h i)
  inside : baseAddr m (regionPtr m h i) ≤ p ∧
    p + n ≤ baseAddr m (regionPtr m h i) + (allocSize m (regionPtr m h i)).toNat
  left : 0 < chunkSize m' (tailPtr m' h i)

/-- No region passes the test of `alloc`. -/
theorem roomFor_none_iff (hH : HeapAt s.mem h H) (hP : HeapPlaced H) :
    roomFor s h n = none ↔
      ∀ i : Nat, 1 ≤ i → i < nRegions s.mem h →
        chunkSize s.mem (tailPtr s.mem h i) ≤ i32 ((n : Int) + 32) := by
  constructor
  · intro hfind i hlo hhi
    have hmiss : ¬ fits s.mem h i n = true := by
      rw [findRoom_complete hfind i hlo (by omega)]
      exact Bool.false_ne_true
    rw [hH.fits_iff_i32 hP hlo hhi] at hmiss
    exact Int.not_lt.1 hmiss
  · intro hsmall
    cases hfind : roomFor s h n with
    | none => rfl
    | some i =>
        rcases findRoom_sound hfind with ⟨hlo, hhi, hfit⟩
        have hi : (i : Int) < nRegions s.mem h := by omega
        have hlarge := (hH.fits_iff_i32 hP hlo hi).1 hfit
        exact absurd (hsmall i hlo hi) (Int.not_le.2 hlarge)

theorem chunkSize_lt (m : ByteMem) (c : Nat) : chunkSize m c < 2147483648 :=
  (i32_bounds _).2

/-- A request that stays in range is served from a larger tail. -/
theorem serves_of_room (hH : HeapAt s.mem h H) (hP : HeapPlaced H) (ht : H.Tiled)
    (hn : n + 32 < 2147483648) (hfind : roomFor s h n = some i) :
    Serves s.mem (carve s.mem h i n).2 h i n (carve s.mem h i n).1 := by
  rcases findRoom_sound hfind with ⟨hlo, hhi, hfit⟩
  have hi : (i : Int) < nRegions s.mem h := by omega
  have hsize := (hH.fits_iff_size hP hlo hi hn).1 hfit
  rcases hH.user_index hlo hi with ⟨us, R, vs, husers, rfl, hptr⟩
  have hp : Picked H us R vs := ⟨husers, hP⟩
  have hR := hH.users R hp.mem
  have ho := hH.outside hp
  rcases hasRoom_of_fits hR hp.sound hptr hn hfit
    (tailClear_of_tiled hR hp.sound (ht R hp.mem) hptr hn hfit) with ⟨pre, t, hr⟩
  rcases carve_spec hR hr ho with ⟨haddr, hR', hw⟩
  have ho' : Outside _ h (us.length + 1) (R.withBlocks (carved pre t n)) :=
    ho.write (hr.writesOnly hw) rfl rfl
  have hb := hr.bounds
  have hroom := hr.room
  refine ⟨hsize, ?_, ?_⟩
  · rw [hptr, haddr, hR.baseAddr, hR.allocSize, Int.toNat_natCast]
    simp only [Chunk.addr]
    omega
  · have hblocks : (R.withBlocks (carved pre t n)).blocks = (pre ++ [t.block n]) ++ [t.remainder n] := by
      simp [carved]
    rcases tailPtr_eq hR' hblocks ho'.ptr with ⟨htail, hhead⟩
    rw [htail, hhead.size]
    simp only [Chunk.remainder]
    omega

/-- The tail of a new heap of one page. -/
theorem tail_new_heap (hH : HeapReady s 4176 ⟨4096, 4096, 4096, [Region.fresh 16777216 4096]⟩) :
    nRegions s.mem 4176 = 2 ∧ chunkSize s.mem (tailPtr s.mem 4176 1) = 3968 := by
  have hptr : regionPtr s.mem 4176 1 = (Region.fresh 16777216 4096).record :=
    hH.image.regionPtr_eq (k := 0) rfl
  rcases tailPtr_eq (hH.image.users _ List.mem_cons_self) (show _ = [] ++ [_] from rfl) hptr with
    ⟨htail, hhead⟩
  refine ⟨hH.image.nRegions, ?_⟩
  rw [htail]
  exact hhead.size

theorem roomFor_new_heap (hH : HeapReady s 4176 ⟨4096, 4096, 4096, [Region.fresh 16777216 4096]⟩)
    (hfit : i32 ((n : Int) + 32) < 3968) : roomFor s 4176 n = some 1 := by
  rcases tail_new_heap hH with ⟨hcnt, hsize⟩
  refine findRoom_first (Nat.le_refl 1) (by omega) ?_ (by omega)
  rw [hH.image.fits_iff_i32 hH.placed (Nat.le_refl 1) (by omega), hsize]
  exact hfit

theorem tiled_new_heap : Heap.Tiled ⟨4096, 4096, 4096, [Region.fresh 16777216 4096]⟩ := by
  intro R hR
  rw [List.mem_singleton.1 hR]
  exact Region.tiled_fresh (by decide)

/-- The chunks of the region with the record at `r`. -/
def chunksAt (m : ByteMem) (r : Nat) : List Nat :=
  (List.range (nChunks m r).toNat).map fun j : Nat => chunkPtr m r j

/-- The chunks of the region that are not in use. -/
def freeAt (m : ByteMem) (r : Nat) : List Nat :=
  (chunksAt m r).filter fun c => chunkFlag m c ≠ RESERVED

/-- The sizes in the region with the record at `r` add up. -/
structure Accounts (m : ByteMem) (r : Nat) : Prop where
  sizes : ((chunksAt m r).map fun c => chunkSize m c + 24).sum = allocSize m r
  array : chunkSize m (chunkPtr m r 0) = 8 * nChunks m r
  free : allocSize m r - usedSize m r =
    ((freeAt m r).map (chunkSize m)).sum + 32 * ((freeAt m r).length - 1 : Int)

/-- The sizes in every user region add up. -/
def AllAccount (m : ByteMem) (h : Nat) : Prop :=
  ∀ i : Nat, 1 ≤ i → i < nRegions m h → Accounts m (regionPtr m h i)

theorem chunksAt_eq {r a : Nat} {l : List Nat} (hn : nChunks m r = l.length) (hc : chunks m r = a)
    (hl : PointersAt m a l) : chunksAt m r = l := by
  rw [chunksAt, hn, Int.toNat_natCast]
  refine List.ext_getElem (by simp) ?_
  intro j h1 h2
  have hcell : ((a : Int) + 8 * (j : Nat)).toNat = a + 8 * j := by omega
  rw [List.getElem_map, List.getElem_range, chunkPtr, entryAddr, hc, hcell]
  exact hl j _ (List.getElem?_eq_getElem h2)

theorem RegionAt.chunksAt_eq (hR : RegionAt m R) : chunksAt m R.record = R.entries.map Chunk.hdr :=
  Memory.chunksAt_eq (hR.nChunks.trans (by rw [List.length_map, entries_length])) hR.chunks hR.array

/-- The chunks of `l` that are not in use. -/
def freeOf (l : List Chunk) : List Chunk := l.filter fun c => c.flag ≠ .reserved

theorem RegionAt.freeAt_eq (hR : RegionAt m R) : freeAt m R.record = (freeOf R.blocks).map Chunk.hdr := by
  have hflag : ∀ c ∈ R.entries, (chunkFlag m c.hdr ≠ RESERVED) = (c.flag ≠ .reserved) := by
    intro c hc
    rw [(hR.headers c hc).flag]
    cases c.flag <;> simp [Flag.code]
  rw [freeAt, hR.chunksAt_eq, List.filter_map]
  have hsame : R.entries.filter ((fun c => decide (chunkFlag m c ≠ RESERVED)) ∘ Chunk.hdr)
      = R.entries.filter fun c => c.flag ≠ .reserved := by
    refine List.filter_congr fun c hc => ?_
    simp only [Function.comp_apply, hflag c hc]
  rw [hsame]
  rfl

theorem sum_sizes (l : List Chunk) : (l.map fun c => (c.size : Int) + 24).sum = total l := by
  induction l with
  | nil => rfl
  | cons c l ih =>
      rw [List.map_cons, List.sum_cons, ih, total_cons]
      push_cast
      rfl

/-- Each chunk in use takes 32 bytes more than its size, and each other chunk gives them back. -/
theorem total_eq_used_free (l : List Chunk) :
    (total l : Int) + 8 * l.length =
      usedBy l + ((freeOf l).map fun c => (c.size : Int)).sum + 32 * (freeOf l).length := by
  induction l with
  | nil => rfl
  | cons c l ih =>
      by_cases hc : c.flag = .reserved
      · simp only [total_cons, List.length_cons, usedBy_cons, freeOf, hc, List.filter_cons] at ih ⊢
        simp at ih ⊢
        omega
      · simp [total_cons, usedBy_cons, freeOf, hc] at ih ⊢
        omega

/-- In a sound region the sizes add up. -/
theorem RegionAt.accounts (hR : RegionAt m R) (hs : R.Sound) : Accounts m R.record := by
  have hacc := hs.account
  have hcount : R.count = R.blocks.length + 2 := rfl
  have hfirst : Memory.chunkPtr m R.record 0 = R.arrayChunk.hdr := hR.chunkPtr (j := 0) rfl
  have hheads := hR.headers
  refine ⟨?_, ?_, ?_⟩
  · have hmap : (R.entries.map fun c => chunkSize m c.hdr + 24)
        = R.entries.map fun c => (c.size : Int) + 24 :=
      List.map_congr_left fun c hc => by rw [(hheads c hc).size]
    have hentries : total R.entries = R.size := by
      simp only [Region.entries, total_cons, Region.arrayChunk, Region.infoChunk]
      omega
    calc ((chunksAt m R.record).map fun c => chunkSize m c + 24).sum
        = (R.entries.map fun c => chunkSize m c.hdr + 24).sum := by
          rw [hR.chunksAt_eq, List.map_map]
          rfl
      _ = total R.entries := by rw [hmap, sum_sizes]
      _ = Memory.allocSize m R.record := by rw [hentries, hR.allocSize]
  · rw [hfirst, (hheads _ List.mem_cons_self).size, hR.nChunks]
    simp [Region.arrayChunk]
  · have hmap : ((freeOf R.blocks).map fun c => chunkSize m c.hdr)
        = (freeOf R.blocks).map fun c => (c.size : Int) := by
      refine List.map_congr_left fun c hc => ?_
      exact (hheads c (List.mem_cons_of_mem _ (List.mem_cons_of_mem _ (List.mem_filter.1 hc).1))).size
    have hsum : ((freeAt m R.record).map (chunkSize m)).sum
        = ((freeOf R.blocks).map fun c => (c.size : Int)).sum := by
      rw [hR.freeAt_eq, List.map_map, ← hmap]
      rfl
    have hlen : (freeAt m R.record).length = (freeOf R.blocks).length := by
      rw [hR.freeAt_eq, List.length_map]
    have hblocks := total_eq_used_free R.blocks
    have hused : R.used = 128 + usedBy R.blocks := rfl
    rw [hsum, hlen, hR.allocSize, hR.usedSize]
    omega

theorem HeapReady.allAccount (hH : HeapReady s h H) : AllAccount s.mem h := by
  intro i hlo hhi
  rcases hH.image.user_index hlo hhi with ⟨us, R, vs, husers, rfl, hptr⟩
  have hp : Picked H us R vs := ⟨husers, hH.placed⟩
  rw [hptr]
  exact (hH.image.users R hp.mem).accounts hp.sound

/-- **Size accounting.** In a heap that is laid out as promised the sizes add up, and an `alloc`
whose request stays in range and every `cull` of a live block keep it so. -/
theorem accounts_kept (hH : HeapReady s h H) (ht : H.Tiled) (hal : WholePages H.alignment) :
    AllAccount s.mem h ∧
      (∀ fuel n p s', n + 32 < 2147483648 → KernelHasRoom fuel s h n →
        alloc fuel s h n = some (p, s') → AllAccount s'.mem h) ∧
      ∀ b, Live s.mem h b → AllAccount (cull s.mem h b.1) h := by
  have hinv := hH.inv ht
  refine ⟨hH.allAccount, ?_, ?_⟩
  · intro fuel n p s' hn hkernel hrun
    rcases hinv.alloc hn (allocFits_of_returns hH hal hn hkernel hrun)
      (fun i => hH.tailClear ht hn) hrun with ⟨H', hinv', _⟩
    exact hinv'.ready.allAccount
  · intro b hb
    rcases (hinv.cons hb List.not_mem_nil).culled List.mem_cons_self with ⟨H', hinv', _⟩
    generalize cull s.mem h b.1 = m' at hinv' ⊢
    exact hinv'.ready.allAccount

/-- Eight bytes from a new heap. -/
theorem accounts_kept_new_heap : ∃ s s' : Machine, Created 4096 4096 4176 s ∧
    alloc 1 s 4176 8 = some (16777296, s') ∧ AllAccount s'.mem 4176 := by
  rcases exists_created with ⟨s, hcreated, hready, _⟩
  have hblocks : (Region.fresh 16777216 4096).blocks = [] ++ [⟨16777272, 3968, .unallocated⟩] := rfl
  rcases hready.alloc_first (n := 8) rfl tiled_new_heap hblocks rfl (by decide) (by decide) with
    ⟨s', _, halloc, _⟩
  have hkernel : KernelHasRoom 1 s 4176 8 := by
    intro hnone
    rw [roomFor_new_heap hready (n := 8) (by decide)] at hnone
    cases hnone
  rcases accounts_kept hready tiled_new_heap (by decide) with ⟨_, hkept, _⟩
  exact ⟨s, s', hcreated, halloc, hkept 1 8 _ s' (by decide) hkernel halloc⟩

/-- Half of the address space from a region of one page: the sizes wrap around. -/
theorem accounts_lost_new_heap : ∃ s s' : Machine, Created 4096 4096 4176 s ∧
    alloc 1 s 4176 2147483648 = some (16777296, s') ∧ AllAccount s.mem 4176 ∧
      ¬ AllAccount s'.mem 4176 := by
  rcases exists_created with ⟨s, hcreated, hready, _⟩
  let R := Region.fresh 16777216 4096
  let t : Chunk := ⟨16777272, 3968, .unallocated⟩
  have hp : Picked ⟨4096, 4096, 4096, [R]⟩ [] R [] := ⟨rfl, hready.placed⟩
  have hR : RegionAt s.mem R := hready.image.users R hp.mem
  have ho : Outside s.mem 4176 1 R := hready.image.outside hp
  have hregs : regions s.mem 4176 = 4216 := hready.image.regions
  have hb : R.blocks = [] ++ [t] := rfl
  have hcarve : carve s.mem 4176 1 2147483648 = (16777296, cutStores s.mem R [] t 2147483648) :=
    carve_eq hR hp.sound ho hb (by decide) (by decide) (.inr ⟨by decide, by decide, by
      rw [hregs]
      decide⟩)
  have hcut := cutStores_spec (n := 2147483648) hR hp.sound hb (by decide) (by decide) (.inr (by decide))
  have hrun : alloc 1 s 4176 2147483648 =
      some (16777296, { s with mem := cutStores s.mem R [] t 2147483648 }) := by
    rw [alloc_of_room (roomFor_new_heap hready (n := 2147483648) (by decide)), hcarve]
  generalize cutStores s.mem R [] t 2147483648 = m' at hcut hrun
  refine ⟨s, _, hcreated, hrun, hready.allAccount, fun hall => ?_⟩
  -- The heap record and the region array keep their bytes.
  have hw : WritesOnly s.mem m' 16777216 18446744073709551616 := by
    refine hcut.writes.writesOnly fun x hx => ?_
    simp only [CarveCell, Region.record, Region.arr, Region.count, Chunk.addr, R, t, Region.fresh,
      List.length_singleton] at hx
    omega
  have hcnt : nRegions m' 4176 = 2 :=
    (loadInt_congr (hw.agreeOn (.inl (by decide)))).trans hready.image.nRegions
  have hregs' : regions m' 4176 = 4216 :=
    (loadPtr_congr (hw.agreeOn (.inl (by decide)))).trans hregs
  have hptr : regionPtr m' 4176 1 = R.record := by
    have hslot := ho.ptr
    rw [regionPtr, hregs] at hslot
    rw [regionPtr, hregs']
    exact (loadPtr_congr (hw.agreeOn (.inl (by decide)))).trans hslot
  have hsizes := (hall 1 (Nat.le_refl 1) (by rw [hcnt]; decide)).sizes
  have hchunks : chunksAt m' R.record = [16781256, 16777216, 16777272, 16777296 + 2147483648] :=
    chunksAt_eq hcut.nChunks hcut.chunks hcut.array
  have harray : chunkSize m' 16781256 = 32 := hcut.arrayHead.size
  have hinfo : chunkSize m' 16777216 = 32 := hcut.infoHead.size
  have hblock : chunkSize m' 16777272 = -2147483648 := hcut.block.size
  have htail : chunkSize m' (16777296 + 2147483648) = -2147479712 := hcut.tail.size
  rw [hptr, hchunks, hcut.allocSize] at hsizes
  simp only [List.map_cons, List.map_nil, List.sum_cons, List.sum_nil, harray, hinfo, hblock,
    htail] at hsizes
  exact absurd hsizes (by decide)

end Memory
end EmbeddedOS
