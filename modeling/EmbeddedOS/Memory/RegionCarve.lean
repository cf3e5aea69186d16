import EmbeddedOS.Memory.RegionCull

/-!
# Carving a block off the tail

`alloc` turns the header of the tail into the header of the new block, writes a new tail behind
the block, and moves the whole chunk array down by one slot.
-/

namespace EmbeddedOS
namespace Memory

open Base Base.ByteMem Stdlib

variable {m m' : ByteMem} {h i n : Nat} {R : Region} {pre : List Chunk} {t : Chunk}

/-- The block that is carved off the tail `t`. -/
def Chunk.block (t : Chunk) (n : Nat) : Chunk := { hdr := t.hdr, size := n, flag := .reserved }

/-- What is left of the tail `t`. -/
def Chunk.remainder (t : Chunk) (n : Nat) : Chunk :=
  { hdr := t.hdr + 24 + n, size := t.size - (n + 32), flag := .unallocated }

/-- The blocks after `n` bytes were carved off the tail. -/
def carved (pre : List Chunk) (t : Chunk) (n : Nat) : List Chunk :=
  pre ++ [t.block n, t.remainder n]

/-- A region with a tail `t` that has room for `n` bytes, and for the headers of the new tail and
of the chunk array that comes a slot closer. -/
structure HasRoom (R : Region) (pre : List Chunk) (t : Chunk) (n : Nat) : Prop where
  blocks : R.blocks = pre ++ [t]
  sound : R.Sound
  free : t.flag = .unallocated
  inside : t.addr + n + 56 ≤ R.arr
  room : n + 32 < t.size

/-- Address `x` belongs to a field of the region record that changes, to one of the two headers at
the tail or to the new place of the chunk array. -/
def CarveCell (R : Region) (t : Chunk) (n x : Nat) : Prop :=
  (R.record + 4 ≤ x ∧ x < R.record + 12) ∨ (R.record + 24 ≤ x ∧ x < R.record + 32) ∨
    (t.hdr ≤ x ∧ x < t.addr) ∨ (t.addr + n ≤ x ∧ x < t.addr + n + 24) ∨
    (R.arr - 32 ≤ x ∧ x < R.base + R.size)

namespace HasRoom

theorem count (hr : HasRoom R pre t n) : R.count = pre.length + 3 := by
  simp [Region.count, hr.blocks]

theorem count_carved (hr : HasRoom R pre t n) :
    (R.withBlocks (carved pre t n)).count = R.count + 1 := by
  simp [Region.count, hr.blocks, carved]

theorem arr_carved (hr : HasRoom R pre t n) :
    (R.withBlocks (carved pre t n)).arr = R.arr - 8 := by
  have hcnt := hr.count_carved
  simp only [Region.arr, hcnt, Region.withBlocks_base, Region.withBlocks_size]
  omega

theorem used_carved (hr : HasRoom R pre t n) :
    (R.withBlocks (carved pre t n)).used = R.used + (n + 32) := by
  simp [Region.used, hr.blocks, carved, usedBy_cons, Chunk.block, Chunk.remainder, hr.free]
  omega

theorem ordered (hr : HasRoom R pre t n) :
    Ascends Chunk.hdr Chunk.addr (R.base + 56) pre t.hdr := by
  have hord := hr.sound.ordered
  rw [hr.blocks] at hord
  exact hord.split.1

/-- The order of the cells that `carve` touches. -/
theorem bounds (hr : HasRoom R pre t n) :
    R.base + 56 ≤ t.hdr ∧ t.hdr + n + 80 ≤ R.arr ∧
      R.arr + 8 * (pre.length + 3) = R.base + R.size ∧ t.size < 2147483648 := by
  have h1 := hr.ordered.le
  have h2 := hr.inside
  have h3 := hr.sound.arr_eq
  have h4 := hr.sound.account
  have h5 := hr.sound.small
  have h6 : t.size + 24 ≤ total R.blocks := size_le_total (by simp [hr.blocks])
  rw [hr.count] at h3
  simp only [Chunk.addr] at h2
  generalize total R.blocks = v at h4 h6
  omega

theorem sound_carved (hr : HasRoom R pre t n) : (R.withBlocks (carved pre t n)).Sound := by
  have hb := hr.bounds
  have hroom := hr.room
  have hs := hr.sound
  have hacc := hs.account
  have hcnt := hr.count_carved
  have hcnt0 := hr.count
  rw [hr.blocks] at hacc
  simp only [total_append, total_cons, total_nil] at hacc
  refine ⟨⟨hs.small, hs.addressable, ?_, ?_⟩, ?_, ?_⟩
  · rw [hcnt, Region.withBlocks_size]
    generalize total pre = v at hacc
    omega
  · rw [hr.arr_carved]
    refine Ascends.append_iff.2 ⟨t.hdr, hr.ordered, ?_⟩
    simp only [Ascends, Chunk.block, Chunk.remainder, Chunk.addr]
    omega
  · rw [hcnt, Region.withBlocks_blocks, Region.withBlocks_size]
    simp only [carved, total_append, total_cons, total_nil, Chunk.block, Chunk.remainder]
    generalize total pre = v at hacc ⊢
    omega
  · exact ⟨pre ++ [t.block n], t.remainder n, by simp [carved], rfl⟩

/-- The cells that `carve` writes lie inside the region. -/
theorem writesOnly (hr : HasRoom R pre t n) (hw : WritesWithin m m' (CarveCell R t n)) :
    WritesOnly m m' R.base (R.base + R.size) := by
  have hb := hr.bounds
  have hrec : R.record = R.base + 24 := rfl
  have haddr : t.addr = t.hdr + 24 := rfl
  refine hw.writesOnly fun x hx => ?_
  unfold CarveCell at hx
  omega

theorem tail_entry (hr : HasRoom R pre t n) : R.entries[pre.length + 2]? = some t := by
  simp [Region.entries, hr.blocks]

end HasRoom

/-! ## The stores of `carve` -/

/-- The memory after `carve` cuts `n` bytes off the tail `t` that follows `pre`. -/
def cutStores (m : ByteMem) (R : Region) (pre : List Chunk) (t : Chunk) (n : Nat) : ByteMem :=
  let m := copy m (R.arr - 8) R.arr (8 * R.count)
  let m := storeInt m (R.record + 8) (R.count + 1 : Nat)
  let m := storePtr m (R.record + 24) (R.arr - 8)
  let m := storePtr m (R.arr - 8) (R.arr - 32)
  let m := storePtr m (R.arr + 8 * (pre.length + 1)) t.hdr
  let m := storePtr m (R.arr + 8 * (pre.length + 2)) (t.addr + n)
  let m := storeSmartPtr m (R.arr - 32)
    { addr := R.arr - 8, base := R.base, flag := RESERVED, size := (8 * (R.count + 1) : Nat) }
  let m := storeSmartPtr m t.hdr
    { addr := t.addr, base := R.base, flag := RESERVED, size := i32 n }
  let m := storeSmartPtr m (t.addr + n)
    { addr := t.addr + n + 24, base := R.base, flag := UNALLOCATED
      size := i32 ((t.size : Int) - (n + 32 : Nat)) }
  storeInt m (R.record + 4) (i32 ((R.used : Int) + (n + 32 : Nat)))

/-- The header of the new tail ends before that of the chunk array, or lies outside of the region
and of the pointers that lead there. -/
def HeaderClear (m : ByteMem) (h i : Nat) (R : Region) (x : Nat) : Prop :=
  x + 56 ≤ R.arr ∨ R.base + R.size ≤ x ∧ (x + 24 ≤ h ∨ h + 16 ≤ x) ∧
    (x + 24 ≤ regions m h + 8 * i ∨ regions m h + 8 * i + 8 ≤ x)

/-- Three pointers that are stored one behind the other are all there. -/
theorem loadPtr_threeStores (m : ByteMem) {a b c u v w : Nat} (hab : a + 8 ≤ b) (hbc : b + 8 ≤ c)
    (hu : u < 18446744073709551616) (hv : v < 18446744073709551616)
    (hw : w < 18446744073709551616) :
    loadPtr (storePtr (storePtr (storePtr m a u) b v) c w) a = u ∧
      loadPtr (storePtr (storePtr (storePtr m a u) b v) c w) b = v ∧
      loadPtr (storePtr (storePtr (storePtr m a u) b v) c w) c = w := by
  refine ⟨?_, ?_, loadPtr_storePtr_same _ _ hw⟩
  · rw [loadPtr_storePtr (by omega), loadPtr_storePtr (by omega), loadPtr_storePtr_same _ _ hu]
  · rw [loadPtr_storePtr (by omega), loadPtr_storePtr_same _ _ hv]

/-- Each assignment of `carve` is one store. -/
theorem carve_eq (hR : RegionAt m R) (hs : R.Sound) (ho : Outside m h i R)
    (hb : R.blocks = pre ++ [t]) (hgap : t.addr + 32 ≤ R.arr)
    (hfit : t.addr + n < 18446744073709551616) (hx : HeaderClear m h i R (t.addr + n)) :
    carve m h i n = (t.addr, cutStores m R pre t n) := by
  have hv := ho.reached hR
  have hcnt : R.count = pre.length + 3 := by simp [Region.count, hb]
  have harr := hs.arr_eq
  have haddr : t.addr = t.hdr + 24 := rfl
  have htlo := (hs.header_bounds (show t ∈ R.blocks by simp [hb])).1
  have hsmall := hs.small
  have haddrable := hs.addressable
  have hrec : R.record = R.base + 24 := rfl
  have htail : R.entries[pre.length + 2]? = some t := by simp [Region.entries, hb]
  have pt := hR.entry htail
  have p0 : loadPtr m (R.arr + 8 * 0) = R.arr - 24 := hR.entry (j := 0) (c := R.arrayChunk) rfl
  have st := hR.header htail
  have s0 : chunkAddr m (R.arr - 24) = R.arr - 24 + 24 :=
    (hR.header (j := 0) (c := R.arrayChunk) rfl).addr
  -- The values read before the first store.
  have hptrT : chunkPtr m R.record ((R.count : Int) - 1) = t.hdr := by
    rw [hv.chunkPtr_eq (x := R.arr + 8 * (pre.length + 2)) (by omega), pt]
  have hptr0 : chunkPtr m R.record 0 = R.arr - 24 := by
    rw [hv.chunkPtr_eq (x := R.arr + 8 * 0) (by omega), p0]
  have htailPtr : tailPtr m h i = t.hdr := by
    rw [tailPtr, ho.ptr, hR.nChunks, hptrT]
  have hszA : i32 (((R.count : Int) + 1) * CHUNK_ARR) = (8 * (R.count + 1) : Nat) := by
    simp only [CHUNK_ARR]
    exact (i32_of_range (by omega) (by omega)).trans (by omega)
  have hszF : (t.size : Int) - (n + CHUNK_INFO_SIZE + CHUNK_ARR) = t.size - (n + 32 : Nat) := by
    simp only [CHUNK_INFO_SIZE, CHUNK_ARR]
    omega
  have hbackA : R.arr - 8 - CHUNK_INFO_SIZE = R.arr - 32 := by
    simp only [CHUNK_INFO_SIZE]
    omega
  unfold carve
  extract_lets r tail newChunk usrSmart newFree m1 m2 m3 m4 m5 m6 m7 m8 m9 m10
  have hchunk : newChunk = { addr := R.arr - 8, base := R.base, flag := RESERVED
                             size := (8 * (R.count + 1) : Nat) } := by
    have haddr0 : R.arr - 24 + 24 - CHUNK_ARR = R.arr - 8 := by
      simp only [CHUNK_ARR]
      omega
    simp only [newChunk, r, ho.ptr, hptr0, s0, hR.nChunks, hszA, hR.baseAddr, haddr0]
  have husr : usrSmart = { addr := t.addr, base := R.base, flag := RESERVED, size := i32 n } := by
    simp only [usrSmart, tail, r, ho.ptr, htailPtr, st.addr, hR.baseAddr]
  have hfree : newFree = { addr := t.addr + n + 24, base := R.base, flag := UNALLOCATED
                           size := i32 ((t.size : Int) - (n + 32 : Nat)) } := by
    simp only [newFree, tail, r, ho.ptr, htailPtr, st.addr, st.size, hszF, hR.baseAddr,
      CHUNK_INFO_SIZE]
  have e1 : m1 = memmove m newChunk.addr (chunks m r) (u32 (nChunks m r * CHUNK_ARR)) := rfl
  have e2 : m2 = setNChunks m1 h i (i32 (nChunks m1 (regionPtr m1 h i) + 1)) := rfl
  have e3 : m3 = setChunks m2 h i newChunk.addr := rfl
  have e4 : m4 = setChunkPtr m3 h i 0 (newChunk.addr - CHUNK_INFO_SIZE) := rfl
  have e5 : m5 = setChunkPtr m4 h i (nChunks m4 (regionPtr m4 h i) - 2)
    (usrSmart.addr - CHUNK_INFO_SIZE) := rfl
  have e6 : m6 = setChunkPtr m5 h i (nChunks m5 (regionPtr m5 h i) - 1)
    (newFree.addr - CHUNK_INFO_SIZE) := rfl
  have e7 : m7 = setChunk m6 h i 0 newChunk := rfl
  have e8 : m8 = setChunk m7 h i (nChunks m7 (regionPtr m7 h i) - 2) usrSmart := rfl
  have e9 : m9 = setChunk m8 h i (nChunks m8 (regionPtr m8 h i) - 1) newFree := rfl
  have e10 : m10 = setUsedSize m9 h i
    (i32 (usedSize m9 (regionPtr m9 h i) + (n + CHUNK_INFO_SIZE + CHUNK_ARR))) := rfl
  have er : r = R.record := ho.ptr
  clear_value m10 m9 m8 m7 m6 m5 m4 m3 m2 m1 newFree usrSmart newChunk tail r
  subst hfree husr hchunk er
  clear hptrT hptr0 htailPtr hszA hszF p0 s0
  have h1 : m1 = copy m (R.arr - 8) R.arr (8 * R.count) := by
    simp only [e1, hR.chunks, hR.nChunks]
    have hlen : u32 ((R.count : Int) * CHUNK_ARR) = 8 * R.count :=
      u32_of_range (by simp only [CHUNK_ARR]; omega) (by omega)
    rw [hlen]
    exact memmove_eq_copy m (n := 8 * R.count) (by omega) (by omega) (by omega)
  have v1 : Reached m1 h i R.base (R.base + R.size) R.record R.arr R.count := by
    rw [h1]
    exact hv.write (.copy _ _ _ _) (by omega) (by omega) (by omega) (by omega)
  have h2 : m2 = storeInt m1 (R.record + 8) (R.count + 1 : Nat) := by
    have hinc : i32 ((R.count : Int) + 1) = (R.count + 1 : Nat) :=
      (i32_of_range (by omega) (by omega)).trans (by omega)
    simp only [e2, v1.ptr, v1.nChunks, hinc]
    exact v1.setNChunks_eq _
  have v2 : Reached m2 h i R.base (R.base + R.size) R.record R.arr (R.count + 1) := by
    rw [h2]
    exact v1.counted (by omega) (by omega) (by omega)
  have h3 : m3 = storePtr m2 (R.record + 24) (R.arr - 8) := e3.trans (v2.setChunks_eq _)
  have v3 : Reached m3 h i R.base (R.base + R.size) R.record (R.arr - 8) (R.count + 1) := by
    rw [h3]
    exact v2.moved (by omega) (by omega) (by omega)
  have h4 : m4 = storePtr m3 (R.arr - 8) (R.arr - 32) := by
    simp only [e4, hbackA]
    exact v3.setChunkPtr_eq _ (by omega)
  have v4 : Reached m4 h i R.base (R.base + R.size) R.record (R.arr - 8) (R.count + 1) := by
    rw [h4]
    exact v3.write (.storePtr _ _ _) (by omega) (by omega) (by omega) (by omega)
  have h5 : m5 = storePtr m4 (R.arr + 8 * (pre.length + 1)) t.hdr := by
    have hback : t.addr - CHUNK_INFO_SIZE = t.hdr := Nat.add_sub_cancel ..
    simp only [e5, v4.ptr, v4.nChunks, hback]
    exact v4.setChunkPtr_eq _ (by omega)
  have v5 : Reached m5 h i R.base (R.base + R.size) R.record (R.arr - 8) (R.count + 1) := by
    rw [h5]
    exact v4.write (.storePtr _ _ _) (by omega) (by omega) (by omega) (by omega)
  have h6 : m6 = storePtr m5 (R.arr + 8 * (pre.length + 2)) (t.addr + n) := by
    have hback : t.addr + n + 24 - CHUNK_INFO_SIZE = t.addr + n := Nat.add_sub_cancel ..
    simp only [e6, v5.ptr, v5.nChunks, hback]
    exact v5.setChunkPtr_eq _ (by omega)
  have v6 : Reached m6 h i R.base (R.base + R.size) R.record (R.arr - 8) (R.count + 1) := by
    rw [h6]
    exact v5.write (.storePtr _ _ _) (by omega) (by omega) (by omega) (by omega)
  have hslots : loadPtr m6 (R.arr - 8) = R.arr - 32 ∧
      loadPtr m6 (R.arr + 8 * (pre.length + 1)) = t.hdr ∧
      loadPtr m6 (R.arr + 8 * (pre.length + 2)) = t.addr + n := by
    rw [h6, h5, h4]
    exact loadPtr_threeStores m3 (by omega) (by omega) (by omega) (by omega) (by omega)
  obtain ⟨hslot0, hslot1, hslot2⟩ := hslots
  have h7 : m7 = storeSmartPtr m6 (R.arr - 32)
      { addr := R.arr - 8, base := R.base, flag := RESERVED
        size := (8 * (R.count + 1) : Nat) } := by
    rw [e7]
    exact v6.setChunk_eq _ (by omega) hslot0
  have v7 : Reached m7 h i R.base (R.base + R.size) R.record (R.arr - 8) (R.count + 1) := by
    rw [h7]
    exact v6.write (writesOnly_storeSmartPtr _ _ _) (by omega) (by omega) (by omega) (by omega)
  have h8 : m8 = storeSmartPtr m7 t.hdr
      { addr := t.addr, base := R.base, flag := RESERVED, size := i32 n } := by
    rw [e8, v7.ptr, v7.nChunks]
    refine v7.setChunk_eq _ (x := R.arr + 8 * (pre.length + 1)) (by omega) ?_
    rw [h7, loadPtr_storeSmartPtr (by omega), hslot1]
  have v8 : Reached m8 h i R.base (R.base + R.size) R.record (R.arr - 8) (R.count + 1) := by
    rw [h8]
    exact v7.write (writesOnly_storeSmartPtr _ _ _) (by omega) (by omega) (by omega) (by omega)
  have h9 : m9 = storeSmartPtr m8 (t.addr + n)
      { addr := t.addr + n + 24, base := R.base, flag := UNALLOCATED
        size := i32 ((t.size : Int) - (n + 32 : Nat)) } := by
    rw [e9, v8.ptr, v8.nChunks]
    refine v8.setChunk_eq _ (x := R.arr + 8 * (pre.length + 2)) (by omega) ?_
    rw [h8, h7, loadPtr_storeSmartPtr (by omega), loadPtr_storeSmartPtr (by omega), hslot2]
  have hused : ∀ x, R.record + 4 ≤ x → x < R.record + 8 → m9 x = m x := by
    intro x hlo hhi
    have hxx : x < t.addr + n ∨ t.addr + n + 24 ≤ x := by omega
    rw [h9, h8, h7, h6, h5, h4, h3, h2, h1, writesOnly_storeSmartPtr _ _ _ _ hxx,
      writesOnly_storeSmartPtr _ _ _ _ (by omega), writesOnly_storeSmartPtr _ _ _ _ (by omega),
      WritesOnly.storePtr _ _ _ _ (by omega), WritesOnly.storePtr _ _ _ _ (by omega),
      WritesOnly.storePtr _ _ _ _ (by omega), WritesOnly.storePtr _ _ _ _ (by omega),
      WritesOnly.storeInt _ _ _ _ (by omega), WritesOnly.copy _ _ _ _ _ (by omega)]
  have hptr : regionPtr m9 h i = R.record := by
    rcases hx with hin | ⟨hout, hheap, hslot⟩
    · have v9 : Reached m9 h i R.base (R.base + R.size) R.record (R.arr - 8) (R.count + 1) := by
        rw [h9]
        exact v8.write (writesOnly_storeSmartPtr _ _ _) (by omega) (by omega) (by omega) (by omega)
      exact v9.ptr
    · have hw8 : WritesOnly m m8 R.base (R.base + R.size) := by
        intro x hx'
        rw [h8, h7, h6, h5, h4, h3, h2, h1, writesOnly_storeSmartPtr _ _ _ _ (by omega),
          writesOnly_storeSmartPtr _ _ _ _ (by omega), WritesOnly.storePtr _ _ _ _ (by omega),
          WritesOnly.storePtr _ _ _ _ (by omega), WritesOnly.storePtr _ _ _ _ (by omega),
          WritesOnly.storePtr _ _ _ _ (by omega), WritesOnly.storeInt _ _ _ _ (by omega),
          WritesOnly.copy _ _ _ _ _ (by omega)]
      have hregs8 : regions m8 h = regions m h := (hv.regionPtr_write hw8).2
      have hregs9 : regions m9 h = regions m8 h := by
        rw [h9]
        exact loadPtr_storeSmartPtr (by omega)
      rw [← v8.ptr, regionPtr, regionPtr, hregs9, h9]
      exact loadPtr_storeSmartPtr (by omega)
  have h10 : m10 = storeInt m9 (R.record + 4) (i32 ((R.used : Int) + (n + 32 : Nat))) := by
    have hread : usedSize m9 R.record = R.used :=
      (loadInt_congr (a := R.record + 4) fun x hlo hhi => hused x hlo (by omega)).trans hR.usedSize
    have hadd : (R.used : Int) + (n + CHUNK_INFO_SIZE + CHUNK_ARR) = R.used + (n + 32 : Nat) := by
      simp only [CHUNK_INFO_SIZE, CHUNK_ARR]
      generalize R.used = u
      omega
    rw [e10, hptr, hread, hadd, setUsedSize, hptr]
  rw [h10, h9, h8, h7, h6, h5, h4, h3, h2, h1]
  rfl

/-- What the stores of `carve` leave, whatever 32 bits the request has: the sizes wrap around, but
headers, pointers and flags stand where the code puts them. -/
structure CutImage (m m' : ByteMem) (R : Region) (pre : List Chunk) (t : Chunk) (n : Nat) :
    Prop where
  allocSize : allocSize m' R.record = R.size
  usedSize : usedSize m' R.record = i32 ((R.used : Int) + (n + 32 : Nat))
  nChunks : nChunks m' R.record = (R.count + 1 : Nat)
  baseAddr : baseAddr m' R.record = R.base
  chunks : chunks m' R.record = R.arr - 8
  array : PointersAt m' (R.arr - 8)
    ((R.arr - 32) :: ((R.base :: pre.map Chunk.hdr) ++ [t.hdr, t.addr + n]))
  arrayHead : HeaderAt m' { hdr := R.arr - 32, size := 8 * (R.count + 1), flag := .reserved }
  infoHead : HeaderAt m' R.infoChunk
  kept : ∀ c ∈ pre, HeaderAt m' c
  block : HeaderIs m' t.hdr (i32 n) RESERVED t.addr
  tail : HeaderIs m' (t.addr + n) (i32 ((t.size : Int) - (n + 32 : Nat))) UNALLOCATED
    (t.addr + n + 24)
  writes : WritesWithin m m' (CarveCell R t n)

theorem cutStores_spec (hR : RegionAt m R) (hs : R.Sound) (hb : R.blocks = pre ++ [t])
    (hgap : t.addr + 32 ≤ R.arr) (hfit : t.addr + n + 24 < 18446744073709551616)
    (hx : t.addr + n + 56 ≤ R.arr ∨ R.base + R.size ≤ t.addr + n) :
    CutImage m (cutStores m R pre t n) R pre t n := by
  have hcnt : R.count = pre.length + 3 := by simp [Region.count, hb]
  have harr := hs.arr_eq
  have hsmall := hs.small
  have haddrable := hs.addressable
  have hrec : R.record = R.base + 24 := rfl
  have haddr : t.addr = t.hdr + 24 := rfl
  have hord := hs.ordered
  rw [hb] at hord
  have hpre := hord.split.1
  have htlo := hpre.le
  rw [cutStores]
  obtain ⟨m1, h1⟩ : ∃ m1, m1 = copy m (R.arr - 8) R.arr (8 * R.count) := ⟨_, rfl⟩
  obtain ⟨m2, h2⟩ : ∃ m2, m2 = storeInt m1 (R.record + 8) (R.count + 1 : Nat) := ⟨_, rfl⟩
  obtain ⟨m3, h3⟩ : ∃ m3, m3 = storePtr m2 (R.record + 24) (R.arr - 8) := ⟨_, rfl⟩
  obtain ⟨m4, h4⟩ : ∃ m4, m4 = storePtr m3 (R.arr - 8) (R.arr - 32) := ⟨_, rfl⟩
  obtain ⟨m5, h5⟩ : ∃ m5, m5 = storePtr m4 (R.arr + 8 * (pre.length + 1)) t.hdr := ⟨_, rfl⟩
  obtain ⟨m6, h6⟩ : ∃ m6, m6 = storePtr m5 (R.arr + 8 * (pre.length + 2)) (t.addr + n) := ⟨_, rfl⟩
  obtain ⟨m7, h7⟩ : ∃ m7, m7 = storeSmartPtr m6 (R.arr - 32)
      { addr := R.arr - 8, base := R.base, flag := RESERVED
        size := (8 * (R.count + 1) : Nat) } := ⟨_, rfl⟩
  obtain ⟨m8, h8⟩ : ∃ m8, m8 = storeSmartPtr m7 t.hdr
      { addr := t.addr, base := R.base, flag := RESERVED, size := i32 n } := ⟨_, rfl⟩
  obtain ⟨m9, h9⟩ : ∃ m9, m9 = storeSmartPtr m8 (t.addr + n)
      { addr := t.addr + n + 24, base := R.base, flag := UNALLOCATED
        size := i32 ((t.size : Int) - (n + 32 : Nat)) } := ⟨_, rfl⟩
  obtain ⟨m10, h10⟩ : ∃ m10, m10 = storeInt m9 (R.record + 4)
      (i32 ((R.used : Int) + (n + 32 : Nat))) := ⟨_, rfl⟩
  rw [← h1, ← h2, ← h3, ← h4, ← h5, ← h6, ← h7, ← h8, ← h9, ← h10]
  have hkept : ∀ x, (x < R.record + 4 ∨ R.record + 12 ≤ x) →
      (x < R.record + 24 ∨ R.record + 32 ≤ x) → (x < t.hdr ∨ t.addr ≤ x) →
      (x < t.addr + n ∨ t.addr + n + 24 ≤ x) → (x < R.arr - 32 ∨ R.base + R.size ≤ x) →
      m10 x = m x := by
    intro x hx1 hx2 hx3 hx4 hx5
    rw [h10, h9, h8, h7, h6, h5, h4, h3, h2, h1, WritesOnly.storeInt _ _ _ _ (by omega),
      writesOnly_storeSmartPtr _ _ _ _ (by omega),
      writesOnly_storeSmartPtr _ _ _ _ (by omega), writesOnly_storeSmartPtr _ _ _ _ (by omega),
      WritesOnly.storePtr _ _ _ _ (by omega), WritesOnly.storePtr _ _ _ _ (by omega),
      WritesOnly.storePtr _ _ _ _ (by omega), WritesOnly.storePtr _ _ _ _ (by omega),
      WritesOnly.storeInt _ _ _ _ (by omega), WritesOnly.copy _ _ _ _ _ (by omega)]
  have hslots : loadPtr m6 (R.arr - 8) = R.arr - 32 ∧
      loadPtr m6 (R.arr + 8 * (pre.length + 1)) = t.hdr ∧
      loadPtr m6 (R.arr + 8 * (pre.length + 2)) = t.addr + n := by
    rw [h6, h5, h4]
    exact loadPtr_threeStores m3 (by omega) (by omega) (by omega) (by omega) (by omega)
  obtain ⟨hslot0, hslot1, hslot2⟩ := hslots
  have hcell : ∀ a, R.arr - 8 ≤ a → a + 8 ≤ R.base + R.size → loadPtr m10 a = loadPtr m6 a := by
    intro a ha ha'
    rw [h10, h9, h8, h7, loadPtr_storeInt (by omega), loadPtr_storeSmartPtr (by omega),
      loadPtr_storeSmartPtr (by omega), loadPtr_storeSmartPtr (by omega)]
  refine ⟨?_, ?_, ?_, ?_, ?_, ?_, ?_, ?_, ?_, ?_, ?_, ?_⟩
  · refine (loadInt_congr (a := R.record) ?_).trans hR.allocSize
    intro x hlo hhi
    exact hkept x (by omega) (by omega) (by omega) (by omega) (by omega)
  · rw [h10]
    have hbounds := i32_bounds ((R.used : Int) + (n + 32 : Nat))
    exact loadInt_storeInt_same _ _ hbounds.1 hbounds.2
  · rw [h10]
    refine (loadInt_storeInt (b := R.record + 8) (by omega)).trans ?_
    rw [h9, h8, h7, h6, h5, h4, h3, loadInt_storeSmartPtr (by omega), loadInt_storeSmartPtr (by omega),
      loadInt_storeSmartPtr (by omega), loadInt_storePtr (by omega), loadInt_storePtr (by omega),
      loadInt_storePtr (by omega), loadInt_storePtr (by omega), h2,
      loadInt_storeInt_same _ _ (by omega) (by omega)]
  · refine (loadPtr_congr (a := R.record + 16) ?_).trans hR.baseAddr
    intro x hlo hhi
    exact hkept x (by omega) (by omega) (by omega) (by omega) (by omega)
  · rw [h10]
    refine (loadPtr_storeInt (b := R.record + 24) (by omega)).trans ?_
    rw [h9, h8, h7, h6, h5, h4, loadPtr_storeSmartPtr (by omega), loadPtr_storeSmartPtr (by omega),
      loadPtr_storeSmartPtr (by omega), loadPtr_storePtr (by omega), loadPtr_storePtr (by omega),
      loadPtr_storePtr (by omega), h3, loadPtr_storePtr_same _ _ (by omega)]
  · have hold := hR.array
    simp only [Region.entries, hb, List.map_cons, List.map_append,
      PointersAt.cons_iff (a := R.arr)] at hold
    have hmoved : PointersAt m1 (R.arr - 8 + 8) (R.base :: pre.map Chunk.hdr) := by
      rw [h1]
      refine PointersAt.copied ?_ (by simp; omega)
      exact (PointersAt.append_iff (l := R.infoChunk.hdr :: pre.map Chunk.hdr)).1 hold.2 |>.1
    have hlen : (R.base :: pre.map Chunk.hdr).length = pre.length + 1 := by simp
    have hfirst : PointersAt m10 (R.arr - 8 + 8) (R.base :: pre.map Chunk.hdr) := by
      refine hmoved.frame ?_
      rw [hlen]
      simp (disch := omega) only [h10, h9, h8, h7, h6, h5, h4, h3, h2, agree_storeInt,
        agree_storePtr, agree_storeSmartPtr, AgreeOn.refl]
    have hnext : R.arr - 8 + 8 + 8 * (R.base :: pre.map Chunk.hdr).length
        = R.arr + 8 * (pre.length + 1) := by
      rw [hlen]
      omega
    refine PointersAt.cons_iff.2 ⟨?_, PointersAt.append_iff.2 ⟨hfirst, ?_⟩⟩
    · rw [hcell _ (by omega) (by omega), hslot0]
    rw [hnext]
    refine PointersAt.cons_iff.2 ⟨?_, PointersAt.cons_iff.2 ⟨?_, .nil⟩⟩
    · rw [hcell _ (by omega) (by omega), hslot1]
    · rw [show R.arr + 8 * (pre.length + 1) + 8 = R.arr + 8 * (pre.length + 2) by omega,
        hcell _ (by omega) (by omega), hslot2]
  · refine HeaderAt.frame (m := m7) ?_ ?_
    · rw [h7]
      refine headerAt_storeSmartPtr m6
        { hdr := R.arr - 32, size := 8 * (R.count + 1), flag := .reserved } _ rfl rfl ?_ ?_ ?_ <;>
        simp only [Chunk.addr] <;> omega
    · simp only [Chunk.addr]
      simp (disch := omega) only [h10, h9, h8, agree_storeInt, agree_storeSmartPtr, AgreeOn.refl]
  · refine (hR.headers R.infoChunk (by simp [Region.entries])).frame ?_
    intro x hlo hhi
    simp only [Region.infoChunk, Chunk.addr] at hlo hhi
    exact hkept x (by omega) (by omega) (by omega) (by omega) (by omega)
  · intro c hc
    refine (hR.headers c (by simp [Region.entries, hb, hc])).frame ?_
    have hbd := hpre.bounds hc
    intro x hlo hhi
    exact hkept x (by omega) (by omega) (by omega) (by omega) (by omega)
  · refine HeaderIs.frame (m := m8) ?_ ?_
    · rw [h8]
      exact headerIs_storeSmartPtr m7 t.hdr (i32_bounds n) (flag_code_bounds .reserved)
        (by simp only []; omega)
    · simp (disch := omega) only [h10, h9, agree_storeInt, agree_storeSmartPtr, AgreeOn.refl]
  · refine HeaderIs.frame (m := m9) ?_ ?_
    · rw [h9]
      exact headerIs_storeSmartPtr m8 (t.addr + n) (i32_bounds _)
        (flag_code_bounds .unallocated) hfit
    · rw [h10]
      exact (agree_storeInt (by omega)).2 (.refl _ _ _)
  · intro x hcell
    unfold CarveCell at hcell
    exact hkept x (by omega) (by omega) (by omega) (by omega) (by omega)

theorem carve_spec (hR : RegionAt m R) (hr : HasRoom R pre t n) (ho : Outside m h i R) :
    (carve m h i n).1 = t.addr ∧ RegionAt (carve m h i n).2 (R.withBlocks (carved pre t n)) ∧
      WritesWithin m (carve m h i n).2 (CarveCell R t n) := by
  have hb := hr.bounds
  have hcnt := hr.count
  have hroom := hr.room
  have hfit := hr.sound.addressable
  have hsmall := hr.sound.small
  have haddr : t.addr = t.hdr + 24 := rfl
  have hcnt' := hr.count_carved
  have harr' := hr.arr_carved
  have husedLe : R.used + (n + 32) ≤ R.size := by
    rw [← hr.used_carved]
    exact hr.sound_carved.used_le
  have hszN : i32 (n : Int) = n := i32_of_range (by omega) (by omega)
  have hszF : i32 ((t.size : Int) - (n + 32 : Nat)) = (t.size - (n + 32) : Nat) :=
    (i32_of_range (by omega) (by omega)).trans (by omega)
  have hadd : i32 ((R.used : Int) + (n + 32 : Nat)) = (R.used + (n + 32) : Nat) := by
    generalize R.used = u at husedLe ⊢
    exact (i32_of_range (by omega) (by omega)).trans (by omega)
  rw [carve_eq hR hr.sound ho hr.blocks (by omega) (by omega) (.inl (by omega))]
  have hcut := cutStores_spec (n := n) hR hr.sound hr.blocks (by omega) (by omega)
    (.inl (by omega))
  generalize cutStores m R pre t n = m' at hcut
  have hhead : (R.withBlocks (carved pre t n)).arrayChunk
      = { hdr := R.arr - 32, size := 8 * (R.count + 1), flag := .reserved } := by
    have hback : R.arr - 8 - 24 = R.arr - 32 := by omega
    simp only [Region.arrayChunk, harr', hcnt', hback]
  refine ⟨rfl, ⟨hcut.allocSize, ?_, ?_, hcut.baseAddr, ?_, ?_, ?_⟩, hcut.writes⟩
  · rw [hr.used_carved, ← hadd]
    exact hcut.usedSize
  · rw [hcnt']
    exact hcut.nChunks
  · rw [harr']
    exact hcut.chunks
  · have hlist : (R.withBlocks (carved pre t n)).entries.map Chunk.hdr
        = (R.arr - 32) :: ((R.base :: pre.map Chunk.hdr) ++ [t.hdr, t.addr + n]) := by
      simp only [Region.entries, List.map_cons, hhead, Region.withBlocks_blocks]
      simp [Region.infoChunk, carved, Chunk.block, Chunk.remainder, Chunk.addr]
    rw [harr', hlist]
    exact hcut.array
  · intro c hc
    simp only [Region.entries, List.mem_cons, Region.withBlocks_blocks, carved, List.mem_append,
      List.not_mem_nil, or_false] at hc
    rcases hc with rfl | rfl | hc | rfl | rfl
    · change HeaderAt m' (R.withBlocks (carved pre t n)).arrayChunk
      rw [hhead]
      exact hcut.arrayHead
    · exact hcut.infoHead
    · exact hcut.kept c hc
    · exact ⟨hcut.block.size.trans hszN, hcut.block.flag, hcut.block.addr⟩
    · exact ⟨hcut.tail.size.trans hszF, hcut.tail.flag, hcut.tail.addr⟩

end Memory
end EmbeddedOS
