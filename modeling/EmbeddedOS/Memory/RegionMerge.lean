import Mathlib.Data.List.Basic
import EmbeddedOS.Memory.RegionAccess

/-!
# Merging two chunks in place

`cull` joins two neighbouring free chunks by rewriting one header, moving the part of the chunk
array before the second entry up by one slot, and giving that slot to the tail. The merge to the
left keeps the header of the left chunk; the merge to the right puts the header where its caller
says.
-/

namespace EmbeddedOS
namespace Memory

open Base Base.ByteMem Stdlib

variable {m m' : ByteMem} {h i : Nat} {R : Region} {pre rs : List Chunk} {a b : Chunk} {hdr : Nat}

/-- Two neighbouring chunks of a region and where they stand. -/
structure Neighbours (R : Region) (pre : List Chunk) (a b : Chunk) (rs : List Chunk) : Prop where
  blocks : R.blocks = pre ++ a :: b :: rs
  placed : R.Placed
  freeLeft : a.flag ≠ .reserved
  freeRight : b.flag ≠ .reserved

namespace Neighbours

theorem count (hn : Neighbours R pre a b rs) : R.count = pre.length + rs.length + 4 := by
  simp [Region.count, hn.blocks]
  omega

theorem ordered (hn : Neighbours R pre a b rs) :
    Ascends Chunk.hdr Chunk.addr (R.base + 56) pre a.hdr ∧ a.addr ≤ b.hdr ∧
      Ascends Chunk.hdr Chunk.addr b.addr rs (R.arr - 24) := by
  have h := hn.placed.ordered
  rw [hn.blocks] at h
  have hsplit := h.split
  exact ⟨hsplit.1, hsplit.2.2.1, hsplit.2.2.2.2⟩

/-- The order of the cells that a merge touches. -/
theorem bounds (hn : Neighbours R pre a b rs) :
    R.base + 56 ≤ a.hdr ∧ a.hdr + 24 ≤ b.hdr ∧ b.hdr + 48 ≤ R.arr ∧
      R.arr + 8 * (pre.length + rs.length + 4) = R.base + R.size := by
  rcases hn.ordered with ⟨h1, h2, h3⟩
  have h1' := h1.le
  have h3' := h3.le
  have harr := hn.placed.arr_eq
  rw [hn.count] at harr
  simp only [Chunk.addr] at h2 h3'
  omega

theorem entry_left (hn : Neighbours R pre a b rs) : R.entries[pre.length + 2]? = some a := by
  simp [Region.entries, hn.blocks]

theorem entry_right (hn : Neighbours R pre a b rs) : R.entries[pre.length + 3]? = some b := by
  simp [Region.entries, hn.blocks]

/-- The array after the merge ends where it ended before. -/
theorem arr_merged (hn : Neighbours R pre a b rs) (c : Chunk) :
    (R.withBlocks (pre ++ c :: rs)).arr = R.arr + 8 := by
  have hb := hn.bounds
  have hc := hn.count
  simp [Region.arr, Region.count, Region.withBlocks] at *
  omega

theorem count_merged (R : Region) (pre rs : List Chunk) (c : Chunk) :
    (R.withBlocks (pre ++ c :: rs)).count = pre.length + rs.length + 3 := by
  simp [Region.count]
  omega

theorem placed_merged (hn : Neighbours R pre a b rs) (hlo : a.hdr ≤ hdr) (hhi : hdr ≤ b.hdr) :
    (R.withBlocks (pre ++ .merged hdr a b :: rs)).Placed := by
  rcases hn.ordered with ⟨h1, h2, h3⟩
  have hroom := hn.placed.room
  have hc := hn.count
  refine ⟨hn.placed.small, hn.placed.addressable, ?_, ?_⟩
  · rw [count_merged]
    simp only [Region.withBlocks_size]
    omega
  · rw [hn.arr_merged]
    simp only [Region.withBlocks_base, Region.withBlocks_blocks]
    refine Ascends.join (h1.mono (Nat.le_refl _) hlo) (Nat.le_add_right _ _) ?_
    exact h3.mono (by simp only [Chunk.addr, Chunk.merged]; omega) (by omega)

end Neighbours

/-- Address `x` belongs to the bookkeeping or to the header at `hdr`. -/
def MergeCell (R : Region) (hdr x : Nat) : Prop :=
  R.Bookkeeping x ∨ hdr ≤ x ∧ x < hdr + 24

/-- Address `x` is none of the cells that a merge to `hdr` over entry `j` of the array writes. -/
def Untouched (R : Region) (j hdr x : Nat) : Prop :=
  (x < R.record + 8 ∨ R.record + 12 ≤ x) ∧ (x < R.record + 24 ∨ R.record + 32 ≤ x) ∧
    (x < hdr ∨ hdr + 24 ≤ x) ∧ (x < R.arr - 16 ∨ R.arr + 8 * (j + 1) ≤ x)

/-- Writes of a merge stay inside the region. -/
theorem Neighbours.writesOnly (hn : Neighbours R pre a b rs) (hlo : a.hdr ≤ hdr) (hhi : hdr ≤ b.hdr)
    (hw : WritesWithin m m' (MergeCell R hdr)) : WritesOnly m m' R.base (R.base + R.size) := by
  have hb := hn.bounds
  refine hw.writesOnly ?_
  rintro x (hx | hx)
  · exact hn.placed.bookkeeping_bounds hx
  · omega

theorem Neighbours.untouched (hn : Neighbours R pre a b rs) {x : Nat} (hx : ¬ MergeCell R hdr x) :
    Untouched R (pre.length + 3) hdr x := by
  have hb := hn.bounds
  have hrec : R.record = R.base + 24 := rfl
  simp only [MergeCell, Region.Bookkeeping, not_or, not_and] at hx
  unfold Untouched
  omega

/-- The bookkeeping after a merge. -/
theorem Neighbours.bookkeeping_merged (hn : Neighbours R pre a b rs) {x : Nat}
    (hx : (R.withBlocks (pre ++ .merged hdr a b :: rs)).Bookkeeping x) : MergeCell R hdr x := by
  have harr := hn.arr_merged (.merged hdr a b)
  rcases hx with hx | hx | ⟨c, hc, hx⟩
  · exact .inl (.inl hx)
  · rw [harr, Region.withBlocks_base, Region.withBlocks_size] at hx
    exact .inl (.inr (.inl ⟨by omega, hx.2⟩))
  · have hold : c ∈ R.blocks → MergeCell R hdr x := fun hmem => .inl (.inr (.inr ⟨c, hmem, hx⟩))
    rw [hn.blocks] at hold
    rcases List.mem_append.1 hc with hc | hc
    · exact hold (List.mem_append_left _ hc)
    · rcases List.mem_cons.1 hc with rfl | hc
      · exact .inr hx
      · exact hold (List.mem_append_right _ (List.mem_cons_of_mem _ (List.mem_cons_of_mem _ hc)))

/-- The memory holds the region after a merge, before the tail has grown, when the entries before
the merged one have moved up by a slot and only the cells of the merge have changed. -/
theorem RegionShape.merged (hR : RegionShape m R) (hn : Neighbours R pre a b rs) (hlo : a.hdr ≤ hdr)
    (hhi : hdr ≤ b.hdr)
    (hkept : ∀ x, Untouched R (pre.length + 3) hdr x → m' x = m x)
    (hcount : Memory.nChunks m' R.record = (R.count - 1 : Nat))
    (hchunks : Memory.chunks m' R.record = R.arr + 8)
    (h0 : loadPtr m' (R.arr + 8) = R.arr - 16)
    (hmoved : ∀ l, l.length = pre.length + 1 → PointersAt m (R.arr + 8) l →
      PointersAt m' (R.arr + 16) l)
    (hnew : loadPtr m' (R.arr + 8 * (pre.length + 3)) = hdr)
    (harray : HeaderAt m' { hdr := R.arr - 16, size := 8 * (R.count - 1), flag := .reserved })
    (hmerged : HeaderAt m' (.merged hdr a b)) :
    RegionShape m' (R.withBlocks (pre ++ .merged hdr a b :: rs)) := by
  have hb := hn.bounds
  have hcnt := hn.count
  have harr := hn.arr_merged (.merged hdr a b)
  have hlen := Neighbours.count_merged R pre rs (.merged hdr a b)
  have hrec : R.record = R.base + 24 := rfl
  have hagree : ∀ lo hi, (∀ x, lo ≤ x → x < hi → Untouched R (pre.length + 3) hdr x) →
      AgreeOn m' m lo hi := by
    intro lo hi h x hlo hhi
    exact hkept x (h x hlo hhi)
  unfold Untouched at hagree
  have hold := hR.array
  simp only [Region.entries, hn.blocks, List.map_cons, List.map_append, PointersAt.cons_iff,
    PointersAt.append_iff, List.length_map] at hold
  rcases hold with ⟨_, hinfoPtr, hprePtr, _, _, hrsPtr⟩
  refine ⟨?_, ?_, ?_, ?_, ?_, ?_⟩
  · exact (loadInt_congr (hagree _ _ (by simp only [Region.withBlocks_record]; omega))).trans
      hR.allocSize
  · have heq : R.count - 1 = pre.length + rs.length + 3 := by omega
    rw [hlen, ← heq]
    exact hcount
  · exact (loadPtr_congr (hagree _ _ (by simp only [Region.withBlocks_record]; omega))).trans
      hR.baseAddr
  · rw [harr]
    exact hchunks
  · simp only [Region.entries, Region.arrayChunk, Region.infoChunk, Region.withBlocks_blocks,
      List.map_cons, List.map_append, PointersAt.cons_iff, harr, Region.withBlocks_base]
    refine ⟨?_, ?_⟩
    · rw [h0]
      omega
    · have hfirst := hmoved (R.base :: pre.map Chunk.hdr) (by simp)
        (PointersAt.cons_iff.2 ⟨hinfoPtr, hprePtr⟩)
      have hlast : PointersAt m' (R.arr + 8 * (pre.length + 4)) (rs.map Chunk.hdr) := by
        refine PointersAt.frame (m := m) ?_ (hagree _ _ (by simp only [List.length_map]; omega))
        rwa [show R.arr + 8 * (pre.length + 4) = R.arr + 8 + 8 + 8 * pre.length + 8 + 8 by omega]
      rw [PointersAt.cons_iff] at hfirst
      refine ⟨hfirst.1, PointersAt.append_iff.2 ⟨hfirst.2, PointersAt.cons_iff.2 ⟨?_, ?_⟩⟩⟩
      · rw [List.length_map, show R.arr + 8 + 8 + 8 + 8 * pre.length
          = R.arr + 8 * (pre.length + 3) by omega]
        exact hnew
      · rw [List.length_map, show R.arr + 8 + 8 + 8 + 8 * pre.length + 8
          = R.arr + 8 * (pre.length + 4) by omega]
        exact hlast
  · intro c hc
    have hframe : c ∈ R.entries →
        (∀ x, c.hdr ≤ x → x < c.addr → Untouched R (pre.length + 3) hdr x) → HeaderAt m' c := by
      intro hmem h
      exact (hR.headers c hmem).frame (hagree _ _ h)
    simp only [Region.entries, List.mem_cons, Region.withBlocks_blocks, List.mem_append] at hc
    unfold Untouched at hframe
    rcases hc with rfl | rfl | hc | rfl | hc
    · have heq : R.count - 1 = pre.length + rs.length + 3 := by omega
      have hh : R.arr + 8 - 24 = R.arr - 16 := by omega
      simp only [Region.arrayChunk, harr, hlen, hh, ← heq]
      exact harray
    · refine hframe (by simp [Region.entries, Region.infoChunk]) ?_
      simp only [Region.infoChunk, Chunk.addr, Region.withBlocks_base]
      omega
    · have hbd := hn.ordered.1.bounds hc
      refine hframe (by simp [Region.entries, hn.blocks, hc]) ?_
      simp only [Chunk.addr] at hbd ⊢
      omega
    · exact hmerged
    · have hbd := hn.ordered.2.2.bounds hc
      refine hframe (by simp [Region.entries, hn.blocks, hc]) ?_
      simp only [Chunk.addr] at hbd ⊢
      omega

/-- A merge leaves `used_size` alone. -/
theorem Neighbours.used_kept (hn : Neighbours R pre a b rs) (hlo : a.hdr ≤ hdr)
    (hkept : ∀ x, Untouched R (pre.length + 3) hdr x → m' x = m x) :
    usedSize m' R.record = usedSize m R.record := by
  have hb := hn.bounds
  have hrec : R.record = R.base + 24 := rfl
  refine loadInt_congr (a := R.record + 4) fun x hlo' hhi' => hkept x ?_
  unfold Untouched
  omega

/-! ## The two merges of `cull` -/

/-- What both merges read before the first store. -/
theorem Neighbours.reads (hn : Neighbours R pre a b rs) (hR : RegionShape m R)
    (ho : Outside m h i R) :
    chunkPtr m R.record (pre.length + 2 : Nat) = a.hdr ∧
      chunkPtr m R.record (pre.length + 3 : Nat) = b.hdr ∧
      chunkPtr m R.record 0 = R.arr - 24 ∧ chunkSize m (R.arr - 24) = (8 * R.count : Nat) := by
  have hv := hR.reached ho
  have pa := hR.entry hn.entry_left
  have pb := hR.entry hn.entry_right
  have p0 : loadPtr m (R.arr + 8 * 0) = R.arr - 24 := hR.entry (j := 0) (c := R.arrayChunk) rfl
  refine ⟨?_, ?_, ?_, (hR.header (j := 0) (c := R.arrayChunk) rfl).size⟩
  · rw [hv.chunkPtr_eq (x := R.arr + 8 * (pre.length + 2)) (by omega), pa]
  · rw [hv.chunkPtr_eq (x := R.arr + 8 * (pre.length + 3)) (by omega), pb]
  · rw [hv.chunkPtr_eq (x := R.arr + 8 * 0) (by omega), p0]

/-- The last assignment of each merge: the tail gets the slot that the array no longer needs. -/
def growTail (m : ByteMem) (h i : Nat) : ByteMem :=
  setChunkSize m h i (nChunks m (regionPtr m h i) - 1)
    (i32 (chunkSize m (chunkPtr m (regionPtr m h i) (nChunks m (regionPtr m h i) - 1)) + CHUNK_ARR))

/-- `mergeLeft` up to the growth of the tail. -/
theorem mergeLeft_eq (hR : RegionShape m R) (ho : Outside m h i R) (hn : Neighbours R pre a b rs)
    (hsize : a.size + b.size + 24 < 2147483648) :
    ∃ m', RegionShape m' (R.withBlocks (pre ++ .merged a.hdr a b :: rs)) ∧
      usedSize m' R.record = usedSize m R.record ∧
      WritesWithin m m' (MergeCell R a.hdr) ∧
      mergeLeft m h i (pre.length + 3 : Nat) = growTail m' h i := by
  have hv := hR.reached ho
  have hb := hn.bounds
  have hcnt := hn.count
  have hfit := hn.placed.addressable
  have hsmall := hn.placed.small
  have hrec : R.record = R.base + 24 := rfl
  have sa := hR.header hn.entry_left
  have sb := hR.header hn.entry_right
  obtain ⟨hptr, hptrB, hptr0, s0⟩ := hn.reads hR ho
  have hindex : ((pre.length + 3 : Nat) : Int) - 1 = (pre.length + 2 : Nat) := by omega
  have hptrA : chunkPtr m R.record ((pre.length + 3 : Nat) - 1) = a.hdr := by rw [hindex, hptr]
  have hszM : i32 ((a.size : Int) + CHUNK_INFO_SIZE + b.size) = (Chunk.merged a.hdr a b).size := by
    simp only [Chunk.merged, CHUNK_INFO_SIZE]
    rw [i32_of_range] <;> omega
  have hszA : i32 ((8 * R.count : Nat) - CHUNK_ARR) = (8 * (R.count - 1) : Nat) := by
    simp only [CHUNK_ARR]
    rw [i32_of_range] <;> omega
  unfold mergeLeft
  extract_lets r newFree newChunk m1 m2 m3 m4 m5 m6 m7 last
  have hfree : newFree = { addr := a.addr, base := R.base, flag := UNALLOCATED
                           size := (Chunk.merged a.hdr a b).size } := by
    simp only [newFree, r, ho.ptr, hptrA, hptrB, sa.size, sa.addr, sb.size, hszM, hR.baseAddr]
  have hchunk : newChunk = { addr := R.arr + 8, base := R.base, flag := RESERVED
                             size := (8 * (R.count - 1) : Nat) } := by
    simp only [newChunk, r, ho.ptr, hptr0, s0, hszA, hR.baseAddr, hR.chunks, CHUNK_ARR]
  have e1 : m1 = memmove m newChunk.addr (chunks m r) (u32 ((pre.length + 3 : Nat) * CHUNK_ARR)) := rfl
  have e2 : m2 = setChunks m1 h i newChunk.addr := rfl
  have e3 : m3 = setChunkPtr m2 h i 0 (newChunk.addr - CHUNK_INFO_SIZE) := rfl
  have e4 : m4 = setChunkPtr m3 h i ((pre.length + 3 : Nat) - 1) (newFree.addr - CHUNK_INFO_SIZE) := rfl
  have e5 : m5 = storeSmartPtr m4 (newFree.addr - CHUNK_INFO_SIZE) newFree := rfl
  have e6 : m6 = storeSmartPtr m5 (newChunk.addr - CHUNK_INFO_SIZE) newChunk := rfl
  have e7 : m7 = setNChunks m6 h i (i32 (nChunks m6 (regionPtr m6 h i) - 1)) := rfl
  have er : r = R.record := ho.ptr
  have elast : setChunkSize m7 h i last (i32 (chunkSize m7 (chunkPtr m7 (regionPtr m7 h i) last)
      + CHUNK_ARR)) = growTail m7 h i := rfl
  rw [elast]
  clear_value last m7 m6 m5 m4 m3 m2 m1 newFree newChunk r
  subst hfree hchunk er
  clear elast hptr hindex hptrA hptrB hptr0 hszM hszA s0
  -- Each assignment is one store.
  have h1 : m1 = copy m (R.arr + 8) R.arr (8 * (pre.length + 3)) := by
    simp only [e1, hR.chunks]
    have hlen : u32 ((pre.length + 3 : Nat) * CHUNK_ARR) = 8 * (pre.length + 3) :=
      u32_of_range (by simp only [CHUNK_ARR]; omega) (by omega)
    rw [hlen]
    exact memmove_eq_copy m (n := 8 * (pre.length + 3)) (by omega) (by omega) (by omega)
  have v1 : Reached m1 h i R.base (R.base + R.size) R.record R.arr R.count := by
    rw [h1]
    exact hv.write (.copy _ _ _ _) (by omega) (by omega) (by omega) (by omega)
  have h2 : m2 = storePtr m1 (R.record + 24) (R.arr + 8) := e2.trans (v1.setChunks_eq _)
  have v2 : Reached m2 h i R.base (R.base + R.size) R.record (R.arr + 8) R.count := by
    rw [h2]
    exact v1.moved (by omega) (by omega) (by omega)
  have h3 : m3 = storePtr m2 (R.arr + 8) (R.arr - 16) := by
    have heq : R.arr + 8 - CHUNK_INFO_SIZE = R.arr - 16 := by
      simp only [CHUNK_INFO_SIZE]
      omega
    simp only [e3, heq]
    exact v2.setChunkPtr_eq _ (by omega)
  have v3 : Reached m3 h i R.base (R.base + R.size) R.record (R.arr + 8) R.count := by
    rw [h3]
    exact v2.write (.storePtr _ _ _) (by omega) (by omega) (by omega) (by omega)
  have h4 : m4 = storePtr m3 (R.arr + 8 * (pre.length + 3)) a.hdr := by
    have heq : a.addr - CHUNK_INFO_SIZE = a.hdr := Nat.add_sub_cancel ..
    simp only [e4, heq]
    exact v3.setChunkPtr_eq _ (by omega)
  have v4 : Reached m4 h i R.base (R.base + R.size) R.record (R.arr + 8) R.count := by
    rw [h4]
    exact v3.write (.storePtr _ _ _) (by omega) (by omega) (by omega) (by omega)
  have h5 : m5 = storeSmartPtr m4 a.hdr
      { addr := a.addr, base := R.base, flag := UNALLOCATED
        size := (Chunk.merged a.hdr a b).size } := by
    have heq : a.addr - CHUNK_INFO_SIZE = a.hdr := Nat.add_sub_cancel ..
    simp only [e5, heq]
  have v5 : Reached m5 h i R.base (R.base + R.size) R.record (R.arr + 8) R.count := by
    rw [h5]
    exact v4.write (writesOnly_storeSmartPtr _ _ _) (by omega) (by omega) (by omega) (by omega)
  have h6 : m6 = storeSmartPtr m5 (R.arr - 16)
      { addr := R.arr + 8, base := R.base, flag := RESERVED
        size := (8 * (R.count - 1) : Nat) } := by
    have heq : R.arr + 8 - CHUNK_INFO_SIZE = R.arr - 16 := by
      simp only [CHUNK_INFO_SIZE]
      omega
    simp only [e6, heq]
  have v6 : Reached m6 h i R.base (R.base + R.size) R.record (R.arr + 8) R.count := by
    rw [h6]
    exact v5.write (writesOnly_storeSmartPtr _ _ _) (by omega) (by omega) (by omega) (by omega)
  have h7 : m7 = storeInt m6 (R.record + 8) (R.count - 1 : Nat) := by
    have hdec : i32 ((R.count : Int) - 1) = (R.count - 1 : Nat) := by
      rw [i32_of_range] <;> omega
    simp only [e7, v6.ptr, v6.nChunks, hdec]
    exact v6.setNChunks_eq _
  have hsz : (Chunk.merged a.hdr a b).size < 2147483648 := by
    simp only [Chunk.merged]
    omega
  have hkept : ∀ x, Untouched R (pre.length + 3) a.hdr x → m7 x = m x := by
    intro x hx
    unfold Untouched at hx
    rw [h7, h6, h5, h4, h3, h2, h1, WritesOnly.storeInt _ _ _ _ (by omega),
      writesOnly_storeSmartPtr _ _ _ _ (by omega), writesOnly_storeSmartPtr _ _ _ _ (by omega),
      WritesOnly.storePtr _ _ _ _ (by omega), WritesOnly.storePtr _ _ _ _ (by omega),
      WritesOnly.storePtr _ _ _ _ (by omega), WritesOnly.copy _ _ _ _ _ (by omega)]
  refine ⟨m7, hR.merged hn (Nat.le_refl _) (by omega) hkept ?_ ?_ ?_ ?_ ?_ ?_ ?_,
    hn.used_kept (Nat.le_refl _) hkept, fun x hx => hkept x (hn.untouched hx), rfl⟩
  · rw [h7]
    exact loadInt_storeInt_same _ _ (by omega) (by omega)
  · rw [h7]
    exact (loadPtr_storeInt (by omega)).trans v6.chunks
  · rw [h7, h6, h5, h4, loadPtr_storeInt (by omega), loadPtr_storeSmartPtr (by omega),
      loadPtr_storeSmartPtr (by omega), loadPtr_storePtr (by omega), h3,
      loadPtr_storePtr_same _ _ (by omega)]
  · intro l hl hold
    have hcopied : PointersAt m1 (R.arr + 16) l := by
      rw [h1]
      exact hold.copied (by omega)
    refine hcopied.frame ?_
    simp (disch := omega) only [h7, h6, h5, h4, h3, h2, agree_storeInt, agree_storePtr,
      agree_storeSmartPtr, AgreeOn.refl]
  · rw [h7, h6, h5, loadPtr_storeInt (by omega), loadPtr_storeSmartPtr (by omega),
      loadPtr_storeSmartPtr (by omega), h4, loadPtr_storePtr_same _ _ (by omega)]
  · refine HeaderAt.frame (m := m6) ?_ ?_
    · rw [h6]
      refine headerAt_storeSmartPtr m5
        { hdr := R.arr - 16, size := 8 * (R.count - 1), flag := .reserved } _ rfl rfl ?_ ?_ ?_ <;>
        simp only [Chunk.addr] <;> omega
    · simp only [Chunk.addr]
      rw [h7]
      exact (agree_storeInt (by omega)).2 (.refl _ _ _)
  · refine HeaderAt.frame (m := m5) ?_ ?_
    · rw [h5]
      exact headerAt_storeSmartPtr m4 (.merged a.hdr a b) _ rfl rfl rfl hsz
        (by simp only [Chunk.addr, Chunk.merged]; omega)
    · simp only [Chunk.addr, Chunk.merged]
      simp (disch := omega) only [h7, h6, agree_storeInt, agree_storeSmartPtr, AgreeOn.refl]

/-- `mergeRight` up to the growth of the tail; the merged header goes to `hdr`, wherever between
the two headers that is. -/
theorem mergeRight_eq (hR : RegionShape m R) (ho : Outside m h i R) (hn : Neighbours R pre a b rs)
    (hlo : a.hdr ≤ hdr) (hhi : hdr + 24 ≤ b.hdr) (hsize : a.size + b.size + 24 < 2147483648) :
    ∃ m', RegionShape m' (R.withBlocks (pre ++ .merged hdr a b :: rs)) ∧
      usedSize m' R.record = usedSize m R.record ∧
      WritesWithin m m' (MergeCell R hdr) ∧
      mergeRight m h i (pre.length + 2 : Nat) (hdr + 24) = growTail m' h i := by
  have hv := hR.reached ho
  have hb := hn.bounds
  have hcnt := hn.count
  have hfit := hn.placed.addressable
  have hsmall := hn.placed.small
  have hrec : R.record = R.base + 24 := rfl
  have sa := hR.header hn.entry_left
  have sb := hR.header hn.entry_right
  obtain ⟨hptrA, hptr, hptr0, s0⟩ := hn.reads hR ho
  have hindex : ((pre.length + 2 : Nat) : Int) + 1 = (pre.length + 3 : Nat) := by omega
  have hptrB : chunkPtr m R.record ((pre.length + 2 : Nat) + 1) = b.hdr := by rw [hindex, hptr]
  have hszM : i32 ((b.size : Int) + CHUNK_INFO_SIZE + a.size) = (Chunk.merged hdr a b).size := by
    simp only [Chunk.merged, CHUNK_INFO_SIZE]
    rw [i32_of_range] <;> omega
  have hszA : i32 ((8 * R.count : Nat) - CHUNK_ARR) = (8 * (R.count - 1) : Nat) := by
    simp only [CHUNK_ARR]
    rw [i32_of_range] <;> omega
  have hback : hdr + 24 - CHUNK_INFO_SIZE = hdr := Nat.add_sub_cancel ..
  have hbackA : R.arr + 8 - CHUNK_INFO_SIZE = R.arr - 16 := by
    simp only [CHUNK_INFO_SIZE]
    omega
  unfold mergeRight
  extract_lets r newFree newChunk m1 m2 m3 m4 m5 m6 m7 last
  have er : r = R.record := ho.ptr
  have hfree : newFree = { addr := hdr + 24, base := R.base, flag := UNALLOCATED
                           size := (Chunk.merged hdr a b).size } := by
    simp only [newFree, r, ho.ptr, hptrA, hptrB, sa.size, sb.size, hszM, hR.baseAddr]
  have hchunk : newChunk = { addr := R.arr + 8, base := R.base, flag := RESERVED
                             size := (8 * (R.count - 1) : Nat) } := by
    simp only [newChunk, r, ho.ptr, hptr0, s0, hszA, hR.baseAddr, hR.chunks, CHUNK_ARR]
  have e1 : m1 = storeSmartPtr m (newFree.addr - CHUNK_INFO_SIZE) newFree := rfl
  have e2 : m2 = memmove m1 newChunk.addr (chunks m1 (regionPtr m1 h i))
    (u32 ((pre.length + 2 : Nat) * CHUNK_ARR)) := rfl
  have e3 : m3 = storeSmartPtr m2 (newChunk.addr - CHUNK_INFO_SIZE) newChunk := rfl
  have e4 : m4 = setChunks m3 h i newChunk.addr := rfl
  have e5 : m5 = setChunkPtr m4 h i 0 (newChunk.addr - CHUNK_INFO_SIZE) := rfl
  have e6 : m6 = setChunkPtr m5 h i (pre.length + 2 : Nat) (newFree.addr - CHUNK_INFO_SIZE) := rfl
  have e7 : m7 = setNChunks m6 h i (i32 (nChunks m6 (regionPtr m6 h i) - 1)) := rfl
  have elast : setChunkSize m7 h i last (i32 (chunkSize m7 (chunkPtr m7 (regionPtr m7 h i) last)
      + CHUNK_ARR)) = growTail m7 h i := rfl
  rw [elast]
  clear_value last m7 m6 m5 m4 m3 m2 m1 newFree newChunk r
  subst hfree hchunk er
  clear elast hptr hindex hptrA hptrB hptr0 hszM hszA s0
  have hsz : (Chunk.merged hdr a b).size < 2147483648 := by
    simp only [Chunk.merged]
    omega
  -- Each assignment is one store.
  have h1 : m1 = storeSmartPtr m hdr
      { addr := hdr + 24, base := R.base, flag := UNALLOCATED
        size := (Chunk.merged hdr a b).size } := by
    simp only [e1, hback]
  have v1 : Reached m1 h i R.base (R.base + R.size) R.record R.arr R.count := by
    rw [h1]
    exact hv.write (writesOnly_storeSmartPtr _ _ _) (by omega) (by omega) (by omega) (by omega)
  have h2 : m2 = copy m1 (R.arr + 8) R.arr (8 * (pre.length + 2)) := by
    simp only [e2, v1.ptr, v1.chunks]
    have hlen : u32 ((pre.length + 2 : Nat) * CHUNK_ARR) = 8 * (pre.length + 2) :=
      u32_of_range (by simp only [CHUNK_ARR]; omega) (by omega)
    rw [hlen]
    exact memmove_eq_copy m1 (n := 8 * (pre.length + 2)) (by omega) (by omega) (by omega)
  have v2 : Reached m2 h i R.base (R.base + R.size) R.record R.arr R.count := by
    rw [h2]
    exact v1.write (.copy _ _ _ _) (by omega) (by omega) (by omega) (by omega)
  have h3 : m3 = storeSmartPtr m2 (R.arr - 16)
      { addr := R.arr + 8, base := R.base, flag := RESERVED
        size := (8 * (R.count - 1) : Nat) } := by
    simp only [e3, hbackA]
  have v3 : Reached m3 h i R.base (R.base + R.size) R.record R.arr R.count := by
    rw [h3]
    exact v2.write (writesOnly_storeSmartPtr _ _ _) (by omega) (by omega) (by omega) (by omega)
  have h4 : m4 = storePtr m3 (R.record + 24) (R.arr + 8) := e4.trans (v3.setChunks_eq _)
  have v4 : Reached m4 h i R.base (R.base + R.size) R.record (R.arr + 8) R.count := by
    rw [h4]
    exact v3.moved (by omega) (by omega) (by omega)
  have h5 : m5 = storePtr m4 (R.arr + 8) (R.arr - 16) := by
    simp only [e5, hbackA]
    exact v4.setChunkPtr_eq _ (by omega)
  have v5 : Reached m5 h i R.base (R.base + R.size) R.record (R.arr + 8) R.count := by
    rw [h5]
    exact v4.write (.storePtr _ _ _) (by omega) (by omega) (by omega) (by omega)
  have h6 : m6 = storePtr m5 (R.arr + 8 * (pre.length + 3)) hdr := by
    simp only [e6, hback]
    exact v5.setChunkPtr_eq _ (by omega)
  have v6 : Reached m6 h i R.base (R.base + R.size) R.record (R.arr + 8) R.count := by
    rw [h6]
    exact v5.write (.storePtr _ _ _) (by omega) (by omega) (by omega) (by omega)
  have h7 : m7 = storeInt m6 (R.record + 8) (R.count - 1 : Nat) := by
    have hdec : i32 ((R.count : Int) - 1) = (R.count - 1 : Nat) := by
      rw [i32_of_range] <;> omega
    simp only [e7, v6.ptr, v6.nChunks, hdec]
    exact v6.setNChunks_eq _
  have hkept : ∀ x, Untouched R (pre.length + 3) hdr x → m7 x = m x := by
    intro x hx
    unfold Untouched at hx
    rw [h7, h6, h5, h4, h3, h2, h1, WritesOnly.storeInt _ _ _ _ (by omega),
      WritesOnly.storePtr _ _ _ _ (by omega), WritesOnly.storePtr _ _ _ _ (by omega),
      WritesOnly.storePtr _ _ _ _ (by omega), writesOnly_storeSmartPtr _ _ _ _ (by omega),
      WritesOnly.copy _ _ _ _ _ (by omega), writesOnly_storeSmartPtr _ _ _ _ (by omega)]
  refine ⟨m7, hR.merged hn hlo (by omega) hkept ?_ ?_ ?_ ?_ ?_ ?_ ?_,
    hn.used_kept hlo hkept, fun x hx => hkept x (hn.untouched hx), rfl⟩
  · rw [h7]
    exact loadInt_storeInt_same _ _ (by omega) (by omega)
  · rw [h7]
    exact (loadPtr_storeInt (by omega)).trans v6.chunks
  · rw [h7, h6, loadPtr_storeInt (by omega), loadPtr_storePtr (by omega), h5,
      loadPtr_storePtr_same _ _ (by omega)]
  · intro l hl hold
    have hsource : PointersAt m1 (R.arr + 8) l := by
      refine hold.frame ?_
      rw [h1]
      exact (agree_storeSmartPtr (by omega)).2 (.refl _ _ _)
    have hcopied : PointersAt m2 (R.arr + 16) l := by
      rw [h2]
      exact hsource.copied (by omega)
    refine hcopied.frame ?_
    simp (disch := omega) only [h7, h6, h5, h4, h3, agree_storeInt, agree_storePtr,
      agree_storeSmartPtr, AgreeOn.refl]
  · rw [h7, loadPtr_storeInt (by omega), h6, loadPtr_storePtr_same _ _ (by omega)]
  · refine HeaderAt.frame (m := m3) ?_ ?_
    · rw [h3]
      refine headerAt_storeSmartPtr m2
        { hdr := R.arr - 16, size := 8 * (R.count - 1), flag := .reserved } _ rfl rfl ?_ ?_ ?_ <;>
        simp only [Chunk.addr] <;> omega
    · simp only [Chunk.addr]
      simp (disch := omega) only [h7, h6, h5, h4, agree_storeInt, agree_storePtr, AgreeOn.refl]
  · refine HeaderAt.frame (m := m1) ?_ ?_
    · rw [h1]
      exact headerAt_storeSmartPtr m (.merged hdr a b) _ rfl rfl rfl hsz
        (by simp only [Chunk.addr, Chunk.merged]; omega)
    · simp only [Chunk.addr, Chunk.merged]
      simp (disch := omega) only [h7, h6, h5, h4, h3, h2, agree_storeInt, agree_storePtr,
        agree_storeSmartPtr, agree_copy, AgreeOn.refl]

/-! ## The growth of the tail -/

theorem growTail_spec {t : Chunk} (hR : RegionShape m R) (hp : R.Placed) (ho : Outside m h i R)
    (ht : R.blocks = pre ++ [t]) (hsize : t.size + 8 < 2147483648) :
    RegionShape (growTail m h i) (R.withBlocks (pre ++ [t.grow])) ∧
      usedSize (growTail m h i) R.record = usedSize m R.record ∧
      WritesWithin m (growTail m h i) R.Bookkeeping := by
  have hv := hR.reached ho
  have harr := hp.arr_eq
  have hcnt : R.count = pre.length + 3 := by
    simp [Region.count, ht]
  have htail : R.entries[pre.length + 2]? = some t := by
    simp [Region.entries, ht]
  have hmem : t ∈ R.blocks := by simp [ht]
  have hbound := hp.header_bounds hmem
  have hptr : chunkPtr m R.record ((R.count : Int) - 1) = t.hdr := by
    rw [hv.chunkPtr_eq (x := R.arr + 8 * (pre.length + 2)) (by omega), hR.entry htail]
  have hold := (hR.header htail).size
  have hgrow : i32 ((t.size : Int) + CHUNK_ARR) = (t.size + 8 : Nat) := by
    simp only [CHUNK_ARR]
    rw [i32_of_range] <;> omega
  have hset : growTail m h i = storeInt m t.hdr (t.size + 8 : Nat) := by
    rw [growTail, ho.ptr, hR.nChunks, hptr, hold, hgrow]
    exact hv.setChunkSize_eq _ (x := R.arr + 8 * (pre.length + 2)) (by omega) (hR.entry htail)
  rw [hset]
  have hw := WritesOnly.storeInt m t.hdr (t.size + 8 : Nat)
  have hcount' : (R.withBlocks (pre ++ [t.grow])).count = R.count := by
    simp [Region.count, ht]
  have harr' : (R.withBlocks (pre ++ [t.grow])).arr = R.arr := by
    simp only [Region.arr, hcount', Region.withBlocks_base, Region.withBlocks_size]
  have hrec : R.record = R.base + 24 := rfl
  refine ⟨⟨?_, ?_, ?_, ?_, ?_, ?_⟩, loadInt_congr (hw.agreeOn (by omega)),
    .of_writesOnly hw fun x hlo hhi => .inr (.inr ⟨t, hmem, hlo, by simp only [Chunk.addr]; omega⟩)⟩
  · exact (loadInt_congr (hw.agreeOn (by simp only [Region.withBlocks_record]; omega))).trans
      hR.allocSize
  · rw [hcount']
    exact (loadInt_congr (hw.agreeOn (by simp only [Region.withBlocks_record]; omega))).trans
      hR.nChunks
  · exact (loadPtr_congr (hw.agreeOn (by simp only [Region.withBlocks_record]; omega))).trans
      hR.baseAddr
  · rw [harr']
    exact (loadPtr_congr (hw.agreeOn (by simp only [Region.withBlocks_record]; omega))).trans
      hR.chunks
  · have hsame : (R.withBlocks (pre ++ [t.grow])).entries.map Chunk.hdr
        = R.entries.map Chunk.hdr := by
      have hgrown : t.grow.hdr = t.hdr := rfl
      simp [Region.entries, Region.arrayChunk, Region.infoChunk, harr', ht, hgrown]
    have hlen : (R.entries.map Chunk.hdr).length = R.count := by
      simp [Region.entries, Region.count]
    rw [harr', hsame]
    exact hR.array.frame (hw.agreeOn (by rw [hlen]; omega))
  · have hframe : ∀ c ∈ R.entries, (c.addr ≤ t.hdr ∨ t.addr ≤ c.hdr) →
        HeaderAt (storeInt m t.hdr (t.size + 8 : Nat)) c := by
      intro c hc hd
      simp only [Chunk.addr] at hd
      exact (hR.headers c hc).frame (hw.agreeOn (by simp only [Chunk.addr]; omega))
    intro c hc
    simp only [Region.entries, List.mem_cons, Region.withBlocks_blocks, List.mem_append,
      List.not_mem_nil, or_false] at hc
    rcases hc with rfl | rfl | hc | rfl
    · simp only [Region.arrayChunk, harr', hcount']
      refine hframe R.arrayChunk (by simp [Region.entries]) (.inr ?_)
      simp only [Region.arrayChunk, Chunk.addr]
      omega
    · refine hframe R.infoChunk (by simp [Region.entries]) (.inl ?_)
      simp only [Region.infoChunk, Chunk.addr]
      omega
    · have hord := hp.ordered
      rw [ht] at hord
      exact hframe c (by simp [Region.entries, ht, hc]) (.inl (hord.split.1.bounds hc).2.2)
    · have hhead := hR.header htail
      refine ⟨?_, ?_, ?_⟩
      · exact loadInt_storeInt_same m t.hdr (by omega) (by omega)
      · exact (loadInt_storeInt (by simp only [Chunk.grow]; omega)).trans hhead.flag
      · exact (loadPtr_storeInt (by simp only [Chunk.grow]; omega)).trans hhead.addr

/-! ## Whole merges -/

theorem ascends_growLast {l : List Chunk} {lo hi : Nat} :
    Ascends Chunk.hdr Chunk.addr lo (growLast l) hi ↔ Ascends Chunk.hdr Chunk.addr lo l hi := by
  rcases List.eq_nil_or_concat' l with rfl | ⟨pre, t, rfl⟩
  · rfl
  · simp [Ascends.append_iff, Ascends, Chunk.grow, Chunk.addr]

/-- The blocks after a merge of `a` and `b` to `hdr`. -/
def joined (hdr : Nat) (pre : List Chunk) (a b : Chunk) (rs : List Chunk) : List Chunk :=
  pre ++ growLast (.merged hdr a b :: rs)

theorem joined_hdrs (hdr : Nat) (pre : List Chunk) (a b : Chunk) (rs : List Chunk) :
    (joined hdr pre a b rs).map Chunk.hdr = pre.map Chunk.hdr ++ hdr :: rs.map Chunk.hdr := by
  rw [joined, List.map_append, growLast_hdrs]
  rfl

theorem joined_length (hdr : Nat) (pre : List Chunk) (a b : Chunk) (rs : List Chunk) :
    (joined hdr pre a b rs).length = pre.length + rs.length + 1 := by
  rw [joined, List.length_append, growLast_length, List.length_cons, Nat.add_assoc]

/-- A merge that keeps the left header makes no new bookkeeping. -/
theorem bookkeeping_joined (hb : R.blocks = pre ++ a :: b :: rs) {x : Nat}
    (hx : (R.withBlocks (joined a.hdr pre a b rs)).Bookkeeping x) : R.Bookkeeping x := by
  refine hx.of_withBlocks ?_ ?_
  · rw [joined_length, hb, List.length_append, List.length_cons, List.length_cons]
    omega
  · rw [joined_hdrs, hb, List.map_append]
    exact (List.Sublist.append_left (.cons_cons _ (List.sublist_cons_self _ _)) _).subset

/-- A merge keeps a region sound, also when the header moves. -/
theorem Region.Sound.joined (hs : R.Sound) (hb : R.blocks = pre ++ a :: b :: rs)
    (hlo : a.hdr ≤ hdr) (hhi : hdr ≤ b.hdr) :
    (R.withBlocks (joined hdr pre a b rs)).Sound := by
  have hord := hs.ordered
  rw [hb] at hord
  rcases hord.split with ⟨h1, _, h2, _, h3⟩
  have hcnt : R.count = pre.length + rs.length + 4 := by
    simp [Region.count, hb]
    omega
  have hcnt' : (R.withBlocks (Memory.joined hdr pre a b rs)).count = pre.length + rs.length + 3 := by
    simp [Region.count, Memory.joined]
    omega
  have harr := hs.arr_eq
  have harr' : (R.withBlocks (Memory.joined hdr pre a b rs)).arr = R.arr + 8 := by
    simp only [Region.arr, hcnt', Region.withBlocks_base, Region.withBlocks_size] at harr ⊢
    omega
  have hroom := hs.room
  have htotal : total (Memory.joined hdr pre a b rs) = total R.blocks + 8 := by
    rw [Memory.joined, hb, total_append, total_growLast (by simp)]
    simp [Chunk.merged]
    omega
  refine ⟨⟨hs.small, hs.addressable, ?_, ?_⟩, ?_, ?_⟩
  · rw [hcnt']
    simp only [Region.withBlocks_size]
    omega
  · rw [harr']
    simp only [Region.withBlocks_base, Region.withBlocks_blocks, Memory.joined]
    refine Ascends.append_iff.2 ⟨hdr, h1.mono (Nat.le_refl _) hlo, ?_⟩
    refine ascends_growLast.2 ⟨Nat.le_refl _, Nat.le_add_right _ _, h3.mono ?_ (by omega)⟩
    simp only [Chunk.addr, Chunk.merged]
    omega
  · have hacc := hs.account
    rw [hcnt', Region.withBlocks_blocks, htotal, Region.withBlocks_size]
    omega
  · rcases hs.tail with ⟨ts, t, hts, hfree⟩
    rcases List.eq_nil_or_concat' rs with rfl | ⟨mid, t', rfl⟩
    · exact ⟨pre, (Chunk.merged hdr a b).grow, rfl, rfl⟩
    · refine ⟨pre ++ .merged hdr a b :: mid, t'.grow, ?_, ?_⟩
      · have hlast : Chunk.merged hdr a b :: (mid ++ [t']) = (.merged hdr a b :: mid) ++ [t'] := rfl
        simp only [Region.withBlocks_blocks, Memory.joined, hlast, growLast_concat, List.append_assoc]
      · have hsame : ts ++ [t] = (pre ++ a :: b :: mid) ++ [t'] := by
          rw [← hts, hb]
          simp
        have ht := (List.append_inj' hsame rfl).2
        simp only [List.cons.injEq, and_true] at ht
        simp only [Chunk.grow, ← ht, hfree]

/-- Neither the merged chunk nor the tail counts as used. -/
theorem Region.Sound.used_joined (hs : R.Sound) (hb : R.blocks = pre ++ a :: b :: rs)
    (ha : a.flag ≠ .reserved) (hb' : b.flag ≠ .reserved) :
    (R.withBlocks (Memory.joined hdr pre a b rs)).used = R.used := by
  rcases List.eq_nil_or_concat' rs with rfl | ⟨mid, t, rfl⟩
  · simp [Region.used, hb, Memory.joined, usedBy_cons, growLast, Chunk.grow, Chunk.merged, ha, hb']
  · rcases hs.tail with ⟨ts, t', hts, hfree⟩
    have hsame : ts ++ [t'] = (pre ++ a :: b :: mid) ++ [t] := by
      rw [← hts, hb]
      simp
    obtain rfl : t' = t := by simpa using (List.append_inj' hsame rfl).2
    have hcons : Chunk.merged hdr a b :: (mid ++ [t']) = (.merged hdr a b :: mid) ++ [t'] := rfl
    rw [Region.used, Region.used, Region.withBlocks_blocks, hb, Memory.joined, hcons,
      growLast_concat]
    simp [usedBy_cons, Chunk.grow, Chunk.merged, ha, hb', hfree]

/-- The growth of the tail completes either merge. -/
theorem growTail_joined (hR : RegionShape m (R.withBlocks (pre ++ .merged hdr a b :: rs)))
    (hs : R.Sound) (hn : Neighbours R pre a b rs) (hlo : a.hdr ≤ hdr) (hhi : hdr ≤ b.hdr)
    (ho : Outside m h i (R.withBlocks (pre ++ .merged hdr a b :: rs))) :
    RegionShape (growTail m h i) (R.withBlocks (joined hdr pre a b rs)) ∧
      usedSize (growTail m h i) R.record = usedSize m R.record ∧
      WritesWithin m (growTail m h i) (MergeCell R hdr) := by
  have hp := hn.placed_merged hlo hhi
  have hacc := hs.account
  have hsmall := hs.small
  have hcnt := hn.count
  rcases List.eq_nil_or_concat' rs with rfl | ⟨mid, t, rfl⟩
  · have hsz : a.size + b.size + 48 ≤ total R.blocks := by
      rw [hn.blocks]
      simp
      omega
    rcases growTail_spec (t := .merged hdr a b) hR hp ho rfl
      (by simp only [Chunk.merged]; omega) with ⟨hR', hused, hw⟩
    exact ⟨hR', hused, hw.mono fun _ => hn.bookkeeping_merged⟩
  · have hmem : t ∈ R.blocks := by simp [hn.blocks]
    have hsz := size_le_total hmem
    have hlast : ∀ c : Chunk, pre ++ Chunk.merged hdr a b :: (mid ++ [c])
        = (pre ++ .merged hdr a b :: mid) ++ [c] := by
      simp
    have hjoined : joined hdr pre a b (mid ++ [t])
        = (pre ++ .merged hdr a b :: mid) ++ [t.grow] := by
      have hcons : Chunk.merged hdr a b :: (mid ++ [t]) = (.merged hdr a b :: mid) ++ [t] := rfl
      rw [joined, hcons, growLast_concat, List.append_assoc]
    rcases growTail_spec (t := t) hR hp ho (hlast t) (by omega) with ⟨hR', hused, hw⟩
    rw [hjoined]
    exact ⟨hR', hused, hw.mono fun _ => hn.bookkeeping_merged⟩

theorem Region.Sound.neighbours_small (hs : R.Sound) (hb : R.blocks = pre ++ a :: b :: rs) :
    a.size + b.size + 24 < 2147483648 := by
  have hacc := hs.account
  have hsmall := hs.small
  rw [hb] at hacc
  simp at hacc
  omega

/-- A merge to the left, whatever `used_size` says. -/
theorem mergeLeft_shape (hR : RegionShape m R) (hs : R.Sound) (ho : Outside m h i R)
    (hb : R.blocks = pre ++ a :: b :: rs) (ha : a.flag ≠ .reserved) (hb' : b.flag ≠ .reserved) :
    RegionShape (mergeLeft m h i (pre.length + 3 : Nat)) (R.withBlocks (joined a.hdr pre a b rs)) ∧
      usedSize (mergeLeft m h i (pre.length + 3 : Nat)) R.record = usedSize m R.record ∧
      WritesWithin m (mergeLeft m h i (pre.length + 3 : Nat)) R.Bookkeeping := by
  have hn : Neighbours R pre a b rs := ⟨hb, hs.toPlaced, ha, hb'⟩
  have hbounds := hn.bounds
  rcases mergeLeft_eq hR ho hn (hs.neighbours_small hb) with ⟨m', hR', hused, hw, heq⟩
  rcases growTail_joined hR' hs hn (Nat.le_refl _) (by omega)
    (ho.write (hn.writesOnly (Nat.le_refl _) (by omega) hw) rfl rfl) with ⟨hR'', hused', hw'⟩
  rw [heq]
  refine ⟨hR'', hused'.trans hused, (hw.trans hw').mono ?_⟩
  rintro x (hx | hx)
  · exact hx
  · exact .inr (.inr ⟨a, by simp [hb], hx⟩)

/-- A merge to the right, whatever `used_size` says. -/
theorem mergeRight_shape (hR : RegionShape m R) (hs : R.Sound) (ho : Outside m h i R)
    (hb : R.blocks = pre ++ a :: b :: rs) (ha : a.flag ≠ .reserved) (hb' : b.flag ≠ .reserved)
    (hlo : a.hdr ≤ hdr) (hhi : hdr + 24 ≤ b.hdr) :
    RegionShape (mergeRight m h i (pre.length + 2 : Nat) (hdr + 24))
        (R.withBlocks (joined hdr pre a b rs)) ∧
      usedSize (mergeRight m h i (pre.length + 2 : Nat) (hdr + 24)) R.record = usedSize m R.record ∧
      WritesWithin m (mergeRight m h i (pre.length + 2 : Nat) (hdr + 24)) (MergeCell R hdr) := by
  have hn : Neighbours R pre a b rs := ⟨hb, hs.toPlaced, ha, hb'⟩
  rcases mergeRight_eq hR ho hn hlo hhi (hs.neighbours_small hb) with ⟨m', hR', hused, hw, heq⟩
  rcases growTail_joined hR' hs hn hlo (by omega)
    (ho.write (hn.writesOnly hlo (by omega) hw) rfl rfl) with ⟨hR'', hused', hw'⟩
  rw [heq]
  exact ⟨hR'', hused'.trans hused, hw.trans hw'⟩

end Memory
end EmbeddedOS
