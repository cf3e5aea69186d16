import EmbeddedOS.Memory.SizeAccounting

/-!
# Culling what is not a live block

After its search `cull` goes on with the indices that the search left behind, whether the block was
found or not, and it finds culled blocks, the tail, the region record and the chunk array as well.
None of these calls is harmless: each one reads a region or a chunk that is not there, or takes a
chunk off the used size that was not in use.
-/

namespace EmbeddedOS
namespace Memory

open Base Base.ByteMem Stdlib

variable {m m' : ByteMem} {h i j ptr : Nat} {H : Heap} {R : Region} {pre rs : List Chunk}
  {a c : Chunk}

/-! ## Harmless calls -/

/-- `h->regions[i]->chunks[k]` is a chunk of a user region. -/
def ChunkIn (m : ByteMem) (h i : Nat) (k : Int) : Prop :=
  1 ≤ i ∧ (i : Int) < nRegions m h ∧ 0 ≤ k ∧ k < nChunks m (regionPtr m h i)

/-- The chunks whose flags the two conditions of `cull` read, for chunk `j` of region `i`: each
condition looks at two of them, whatever the first one says. -/
structure FlagsInRange (m : ByteMem) (h i j : Nat) : Prop where
  chunk : ChunkIn m h i j
  before : ChunkIn m h i (j - 1)
  merged : leftFree m h i j = true →
    ChunkIn (mergeLeft m h i j) h i (j - 1) ∧ ChunkIn (mergeLeft m h i j) h i j
  after : leftFree m h i j = false → ChunkIn m h i (j + 1)

/-- After its search, found or not, `cull` looks at chunks of user regions only. -/
def ReadsInRange (m : ByteMem) (h ptr : Nat) : Prop :=
  ∀ found i j, findBlock m h ptr (nRegions m h - 1).toNat 1 0 = (found, i, j) →
    FlagsInRange (if found then markCulled m h i j else m) h i j

/-- The bookkeeping of the region with the record at `r` is the same in both memories. -/
structure SameBookkeeping (m m' : ByteMem) (r : Nat) : Prop where
  allocSize : allocSize m' r = allocSize m r
  usedSize : usedSize m' r = usedSize m r
  nChunks : nChunks m' r = nChunks m r
  chunks : chunks m' r = chunks m r
  entries : ∀ j : Nat, (j : Int) < Memory.nChunks m r → chunkPtr m' r j = chunkPtr m r j ∧
    chunkSize m' (chunkPtr m' r j) = chunkSize m (chunkPtr m r j) ∧
    chunkFlag m' (chunkPtr m' r j) = chunkFlag m (chunkPtr m r j) ∧
    chunkAddr m' (chunkPtr m' r j) = chunkAddr m (chunkPtr m r j)

/-- `cull` looks at user regions and their chunks only, and changes no bookkeeping. -/
structure Harmless (m : ByteMem) (h ptr : Nat) : Prop where
  reads : ReadsInRange m h ptr
  same : ∀ i : Nat, 1 ≤ i → i < nRegions m h → SameBookkeeping m (cull m h ptr) (regionPtr m h i)

/-! ## What the search leaves behind -/

theorem findChunk_true : ∀ {left k : Nat}, findChunk m i ptr left k = (true, j) →
    k ≤ j ∧ j < k + left ∧ chunkAddr m (chunkPtr m i j) = ptr := by
  intro left
  induction left with
  | zero =>
      intro k hfind
      simp [findChunk] at hfind
  | succ left ih =>
      intro k hfind
      rw [findChunk] at hfind
      by_cases hk : chunkAddr m (chunkPtr m i k) = ptr
      · rw [if_pos hk, Prod.mk.injEq] at hfind
        rcases hfind with ⟨_, rfl⟩
        exact ⟨Nat.le_refl _, by omega, hk⟩
      · rw [if_neg hk] at hfind
        rcases ih hfind with ⟨hlo, hhi, haddr⟩
        exact ⟨by omega, by omega, haddr⟩

/-- A block that was found has the address. -/
theorem findBlock_true : ∀ {left k j₀ : Nat}, findBlock m h ptr left k j₀ = (true, i, j) →
    k ≤ i ∧ i < k + left ∧ j < (nChunks m (regionPtr m h i)).toNat ∧
      chunkAddr m (chunkPtr m (regionPtr m h i) j) = ptr := by
  intro left
  induction left with
  | zero =>
      intro k j₀ hfind
      simp [findBlock] at hfind
  | succ left ih =>
      intro k j₀ hfind
      rw [findBlock] at hfind
      rcases hchunk : findChunk m (regionPtr m h k) ptr (nChunks m (regionPtr m h k)).toNat 0 with
        ⟨_ | _, j'⟩
      · simp only [hchunk] at hfind
        rcases ih hfind with ⟨hlo, hhi, hrest⟩
        exact ⟨by omega, by omega, hrest⟩
      · simp only [hchunk, Prod.mk.injEq, true_and] at hfind
        rcases hfind with ⟨rfl, rfl⟩
        rcases findChunk_true hchunk with ⟨_, hhi, haddr⟩
        exact ⟨Nat.le_refl _, by omega, by omega, haddr⟩

/-- Without a match the outer loop ends behind the last region. -/
theorem findBlock_false : ∀ {left k j₀ : Nat}, findBlock m h ptr left k j₀ = (false, i, j) →
    i = k + left := by
  intro left
  induction left with
  | zero =>
      intro k j₀ hfind
      simp only [findBlock, Prod.mk.injEq, true_and] at hfind
      exact hfind.1.symm
  | succ left ih =>
      intro k j₀ hfind
      rw [findBlock] at hfind
      rcases hchunk : findChunk m (regionPtr m h k) ptr (nChunks m (regionPtr m h k)).toNat 0 with
        ⟨_ | _, j'⟩
      · simp only [hchunk] at hfind
        have hi := ih hfind
        omega
      · simp only [hchunk, Prod.mk.injEq, Bool.true_eq_false, false_and] at hfind

/-- A pointer that is not found makes `cull` read a region that does not exist. -/
theorem not_reads_missing (hfind : findBlock m h ptr (nRegions m h - 1).toNat 1 0 = (false, i, j)) :
    ¬ ReadsInRange m h ptr := by
  intro hreads
  have hi := findBlock_false hfind
  have hlt := (hreads false i j hfind).chunk.2.1
  rw [if_neg Bool.false_ne_true] at hlt
  omega

/-- A chunk array that is taken for a block makes `cull` read the chunk before it. -/
theorem not_reads_array (hfind : findBlock m h ptr (nRegions m h - 1).toNat 1 0 = (true, i, 0)) :
    ¬ ReadsInRange m h ptr := by
  intro hreads
  have hlo := (hreads true i 0 hfind).before.2.2.1
  omega

/-! ## The tail -/

/-- The tail taken for a block makes `cull` read the chunk after it. -/
theorem not_reads_tail (hR : RegionShape m R) (hs : R.Sound) (ho : Outside m h i R)
    (hb : R.blocks = pre ++ [c])
    (hfind : findBlock m h ptr (nRegions m h - 1).toNat 1 0 = (true, i, pre.length + 2)) :
    ¬ ReadsInRange m h ptr := by
  rcases markCulled_shape hR hs.toPlaced ho hb with ⟨hmark, _, hwMark⟩
  have ho1 : Outside (markCulled m h i (pre.length + 2 : Nat)) h i
      (R.withBlocks (pre ++ [c.culled])) := ho.write (hs.writesOnly hwMark) rfl rfl
  have hcnt : (R.withBlocks (pre ++ [c.culled])).count = pre.length + 3 := by simp [Region.count]
  have hjc : (R.withBlocks (pre ++ [c.culled])).entries[pre.length + 2]? = some c.culled := by
    simp [Region.entries]
  intro hreads
  have hflags := hreads true i (pre.length + 2) hfind
  rw [if_pos rfl] at hflags
  generalize markCulled m h i (pre.length + 2 : Nat) = m1 at hmark hwMark ho1 hflags
  cases hleft : leftFree m1 h i (pre.length + 2 : Nat) with
  | false =>
    have hlt := (hflags.after hleft).2.2.2
    rw [ho1.ptr, hmark.nChunks, hcnt] at hlt
    omega
  | true =>
    have hlt := (hflags.merged hleft).2.2.2.2
    -- The merge takes the chunk before and counts one chunk less.
    rcases List.eq_nil_or_concat' pre with rfl | ⟨pre', a, rfl⟩
    · have htest := leftFree_eq (f := .reserved) (flagAt_eq hmark ho1 rfl hjc)
        (flagAt_eq hmark ho1 (j := 1) rfl rfl)
      rw [htest] at hleft
      cases hleft
    · have hja : (R.withBlocks (pre' ++ [a] ++ [c.culled])).entries[pre'.length + 2]? = some a := by
        simp [Region.entries]
      have htest := leftFree_eq (flagAt_eq hmark ho1 rfl hjc)
        (flagAt_eq hmark ho1 (j := pre'.length + 2) (by simp; omega) hja)
      rw [htest, decide_eq_true_eq] at hleft
      have hsmall := hs.small
      have hacc := hs.account
      have hsizes : a.size + c.size + 48 ≤ total R.blocks := by
        rw [hb]
        simp
        omega
      have hp1 := hs.toPlaced.mark hb
      have hn : Neighbours (R.withBlocks (pre' ++ [a] ++ [c.culled])) pre' a c.culled [] :=
        ⟨by simp, hp1, hleft, by simp [Chunk.culled]⟩
      have hlen : (pre' ++ [a]).length + 2 = pre'.length + 3 := by simp
      have hculled : c.culled.size = c.size := rfl
      rw [hlen] at hlt
      rcases mergeLeft_eq hmark ho1 hn (by omega) with ⟨m2, hmerged, _, hw2, heq⟩
      have hbn := hn.bounds
      have ho2 : Outside m2 h i (R.withBlocks (pre' ++ [.merged a.hdr a c.culled])) :=
        ho1.write (hn.writesOnly (Nat.le_refl _) (by omega) hw2) rfl rfl
      have hp2 := hn.placed_merged (Nat.le_refl _) (show a.hdr ≤ c.culled.hdr by omega)
      rcases growTail_spec hmerged hp2 ho2 rfl (by simp only [Chunk.merged]; omega) with
        ⟨hgrown, _, hw3⟩
      have ho3 : Outside _ h i
          (R.withBlocks (pre' ++ [(Chunk.merged a.hdr a c.culled).grow])) :=
        ho2.write (hp2.writesOnly hw3) rfl rfl
      have hcount := hgrown.nChunks
      rw [heq, ho3.ptr] at hlt
      simp only [Region.withBlocks_record] at hcount hlt
      rw [hcount] at hlt
      simp [Region.count] at hlt
      omega

/-! ## The region record -/

/-- The merge of the region record with the chunk behind it leaves `used_size` alone. -/
theorem mergeRight_record (v : Reached m h i R.base (R.base + R.size) R.record R.arr R.count)
    (hp : R.Placed) (harray : PointersAt m R.arr (R.entries.map Chunk.hdr)) (hne : R.blocks ≠ []) :
    usedSize (mergeRight m h i 1 R.record) R.record = usedSize m R.record := by
  have harr := hp.arr_eq
  have hsmall := hp.small
  have hfit := hp.addressable
  have hrec : R.record = R.base + 24 := rfl
  rcases List.eq_nil_or_concat' R.blocks with hnil | ⟨pre, t, hb⟩
  · exact absurd hnil hne
  have hcnt : R.count = pre.length + 3 := by simp [Region.count, hb]
  have ht := hp.header_bounds (show t ∈ R.blocks by simp [hb])
  have hlastPtr : loadPtr m (R.arr + 8 * (pre.length + 2)) = t.hdr :=
    harray (pre.length + 2) t.hdr (by simp [Region.entries, hb])
  unfold mergeRight
  extract_lets r newFree newChunk m1 m2 m3 m4 m5 m6 m7 last
  have hfree : newFree.addr = R.record := rfl
  have hchunk : newChunk.addr = R.arr + 8 := by
    simp only [newChunk, r, v.ptr, v.chunks, CHUNK_ARR]
  have hback : newFree.addr - CHUNK_INFO_SIZE = R.base := by
    rw [hfree, hrec]
    exact Nat.add_sub_cancel ..
  have hbackA : newChunk.addr - CHUNK_INFO_SIZE = R.arr - 16 := by
    rw [hchunk]
    simp only [CHUNK_INFO_SIZE]
    omega
  have e1 : m1 = storeSmartPtr m (newFree.addr - CHUNK_INFO_SIZE) newFree := rfl
  have e2 : m2 = memmove m1 newChunk.addr (chunks m1 (regionPtr m1 h i)) (u32 (1 * CHUNK_ARR)) := rfl
  have e3 : m3 = storeSmartPtr m2 (newChunk.addr - CHUNK_INFO_SIZE) newChunk := rfl
  have e4 : m4 = setChunks m3 h i newChunk.addr := rfl
  have e5 : m5 = setChunkPtr m4 h i 0 (newChunk.addr - CHUNK_INFO_SIZE) := rfl
  have e6 : m6 = setChunkPtr m5 h i 1 (newFree.addr - CHUNK_INFO_SIZE) := rfl
  have e7 : m7 = setNChunks m6 h i (i32 (nChunks m6 (regionPtr m6 h i) - 1)) := rfl
  have elast : last = nChunks m7 (regionPtr m7 h i) - 1 := rfl
  rw [hback] at e1 e6
  rw [hbackA] at e3 e5
  rw [hchunk] at e2 e4
  clear_value last m7 m6 m5 m4 m3 m2 m1 newFree newChunk r
  -- No store comes near the field: the header at the base, the array, two fields of the record.
  have v1 : Reached m1 h i R.base (R.base + R.size) R.record R.arr R.count := by
    rw [e1]
    exact v.write (writesOnly_storeSmartPtr _ _ _) (by omega) (by omega) (by omega) (by omega)
  have h2 : m2 = copy m1 (R.arr + 8) R.arr 8 := by
    have hlen : u32 (1 * CHUNK_ARR) = 8 := by decide
    rw [e2, hlen, v1.ptr, v1.chunks]
    exact memmove_eq_copy m1 (by omega) (by omega) (by omega)
  have v2 : Reached m2 h i R.base (R.base + R.size) R.record R.arr R.count := by
    rw [h2]
    exact v1.write (.copy _ _ _ _) (by omega) (by omega) (by omega) (by omega)
  have v3 : Reached m3 h i R.base (R.base + R.size) R.record R.arr R.count := by
    rw [e3]
    exact v2.write (writesOnly_storeSmartPtr _ _ _) (by omega) (by omega) (by omega) (by omega)
  have h4 : m4 = storePtr m3 (R.record + 24) (R.arr + 8) := e4.trans (v3.setChunks_eq _)
  have v4 : Reached m4 h i R.base (R.base + R.size) R.record (R.arr + 8) R.count := by
    rw [h4]
    exact v3.moved (by omega) (by omega) (by omega)
  have h5 : m5 = storePtr m4 (R.arr + 8) (R.arr - 16) := e5.trans (v4.setChunkPtr_eq _ (by omega))
  have v5 : Reached m5 h i R.base (R.base + R.size) R.record (R.arr + 8) R.count := by
    rw [h5]
    exact v4.write (.storePtr _ _ _) (by omega) (by omega) (by omega) (by omega)
  have h6 : m6 = storePtr m5 (R.arr + 16) R.base := e6.trans (v5.setChunkPtr_eq _ (by omega))
  have v6 : Reached m6 h i R.base (R.base + R.size) R.record (R.arr + 8) R.count := by
    rw [h6]
    exact v5.write (.storePtr _ _ _) (by omega) (by omega) (by omega) (by omega)
  have h7 : m7 = storeInt m6 (R.record + 8) (R.count - 1 : Nat) := by
    have hdec : i32 ((R.count : Int) - 1) = (R.count - 1 : Nat) :=
      (i32_of_range (by omega) (by omega)).trans (by omega)
    simp only [e7, v6.ptr, v6.nChunks, hdec]
    exact v6.setNChunks_eq _
  have v7 : Reached m7 h i R.base (R.base + R.size) R.record (R.arr + 8) (R.count - 1) := by
    rw [h7]
    exact v6.counted (by omega) (by omega) (by omega)
  -- The last chunk is the merged one or the tail.
  obtain ⟨x, hx, hxlo⟩ : ∃ x, loadPtr m7 (R.arr + 8 * (pre.length + 2)) = x ∧
      (x = R.base ∨ x = t.hdr) := by
    cases pre with
    | nil =>
        refine ⟨R.base, ?_, .inl rfl⟩
        rw [h7, loadPtr_storeInt (by simp only [List.length_nil]; omega), h6]
        exact loadPtr_storePtr_same _ _ (by omega)
    | cons c pre =>
        refine ⟨t.hdr, ?_, .inr rfl⟩
        simp only [List.length_cons] at hcnt hlastPtr ⊢
        rw [h7, loadPtr_storeInt (by omega), h6, loadPtr_storePtr (by omega), h5,
          loadPtr_storePtr (by omega), h4, loadPtr_storePtr (by omega), e3,
          loadPtr_storeSmartPtr (by omega), h2, ← hlastPtr]
        refine (loadPtr_congr ((WritesOnly.copy m1 _ _ _).agreeOn (by omega))).trans ?_
        rw [e1]
        exact loadPtr_storeSmartPtr (by omega)
  have hset : ∀ y, setChunkSize m7 h i last y = storeInt m7 x y := by
    intro y
    refine v7.setChunkSize_eq y (x := R.arr + 8 * (pre.length + 2)) ?_ hx
    rw [elast, v7.ptr, v7.nChunks]
    omega
  rw [hset]
  refine loadInt_congr (a := R.record + 4) fun z hlo hhi => ?_
  rw [WritesOnly.storeInt _ _ _ _ (by omega), h7, WritesOnly.storeInt _ _ _ _ (by omega), h6,
    WritesOnly.storePtr _ _ _ _ (by omega), h5, WritesOnly.storePtr _ _ _ _ (by omega), h4,
    WritesOnly.storePtr _ _ _ _ (by omega), e3, writesOnly_storeSmartPtr _ _ _ _ (by omega), h2,
    WritesOnly.copy _ _ _ _ _ (by omega), e1, writesOnly_storeSmartPtr _ _ _ _ (by omega)]

/-- `cull` of a region record takes it off the used size. -/
theorem cull_record (hR : RegionShape m R) (hs : R.Sound) (ho : Outside m h i R)
    (hfind : findBlock m h R.record (nRegions m h - 1).toNat 1 0 = (true, i, 1)) :
    usedSize (cull m h R.record) R.record = usedAfter m R R.infoChunk := by
  have hv := hR.reached ho
  have harr := hs.arr_eq
  have hrec : R.record = R.base + 24 := rfl
  have hinfo : R.entries[1]? = some R.infoChunk := rfl
  have hmark := markCulled_eq hR hs.toPlaced ho hinfo (Nat.le_refl _) (.inl (Nat.le_refl _))
    (show R.base + 24 ≤ R.arr by omega)
  obtain ⟨hlo, hhi⟩ : -2147483648 ≤ usedAfter m R R.infoChunk ∧ usedAfter m R R.infoChunk < 2147483648 :=
    i32_bounds _
  generalize usedAfter m R R.infoChunk = u at hmark hlo hhi ⊢
  obtain ⟨m0, h0⟩ : ∃ m0, m0 = storeInt m (R.base + 4) CULLED := ⟨_, rfl⟩
  obtain ⟨m1, h1⟩ : ∃ m1, m1 = markCulled m h i (1 : Nat) := ⟨_, rfl⟩
  have hm1 : m1 = storeInt m0 (R.record + 4) u := by
    rw [h1, h0]
    exact hmark
  have hflag : chunkFlag m1 R.base = CULLED := by
    rw [chunkFlag, hm1, loadInt_storeInt (by omega), h0]
    exact loadInt_storeInt_same _ _ (by decide) (by decide)
  have hused : usedSize m1 R.record = u := by
    rw [usedSize, hm1]
    exact loadInt_storeInt_same _ _ hlo hhi
  have hw : WritesOnly m m1 (R.base + 4) (R.record + 8) := by
    intro x hx
    rw [hm1, WritesOnly.storeInt _ _ _ _ (by omega), h0, WritesOnly.storeInt _ _ _ _ (by omega)]
  have v1 : Reached m1 h i R.base (R.base + R.size) R.record R.arr R.count :=
    hv.write hw (by omega) (by omega) (by omega) (by omega)
  have harray : PointersAt m1 R.arr (R.entries.map Chunk.hdr) :=
    hR.array.frame (hw.agreeOn (by omega))
  have hleft : leftFree m1 h i (1 : Nat) = false := by
    have hhead := (hR.header (j := 0) (c := R.arrayChunk) rfl).flag
    have hptr0 : loadPtr m1 (R.arr + 8 * 0) = R.arr - 24 := harray 0 _ rfl
    have hptr1 : loadPtr m1 (R.arr + 8 * 1) = R.base := harray 1 _ rfl
    refine (leftFree_eq (f := .reserved) ?_ ?_).trans (by decide)
    · rw [flagAt, v1.ptr, v1.chunkPtr_eq (x := R.arr + 8 * 1) (by omega), hptr1]
      exact hflag
    · rw [flagAt, v1.ptr, v1.chunkPtr_eq (x := R.arr + 8 * 0) (by omega), hptr0]
      exact (loadInt_congr (a := R.arr - 24 + 4) (hw.agreeOn (by omega))).trans hhead
  unfold cull
  simp only [hfind, if_true]
  rw [← h1, hleft]
  simp only [Bool.false_eq_true, if_false]
  by_cases hright : rightFree m1 h i (1 : Nat) = true
  · rcases hs.tail with ⟨ts, t, hts, _⟩
    rw [if_pos hright, Nat.cast_one, mergeRight_record v1 hs.toPlaced harray (by simp [hts])]
    exact hused
  · rw [if_neg hright]
    exact hused

/-! ## No harmless call -/

/-- The used size that is left is not the one before. -/
theorem usedAfter_ne (hs : R.Sound) (hc : c ∈ R.entries) : usedAfter m R c ≠ usedSize m R.record := by
  have hsize : c.size < 2147483648 := by
    have hsmall := hs.small
    have hacc := hs.account
    simp only [Region.entries, List.mem_cons] at hc
    rcases hc with rfl | rfl | hc
    · simp only [Region.arrayChunk]
      omega
    · simp only [Region.infoChunk]
      omega
    · have hle := size_le_total hc
      omega
  obtain ⟨hlo, hhi⟩ : -2147483648 ≤ usedSize m R.record ∧ usedSize m R.record < 2147483648 :=
    i32_bounds _
  rw [usedAfter]
  generalize usedSize m R.record = x at hlo hhi ⊢
  rw [i32_eq]
  omega

/-- **No call is harmless.** A pointer that is not the address of a live block makes `cull` read a
region or a chunk that does not exist, or change a used size. -/
theorem cull_never_harmless (hH : HeapAt m h H) (hP : HeapPlaced H)
    (hdead : ∀ z, ¬ Live m h (ptr, z)) : ¬ Harmless m h ptr := by
  rintro ⟨hreads, hsame⟩
  rcases hfind : findBlock m h ptr (nRegions m h - 1).toNat 1 0 with ⟨_ | _, i, j⟩
  · exact not_reads_missing hfind hreads
  rcases findBlock_true hfind with ⟨hlo, hhi, hj, haddr⟩
  have hi : (i : Int) < nRegions m h := by omega
  have hunchanged := (hsame i hlo hi).usedSize
  rcases hH.user_index hlo hi with ⟨us, R, vs, husers, rfl, hptr⟩
  have hp : Picked H us R vs := ⟨husers, hP⟩
  have hR := hH.users R hp.mem
  have hs := hp.sound
  have ho := hH.outside hp
  rw [hptr] at hj haddr hunchanged
  rw [hR.nChunks, Int.toNat_natCast] at hj
  obtain ⟨c, hentry⟩ : ∃ c, R.entries[j]? = some c := ⟨_, List.getElem?_eq_getElem hj⟩
  rw [chunkAddr_entry hR hentry] at haddr
  rcases j with _ | _ | k
  · exact not_reads_array hfind hreads
  · obtain rfl : R.infoChunk = c := Option.some.inj hentry
    obtain rfl : R.record = ptr := haddr
    rw [cull_record hR.shape hs ho hfind] at hunchanged
    exact usedAfter_ne hs (List.mem_of_getElem? hentry) hunchanged
  · rcases exists_split (show R.blocks[k]? = some c from hentry) with ⟨pre, rs, hb, rfl⟩
    by_cases hrs : rs = []
    · subst hrs
      exact not_reads_tail hR.shape hs ho hb hfind hreads
    · subst haddr
      rcases cull_shape hR.shape hs ho hb hrs hfind with ⟨l, _, _, hused, _⟩
      rw [hused] at hunchanged
      exact usedAfter_ne hs (List.mem_of_getElem? hentry) hunchanged

/-- No block has the address 0. -/
theorem null_not_live {s : Machine} {live : List (Nat × Nat)} {z : Nat} (hinv : HeapInv h live s H) :
    ¬ Live s.mem h (0, z) := by
  intro hlive
  rcases hinv.live_iff.1 hlive with ⟨R, _, c, _, _, hcz⟩
  exact absurd (congrArg Prod.fst hcz) (Nat.succ_ne_zero _)

/-- `NULL` in a new heap. -/
theorem cull_never_harmless_null : ∃ s, Created 4096 4096 4176 s ∧ ¬ Harmless s.mem 4176 0 := by
  rcases exists_created with ⟨s, hcreated, hready, _⟩
  exact ⟨s, hcreated, cull_never_harmless hready.image hready.placed fun z =>
    null_not_live (hready.inv tiled_new_heap)⟩

/-- `cull` of `NULL` in a new heap of two regions reads `regions[2]`. -/
theorem cull_null_new_heap : ∃ s, Created 4096 4096 4176 s ∧ (∀ z, ¬ Live s.mem 4176 (0, z)) ∧
    ¬ Harmless s.mem 4176 0 := by
  rcases exists_created with ⟨s, hcreated, hready, _⟩
  refine ⟨s, hcreated, fun z => null_not_live (hready.inv tiled_new_heap), ?_⟩
  rintro ⟨hreads, _⟩
  rcases hfind : findBlock s.mem 4176 0 (nRegions s.mem 4176 - 1).toNat 1 0 with ⟨_ | _, i, j⟩
  · exact not_reads_missing hfind hreads
  · rcases findBlock_true hfind with ⟨hlo, hhi, hj, haddr⟩
    rcases hready.image.user_index hlo (by omega) with ⟨us, R, vs, husers, rfl, hptr⟩
    have hR := hready.image.users R (by rw [husers]; simp)
    rw [hptr] at hj haddr
    rw [hR.nChunks, Int.toNat_natCast] at hj
    rw [chunkAddr_entry hR (List.getElem?_eq_getElem hj)] at haddr
    exact absurd haddr (Nat.succ_ne_zero _)

end Memory
end EmbeddedOS
