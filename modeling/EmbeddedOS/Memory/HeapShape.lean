import EmbeddedOS.Memory.HeapCalls

/-!
# The layout that a heap shows in memory

Read through the pointers of the heap record: the chunk array ends each user region, every entry
points to a header right before the payload it names, and the pieces cover the region. The blocks
that were handed out are chunks in use, beside each other and beside the bookkeeping.
-/

namespace EmbeddedOS
namespace Memory

open Base Base.ByteMem Stdlib

variable {m : ByteMem} {h : Nat} {H : Heap} {R Q : Region} {us vs : List Region}
  {s : Machine} {live : List (Nat × Nat)} {b : Nat × Nat} {c d : Chunk}

/-! ## The layout -/

/-- First and last address of the piece of chunk `j`: its header and its payload. -/
def pieceAt (m : ByteMem) (r j : Nat) : Nat × Nat :=
  (chunkPtr m r j, chunkAddr m (chunkPtr m r j) + (chunkSize m (chunkPtr m r j)).toNat)

/-- The pieces of chunks `1` to `n_chunks - 1` and that of chunk `0`. -/
def piecesAt (m : ByteMem) (r : Nat) : List (Nat × Nat) :=
  (List.range' 1 ((nChunks m r).toNat - 1) ++ [0]).map (pieceAt m r)

/-- The region with the record at `r` is laid out as the heap promises. -/
structure LaidOut (m : ByteMem) (r : Nat) : Prop where
  arrayLast : chunks m r + 8 * (nChunks m r).toNat = baseAddr m r + (allocSize m r).toNat
  headers : ∀ j, j < (nChunks m r).toNat →
    chunkAddr m (chunkPtr m r j) = chunkPtr m r j + CHUNK_INFO_SIZE
  tiles : Tiles Prod.fst Prod.snd (baseAddr m r) (piecesAt m r)
    (baseAddr m r + (allocSize m r).toNat)

/-- `b` is a block in use of the region with the record at `r`, and lies inside the region. -/
def BlockOf (m : ByteMem) (r : Nat) (b : Nat × Nat) : Prop :=
  (∃ j, 2 ≤ j ∧ j < (nChunks m r).toNat ∧ chunkAddr m (chunkPtr m r j) = b.1 ∧
    chunkSize m (chunkPtr m r j) = b.2 ∧ chunkFlag m (chunkPtr m r j) = RESERVED) ∧
  baseAddr m r ≤ b.1 ∧ b.1 + b.2 ≤ baseAddr m r + (allocSize m r).toNat

/-- `b` is a block in use of a user region of the heap. -/
def Live (m : ByteMem) (h : Nat) (b : Nat × Nat) : Prop :=
  ∃ i : Nat, 1 ≤ i ∧ i < nRegions m h ∧ BlockOf m (regionPtr m h i) b

/-- `b` overlaps nothing of the bookkeeping of the region with the record at `r`. -/
structure Clear (m : ByteMem) (r : Nat) (b : Nat × Nat) : Prop where
  record : NoOverlap b (r, REGION_INFO_SIZE)
  array : NoOverlap b (chunks m r, CHUNK_ARR * (nChunks m r).toNat)
  headers : ∀ j, j < (nChunks m r).toNat → NoOverlap b (chunkPtr m r j, CHUNK_INFO_SIZE)

/-- The regions are laid out as promised, and the blocks of `live` are blocks in use, clear of each
other and of the bookkeeping. -/
structure HeapLayout (m : ByteMem) (h : Nat) (live : List (Nat × Nat)) : Prop where
  regions : ∀ i : Nat, 1 ≤ i → i < nRegions m h → LaidOut m (regionPtr m h i)
  blocks : ∀ b ∈ live, ∃ i : Nat, 1 ≤ i ∧ i < nRegions m h ∧ BlockOf m (regionPtr m h i) b
  disjoint : live.Pairwise NoOverlap
  clear : ∀ b ∈ live, ∀ i : Nat, 1 ≤ i → i < nRegions m h → Clear m (regionPtr m h i) b

/-! ## Regions -/

theorem pieceAt_entry (hR : RegionAt m R) {j : Nat} (hc : R.entries[j]? = some c) :
    pieceAt m R.record j = (c.hdr, c.stop) := by
  have hhead := hR.header hc
  rw [pieceAt, hR.chunkPtr hc, hhead.addr, hhead.size, Int.toNat_natCast]
  rfl

theorem piecesAt_eq (hR : RegionAt m R) :
    piecesAt m R.record = R.pieces.map (fun c => (c.hdr, c.stop)) := by
  have hzero : R.entries[0]? = some R.arrayChunk := rfl
  have hpieces : R.pieces = R.entries.tail ++ [R.arrayChunk] := rfl
  rw [piecesAt, hR.nChunks, Int.toNat_natCast, hpieces, List.map_append, List.map_append,
    List.map_singleton, List.map_singleton, pieceAt_entry hR hzero]
  congr 1
  refine List.ext_getElem ?_ ?_
  · simp [Region.count, Region.entries]
  · intro j h1 h2
    have hlt : j + 1 < R.entries.length := by
      rw [List.length_map, List.length_tail] at h2
      omega
    have hj : R.entries[1 + j]? = some R.entries[j + 1] := by
      rw [Nat.add_comm]
      exact List.getElem?_eq_getElem hlt
    rw [List.getElem_map, List.getElem_range', List.getElem_map, List.getElem_tail, Nat.one_mul,
      pieceAt_entry hR hj]

/-- In memory a region shows the promised layout exactly if its pieces tile it. -/
theorem RegionAt.laidOut_iff (hR : RegionAt m R) (hp : R.Placed) :
    LaidOut m R.record ↔ R.Tiled := by
  have harr := hp.arr_eq
  have htiles : Tiles Prod.fst Prod.snd (Memory.baseAddr m R.record) (piecesAt m R.record)
      (Memory.baseAddr m R.record + (Memory.allocSize m R.record).toNat) ↔ R.Tiled := by
    rw [piecesAt_eq hR, Tiles.map_iff, hR.baseAddr, hR.allocSize, Int.toNat_natCast, Region.Tiled]
  constructor
  · intro hlaid
    exact htiles.1 hlaid.tiles
  · intro htiled
    refine ⟨?_, ?_, htiles.2 htiled⟩
    · rw [hR.chunks, hR.nChunks, hR.baseAddr, hR.allocSize, Int.toNat_natCast, Int.toNat_natCast]
      exact harr.1
    · intro j hj
      rw [hR.nChunks, Int.toNat_natCast] at hj
      have hlt : j < R.entries.length := hj
      have hc : R.entries[j]? = some R.entries[j] := List.getElem?_eq_getElem hlt
      rw [hR.chunkPtr hc]
      exact (hR.header hc).addr

/-! ## Blocks -/

theorem RegionAt.blockOf (hR : RegionAt m R) (hs : R.Sound) (hf : R.Fenced) (hc : c ∈ R.blocks)
    (hflag : c.flag = .reserved) : BlockOf m R.record (c.addr, c.size) := by
  have hb := hs.inUse_bounds hf hc hflag
  have harr := hs.arr_eq
  rcases List.mem_iff_getElem?.1 hc with ⟨j, hj⟩
  have hentry : R.entries[j + 2]? = some c := hj
  have hlt : j < R.blocks.length := (List.getElem?_eq_some_iff.1 hj).1
  have hhead := hR.header hentry
  refine ⟨⟨j + 2, Nat.le_add_left _ _, ?_, ?_, ?_, ?_⟩, ?_, ?_⟩
  · rw [hR.nChunks, Int.toNat_natCast]
    exact Nat.add_lt_add_right hlt 2
  · rw [hR.chunkPtr hentry]
    exact hhead.addr
  · rw [hR.chunkPtr hentry]
    exact hhead.size
  · rw [hR.chunkPtr hentry, hhead.flag, hflag]
    rfl
  · rw [hR.baseAddr]
    simp only [Chunk.addr]
    omega
  · rw [hR.baseAddr, hR.allocSize, Int.toNat_natCast]
    simp only [Chunk.stop, Chunk.addr] at hb ⊢
    omega

/-- In memory the blocks in use are the chunks in use. -/
theorem RegionAt.blockOf_iff (hR : RegionAt m R) (hs : R.Sound) (hf : R.Fenced) :
    BlockOf m R.record b ↔ R.InUse b := by
  constructor
  · rintro ⟨⟨j, hlo, hhi, haddr, hsize, hflag⟩, _⟩
    rw [hR.nChunks, Int.toNat_natCast] at hhi
    rcases Nat.exists_eq_add_of_le' hlo with ⟨k, rfl⟩
    have hlt : k < R.blocks.length := Nat.lt_of_add_lt_add_right hhi
    have hc : R.entries[k + 2]? = some R.blocks[k] := List.getElem?_eq_getElem hlt
    have hhead := hR.header hc
    rw [hR.chunkPtr hc] at haddr hsize hflag
    refine ⟨R.blocks[k], List.getElem_mem hlt, ?_, Prod.ext (hhead.addr.symm.trans haddr) ?_⟩
    · by_contra hne
      exact code_reserved hne (hhead.flag.symm.trans hflag)
    · have hcast := hhead.size.symm.trans hsize
      omega
  · rintro ⟨c, hc, hflag, rfl⟩
    exact hR.blockOf hs hf hc hflag

/-- A block is clear of the bookkeeping of its own region. -/
theorem RegionAt.clear (hR : RegionAt m R) (hs : R.Sound) (hf : R.Fenced) (hc : c ∈ R.blocks)
    (hflag : c.flag = .reserved) : Clear m R.record (c.addr, c.size) := by
  have hb := hs.inUse_bounds hf hc hflag
  have harr := hs.arr_eq
  have hrec : R.record = R.base + 24 := rfl
  have haddr : c.addr = c.hdr + 24 := rfl
  have hstop : c.stop = c.hdr + 24 + c.size := rfl
  refine ⟨?_, ?_, ?_⟩
  · simp only [NoOverlap, REGION_INFO_SIZE]
    omega
  · rw [hR.chunks]
    simp only [NoOverlap]
    omega
  · intro j hj
    rw [hR.nChunks, Int.toNat_natCast] at hj
    have hlt : j < R.entries.length := hj
    have hd : R.entries[j]? = some R.entries[j] := List.getElem?_eq_getElem hlt
    rw [hR.chunkPtr hd]
    have hmem := List.getElem_mem hlt
    generalize R.entries[j] = d at hmem
    simp only [NoOverlap, CHUNK_INFO_SIZE]
    simp only [Region.entries, List.mem_cons] at hmem
    rcases hmem with rfl | rfl | hmem
    · simp only [Region.arrayChunk]
      omega
    · simp only [Region.infoChunk]
      omega
    · by_cases heq : d = c
      · subst heq
        omega
      · have hapart := hs.inUse_apart hf hc hflag hmem heq
        have hdaddr : d.addr = d.hdr + 24 := rfl
        omega

/-- What lies beside a region is clear of its bookkeeping. -/
theorem RegionAt.clear_beside (hR : RegionAt m R) (hp : R.Placed)
    (hbeside : NoOverlap b (R.base, R.size)) : Clear m R.record b := by
  have harr := hp.arr_eq
  have hrec : R.record = R.base + 24 := rfl
  simp only [NoOverlap] at hbeside
  refine ⟨?_, ?_, ?_⟩
  · simp only [NoOverlap, REGION_INFO_SIZE]
    omega
  · rw [hR.chunks, hR.nChunks, Int.toNat_natCast]
    simp only [NoOverlap, CHUNK_ARR]
    omega
  · intro j hj
    rw [hR.nChunks, Int.toNat_natCast] at hj
    have hlt : j < R.entries.length := hj
    have hd : R.entries[j]? = some R.entries[j] := List.getElem?_eq_getElem hlt
    rw [hR.chunkPtr hd]
    have hbound := hp.entry_bounds (List.getElem_mem hlt)
    generalize R.entries[j] = d at hbound
    have haddr : d.addr = d.hdr + 24 := rfl
    simp only [NoOverlap, CHUNK_INFO_SIZE]
    omega

/-! ## Heaps -/

theorem HeapAt.user_index (hH : HeapAt m h H) {i : Nat} (hlo : 1 ≤ i)
    (hhi : i < Memory.nRegions m h) :
    ∃ us R vs, H.users = us ++ R :: vs ∧ us.length + 1 = i ∧ regionPtr m h i = R.record := by
  have hcnt : H.count = H.users.length + 1 := rfl
  rw [hH.nRegions, hcnt] at hhi
  rcases Nat.exists_eq_add_of_le' hlo with ⟨k, rfl⟩
  have hk : k < H.users.length := by omega
  have hget : H.users[k]? = some H.users[k] := List.getElem?_eq_getElem hk
  rcases exists_split hget with ⟨us, vs, husers, hlen⟩
  exact ⟨us, _, vs, husers, by rw [hlen], hH.regionPtr_eq hget⟩

/-- In memory the blocks in use are those of the heap. -/
theorem HeapInv.live_iff (hinv : HeapInv h live s H) :
    Live s.mem h b ↔ ∃ R ∈ H.users, R.InUse b := by
  have hH := hinv.ready.image
  constructor
  · rintro ⟨i, hlo, hhi, hblock⟩
    rcases hH.user_index hlo hhi with ⟨us, R, vs, husers, rfl, hptr⟩
    have hp : Picked H us R vs := ⟨husers, hinv.ready.placed⟩
    rw [hptr] at hblock
    exact ⟨R, hp.mem, ((hH.users R hp.mem).blockOf_iff hp.sound (hinv.fenced R hp.mem)).1 hblock⟩
  · rintro ⟨R, hR, huse⟩
    rcases List.append_of_mem hR with ⟨us, vs, husers⟩
    refine ⟨us.length + 1, Nat.le_add_left _ _, ?_, ?_⟩
    · rw [hH.nRegions, Heap.count, husers, List.length_append, List.length_cons]
      omega
    · rw [hH.regionPtr_eq (k := us.length) (R := R) (by simp [husers])]
      exact ((hH.users R hR).blockOf_iff (hinv.ready.placed.sound R hR) (hinv.fenced R hR)).2 huse

/-- The test of `alloc` compares the size of the last chunk of a user region with an `int`. -/
theorem HeapAt.fits_iff_i32 (hH : HeapAt m h H) (hP : HeapPlaced H) {i n : Nat} (hlo : 1 ≤ i)
    (hhi : i < Memory.nRegions m h) :
    fits m h i n = true ↔ i32 ((n : Int) + 32) < chunkSize m (tailPtr m h i) := by
  rcases hH.user_index hlo hhi with ⟨us, R, vs, husers, rfl, hptr⟩
  have hp : Picked H us R vs := ⟨husers, hP⟩
  have hR := hH.users R hp.mem
  rcases hp.sound.tail with ⟨pre, t, hb, hfree⟩
  rcases tailPtr_eq hR hb hptr with ⟨htail, hhead⟩
  rw [Memory.fits_iff_i32 hR hb hfree hptr, htail, hhead.size]

/-- The test of `alloc` says that the last chunk of a user region is large enough. -/
theorem HeapAt.fits_iff_size (hH : HeapAt m h H) (hP : HeapPlaced H) {i n : Nat} (hlo : 1 ≤ i)
    (hhi : i < Memory.nRegions m h) (hn : n + 32 < 2147483648) :
    fits m h i n = true ↔ (n : Int) + 32 < chunkSize m (tailPtr m h i) := by
  rw [hH.fits_iff_i32 hP hlo hhi, i32_of_range (by omega) (by omega)]

/-- The invariant of a tiled heap shows in memory. -/
theorem HeapInv.layout (hinv : HeapInv h live s H) (ht : H.Tiled) : HeapLayout s.mem h live := by
  have hH := hinv.ready.image
  refine ⟨?_, ?_, ?_, ?_⟩
  · intro i hlo hhi
    rcases hH.user_index hlo hhi with ⟨us, R, vs, husers, rfl, hptr⟩
    have hp : Picked H us R vs := ⟨husers, hinv.ready.placed⟩
    rw [hptr]
    exact ((hH.users R hp.mem).laidOut_iff hp.sound.toPlaced).2 (ht R hp.mem)
  · intro b hb
    rcases hinv.pick hb with ⟨us, R, vs, pre, c, rs, husers, hblocks, hflag, rfl⟩
    have hp : Picked H us R vs := ⟨husers, hinv.ready.placed⟩
    have hptr := hH.regionPtr_eq (k := us.length) (R := R) (by simp [husers])
    refine ⟨us.length + 1, Nat.le_add_left _ _, ?_, ?_⟩
    · rw [hH.nRegions, Heap.count, husers, List.length_append, List.length_cons]
      omega
    · rw [hptr]
      exact (hH.users R hp.mem).blockOf hp.sound (hinv.fenced R hp.mem) (by simp [hblocks]) hflag
  · exact hinv.nodup.imp_of_mem fun hb hb' hne => hinv.noOverlap hb hb' hne
  · intro b hb i hlo hhi
    rcases hH.user_index hlo hhi with ⟨us, R, vs, husers, rfl, hptr⟩
    have hp : Picked H us R vs := ⟨husers, hinv.ready.placed⟩
    have hR := hH.users R hp.mem
    rw [hptr]
    rcases hinv.inUse b hb with ⟨Q, hQ, c, hc, hflag, rfl⟩
    have hQ' := hQ
    rw [husers, List.mem_append, List.mem_cons] at hQ'
    have hbeside : Q ∈ us ∨ Q ∈ vs → Clear s.mem R.record (c.addr, c.size) := by
      intro hother
      have hapart := hp.otherApart hother
      have hsQ := hinv.ready.placed.sound Q hQ
      have hcb := hsQ.inUse_bounds (hinv.fenced Q hQ) hc hflag
      have harrQ := hsQ.arr_eq
      refine hR.clear_beside hp.sound.toPlaced ?_
      simp only [NoOverlap, Chunk.addr, Chunk.stop] at hcb ⊢
      omega
    rcases hQ' with hQ' | rfl | hQ'
    · exact hbeside (.inl hQ')
    · exact hR.clear hp.sound (hinv.fenced Q hp.mem) hc hflag
    · exact hbeside (.inr hQ')

end Memory
end EmbeddedOS
