import EmbeddedOS.Memory.RegionMerge

/-!
# Culling a block

`cull` marks a block, merges it with a free chunk before it, and merges the result with a free
chunk after it. `Released` lists the four outcomes. In the last one, where both neighbours are
free, the merged chunk is put at the address of the culled block and not at that of the chunk
before it.
-/

namespace EmbeddedOS
namespace Memory

open Base Base.ByteMem Stdlib

variable {m m' : ByteMem} {h i : Nat} {R : Region} {pre rs l l' : List Chunk} {a b c : Chunk}

/-! ## Outcomes -/

/-- The block as `cull` marks it. -/
def Chunk.culled (c : Chunk) : Chunk := { c with flag := .culled }

/-- No free chunk ends `pre`. -/
def NoFreeBefore (pre : List Chunk) : Prop := ∀ a ∈ pre.getLast?, a.flag = .reserved

/-- No free chunk starts `rs`. -/
def NoFreeAfter (rs : List Chunk) : Prop := ∀ b ∈ rs.head?, b.flag = .reserved

/-- The blocks of a region before and after `cull` of the block `c`. -/
inductive Released (c : Chunk) : List Chunk → List Chunk → Prop where
  | alone {pre rs : List Chunk} : NoFreeBefore pre → NoFreeAfter rs →
      Released c (pre ++ c :: rs) (pre ++ c.culled :: rs)
  | left {pre rs : List Chunk} {a : Chunk} : a.flag ≠ .reserved → NoFreeAfter rs →
      Released c (pre ++ a :: c :: rs) (joined a.hdr pre a c.culled rs)
  | right {pre rs : List Chunk} {b : Chunk} : NoFreeBefore pre → b.flag ≠ .reserved →
      Released c (pre ++ c :: b :: rs) (joined c.hdr pre c.culled b rs)
  | both {pre rs rs' : List Chunk} {a b b' : Chunk} : a.flag ≠ .reserved → b.flag ≠ .reserved →
      growLast (b :: rs) = b' :: rs' →
      Released c (pre ++ a :: c :: b :: rs)
        (joined c.hdr pre (.merged a.hdr a c.culled) b' rs')

/-! ## Marking -/

/-- A block in use is not the last chunk. -/
theorem Region.Sound.after_reserved (hs : R.Sound)
    (hb : R.blocks = pre ++ c :: rs) (hc : c.flag = .reserved) : rs ≠ [] := by
  rintro rfl
  rcases hs.tail with ⟨ts, t, hts, hfree⟩
  have hsame : ts ++ [t] = pre ++ [c] := by rw [← hts, hb]
  have htc := (List.append_inj' hsame rfl).2
  simp only [List.cons.injEq, and_true] at htc
  rw [htc, hc] at hfree
  exact absurd hfree (by decide)

theorem Region.Placed.mark (hp : R.Placed) (hb : R.blocks = pre ++ c :: rs) :
    (R.withBlocks (pre ++ c.culled :: rs)).Placed := by
  have hcnt : (R.withBlocks (pre ++ c.culled :: rs)).count = R.count := by
    simp [Region.count, hb]
  have harr : (R.withBlocks (pre ++ c.culled :: rs)).arr = R.arr := by
    simp only [Region.arr, hcnt, Region.withBlocks_base, Region.withBlocks_size]
  refine ⟨hp.small, hp.addressable, ?_, ?_⟩
  · rw [hcnt]
    exact hp.room
  · have hord := hp.ordered
    rw [hb] at hord
    rw [harr]
    exact Ascends.join (a := c.culled) hord.split.1 hord.split.2.1 hord.split.2.2

theorem Region.Sound.mark (hs : R.Sound) (hb : R.blocks = pre ++ c :: rs) (hrs : rs ≠ []) :
    (R.withBlocks (pre ++ c.culled :: rs)).Sound := by
  have hcnt : (R.withBlocks (pre ++ c.culled :: rs)).count = R.count := by
    simp [Region.count, hb]
  refine ⟨hs.toPlaced.mark hb, ?_, ?_⟩
  · have hacc := hs.account
    rw [hb] at hacc
    rw [hcnt]
    simpa [Chunk.culled] using hacc
  · rcases hs.tail with ⟨ts, t, hts, hfree⟩
    rcases List.eq_nil_or_concat' rs with rfl | ⟨mid, t', rfl⟩
    · exact absurd rfl hrs
    · have hsame : ts ++ [t] = (pre ++ c :: mid) ++ [t'] := by
        rw [← hts, hb]
        simp
      have ht := (List.append_inj' hsame rfl).2
      simp only [List.cons.injEq, and_true] at ht
      exact ⟨pre ++ c.culled :: mid, t', by simp, by rw [← ht]; exact hfree⟩

/-- The used size that `markCulled` leaves. -/
def usedAfter (m : ByteMem) (R : Region) (c : Chunk) : Int :=
  i32 (usedSize m R.record - (c.size + 32 : Nat))

/-- `markCulled` is two stores: the flag of the chunk and the used size. -/
theorem markCulled_eq {j : Nat} (hR : RegionShape m R) (hp : R.Placed) (ho : Outside m h i R)
    (hc : R.entries[j]? = some c) (hlo : R.base ≤ c.hdr) (hhi : c.addr ≤ R.record ∨ R.record + 32 ≤ c.hdr)
    (harr : c.addr ≤ R.arr) :
    markCulled m h i j =
      storeInt (storeInt m (c.hdr + 4) CULLED) (R.record + 4) (usedAfter m R c) := by
  have hv := hR.reached ho
  have hbound := hp.arr_eq
  have hrec : R.record = R.base + 24 := rfl
  have haddr : c.addr = c.hdr + 24 := rfl
  have hjlt : j < R.count := (List.getElem?_eq_some_iff.1 hc).1
  have hptr := hR.entry hc
  unfold markCulled
  extract_lets m1
  have e1 : m1 = setChunkFlag m h i j CULLED := rfl
  clear_value m1
  have h1 : m1 = storeInt m (c.hdr + 4) CULLED := by
    rw [e1]
    exact hv.setChunkFlag_eq _ (x := R.arr + 8 * j) (by omega) hptr
  have v1 : Reached m1 h i R.base (R.base + R.size) R.record R.arr R.count := by
    rw [h1]
    exact hv.write (.storeInt _ _ _) (by omega) (by omega) (by omega) (by omega)
  have hread : usedSize m1 R.record = usedSize m R.record := by
    rw [h1]
    exact loadInt_storeInt (by omega)
  have hchunk : chunkPtr m1 R.record j = c.hdr := by
    rw [v1.chunkPtr_eq (x := R.arr + 8 * j) (by omega), h1, loadPtr_storeInt (by omega), hptr]
  have hsize : chunkSize m1 c.hdr = c.size := by
    rw [h1]
    exact (loadInt_storeInt (by omega)).trans (hR.header hc).size
  have hsum : (c.size : Int) + CHUNK_INFO_SIZE + CHUNK_ARR = (c.size + 32 : Nat) := by
    simp only [CHUNK_INFO_SIZE, CHUNK_ARR]
    omega
  rw [v1.setUsedSize_eq, v1.ptr, hread, hchunk, hsize, hsum, usedAfter, h1]

/-- Marking a block, whatever its flag was. -/
theorem markCulled_shape (hR : RegionShape m R) (hp : R.Placed) (ho : Outside m h i R)
    (hb : R.blocks = pre ++ c :: rs) :
    RegionShape (markCulled m h i (pre.length + 2 : Nat)) (R.withBlocks (pre ++ c.culled :: rs)) ∧
      usedSize (markCulled m h i (pre.length + 2 : Nat)) R.record = usedAfter m R c ∧
      WritesWithin m (markCulled m h i (pre.length + 2 : Nat)) R.Bookkeeping := by
  have harr := hp.arr_eq
  have hrec : R.record = R.base + 24 := rfl
  have hentry : R.entries[pre.length + 2]? = some c := by
    simp [Region.entries, hb]
  have hhead := hR.header hentry
  have hmem : c ∈ R.blocks := by simp [hb]
  have hbound := hp.header_bounds hmem
  have haddr : c.addr = c.hdr + 24 := rfl
  rw [markCulled_eq hR hp ho hentry (by omega) (by omega) (by omega)]
  obtain ⟨m1, h1⟩ : ∃ m1, m1 = storeInt m (c.hdr + 4) CULLED := ⟨_, rfl⟩
  rw [← h1]
  have hw : WritesOnly m m1 (c.hdr + 4) (c.hdr + 8) := by
    rw [h1]
    exact .storeInt _ _ _
  have hw' := WritesOnly.storeInt m1 (R.record + 4) (usedAfter m R c)
  have hcnt' : (R.withBlocks (pre ++ c.culled :: rs)).count = R.count := by
    simp [Region.count, hb]
  have harr' : (R.withBlocks (pre ++ c.culled :: rs)).arr = R.arr := by
    simp only [Region.arr, hcnt', Region.withBlocks_base, Region.withBlocks_size]
  have hagree : ∀ lo hi, (hi ≤ c.hdr + 4 ∨ c.hdr + 8 ≤ lo) →
      (hi ≤ R.record + 4 ∨ R.record + 8 ≤ lo) →
      AgreeOn (storeInt m1 (R.record + 4) (usedAfter m R c)) m lo hi := by
    intro lo hi hd hd'
    exact (hw'.agreeOn hd').trans (hw.agreeOn hd)
  have hflagCell : WritesWithin m m1 R.Bookkeeping := .of_writesOnly hw fun x hlo hhi =>
    .inr (.inr ⟨c, hmem, by omega, by omega⟩)
  have husedCell : WritesWithin m1 (storeInt m1 (R.record + 4) (usedAfter m R c)) R.Bookkeeping :=
    .of_writesOnly hw' fun x hlo hhi => .inl (by omega)
  have hbounds := i32_bounds (usedSize m R.record - (c.size + 32 : Nat))
  refine ⟨⟨?_, ?_, ?_, ?_, ?_, ?_⟩, loadInt_storeInt_same _ _ hbounds.1 hbounds.2,
    hflagCell.trans husedCell⟩
  · rw [Region.withBlocks_record]
    exact (loadInt_congr (hagree R.record _ (by omega) (by omega))).trans hR.allocSize
  · rw [hcnt', Region.withBlocks_record]
    exact (loadInt_congr (hagree (R.record + 8) _ (by omega) (by omega))).trans hR.nChunks
  · rw [Region.withBlocks_record]
    exact (loadPtr_congr (hagree (R.record + 16) _ (by omega) (by omega))).trans hR.baseAddr
  · rw [harr', Region.withBlocks_record]
    exact (loadPtr_congr (hagree (R.record + 24) _ (by omega) (by omega))).trans hR.chunks
  · have hsame : (R.withBlocks (pre ++ c.culled :: rs)).entries.map Chunk.hdr
        = R.entries.map Chunk.hdr := by
      have hmark : c.culled.hdr = c.hdr := rfl
      simp [Region.entries, Region.arrayChunk, Region.infoChunk, harr', hb, hmark]
    have hlen : (R.entries.map Chunk.hdr).length = R.count := by
      simp [Region.entries, Region.count]
    rw [harr', hsame]
    exact hR.array.frame (hagree _ _ (by omega) (by omega))
  · have hframe : ∀ d ∈ R.entries, (d.addr ≤ c.hdr ∨ c.addr ≤ d.hdr) →
        (d.addr ≤ R.record ∨ R.record + 8 ≤ d.hdr) →
        HeaderAt (storeInt m1 (R.record + 4) (usedAfter m R c)) d := by
      intro d hd hc' hr'
      refine (hR.headers d hd).frame (hagree _ _ ?_ (by omega))
      simp only [Chunk.addr] at hc' ⊢
      omega
    have hord := hp.ordered
    rw [hb] at hord
    intro d hd
    simp only [Region.entries, List.mem_cons, Region.withBlocks_blocks, List.mem_append] at hd
    rcases hd with rfl | rfl | hd | rfl | hd
    · have hsame : (R.withBlocks (pre ++ c.culled :: rs)).arrayChunk = R.arrayChunk := by
        simp [Region.arrayChunk, harr', hcnt']
      rw [hsame]
      refine hframe _ (by simp [Region.entries]) (.inr ?_) (.inr ?_)
      · simp only [Region.arrayChunk, Chunk.addr]
        omega
      · simp only [Region.arrayChunk]
        omega
    · refine hframe R.infoChunk (by simp [Region.entries]) (.inl ?_) (.inl ?_)
      · simp only [Region.infoChunk, Chunk.addr]
        omega
      · simp only [Region.infoChunk, Chunk.addr]
        omega
    · have hbd := hord.split.1.bounds hd
      exact hframe d (by simp [Region.entries, hb, hd]) (.inl hbd.2.2) (.inr (by omega))
    · have hflag : chunkFlag m1 c.hdr = CULLED := by
        rw [h1]
        exact loadInt_storeInt_same _ _ (by decide) (by decide)
      refine ⟨?_, ?_, ?_⟩
      · exact (loadInt_congr (hagree c.hdr _ (by omega) (by omega))).trans hhead.size
      · exact (loadInt_storeInt (b := c.hdr + 4) (by omega)).trans hflag
      · exact (loadPtr_congr (hagree (c.hdr + 16) _ (by omega) (by omega))).trans hhead.addr
    · have hbd := hord.split.2.2.bounds hd
      exact hframe d (by simp [Region.entries, hb, hd]) (.inr hbd.1) (.inr (by
        have := hbd.1
        simp only [Chunk.addr] at this
        omega))

/-- The used size after a block in use was marked. -/
theorem usedAfter_reserved (hR : RegionAt m R) (hs : R.Sound) (hb : R.blocks = pre ++ c :: rs)
    (hc : c.flag = .reserved) :
    usedAfter m R c = ((R.withBlocks (pre ++ c.culled :: rs)).used : Nat) := by
  have hsmall := hs.small
  have hused : R.used = (R.withBlocks (pre ++ c.culled :: rs)).used + (c.size + 32) := by
    simp [Region.used, hb, usedBy_cons, Chunk.culled, hc]
    omega
  have husedLe := hs.used_le
  rw [usedAfter, hR.usedSize]
  generalize (R.withBlocks (pre ++ c.culled :: rs)).used = u' at hused ⊢
  generalize R.used = u at hused husedLe ⊢
  exact (i32_of_range (by omega) (by omega)).trans (by omega)

theorem bookkeeping_culled (hb : R.blocks = pre ++ c :: rs) {x : Nat}
    (hx : (R.withBlocks (pre ++ c.culled :: rs)).Bookkeeping x) : R.Bookkeeping x := by
  refine hx.of_withBlocks ?_ ?_
  · rw [hb, List.length_append, List.length_append, List.length_cons, List.length_cons]
  · rw [hb, List.map_append, List.map_append]
    exact List.Subset.refl _

/-! ## The tests of `cull` -/

theorem flagAt_eq (hR : RegionShape m R) (ho : Outside m h i R) {j : Nat} {x : Int}
    (hx : x = j) (hc : R.entries[j]? = some c) : flagAt m h i x = c.flag.code := by
  rw [flagAt, ho.ptr, hx, hR.chunkPtr hc]
  exact (hR.header hc).flag

/-- The merge to the left is taken exactly when the chunk before is not in use. -/
theorem leftFree_eq {j : Int} {f : Flag} (hj : flagAt m h i j = Flag.culled.code)
    (hf : flagAt m h i (j - 1) = f.code) : leftFree m h i j = decide (f ≠ .reserved) := by
  unfold leftFree
  rw [hj, hf]
  cases f <;> decide

/-- The merge to the right is taken exactly when the chunk after is not in use. -/
theorem rightFree_eq {j : Int} {f g : Flag} (hj : flagAt m h i j = g.code) (hg : g ≠ .reserved)
    (hf : flagAt m h i (j + 1) = f.code) : rightFree m h i j = decide (f ≠ .reserved) := by
  unfold rightFree
  rw [hj, hf]
  cases g with
  | reserved => exact absurd rfl hg
  | unallocated => cases f <;> decide
  | culled => cases f <;> decide

/-! ## The two halves of `cull` -/

/-- The region after a part of `cull`, with the blocks `l`: nothing more was taken off the used
size. -/
structure CulledTo (m m' : ByteMem) (R : Region) (l : List Chunk) (P : Nat → Prop) : Prop where
  shape : RegionShape m' (R.withBlocks l)
  usedSize : usedSize m' R.record = usedSize m R.record
  used : (R.withBlocks l).used = R.used
  writes : WritesWithin m m' P
  sound : (R.withBlocks l).Sound

theorem CulledTo.refl {P : Nat → Prop} (hR : RegionShape m R) (hs : R.Sound) :
    CulledTo m m R R.blocks P :=
  ⟨hR, rfl, rfl, .refl _ _, hs⟩

/-- The second half of `cull`, on the chunk `a` with the header of the culled block at `hdr`. -/
theorem rightHalf_spec (hdr : Nat) (hR : RegionShape m R) (hs : R.Sound) (ho : Outside m h i R)
    (hb : R.blocks = pre ++ a :: b :: rs) (ha : a.flag ≠ .reserved) (hlo : a.hdr ≤ hdr)
    (hhi : hdr + 24 ≤ b.hdr) {x : Int} (hx : x = (pre.length + 2 : Nat)) :
    ∃ l, l = (if b.flag = .reserved then R.blocks else joined hdr pre a b rs) ∧
      CulledTo m (if rightFree m h i x then mergeRight m h i x (hdr + 24) else m) R l
        (MergeCell R hdr) := by
  have hja : R.entries[pre.length + 2]? = some a := by
    simp [Region.entries, hb]
  have hjb : R.entries[pre.length + 3]? = some b := by
    simp [Region.entries, hb]
  have htest : rightFree m h i x = decide (b.flag ≠ .reserved) :=
    rightFree_eq (flagAt_eq hR ho hx hja) ha (flagAt_eq hR ho (by omega) hjb)
  refine ⟨_, rfl, ?_⟩
  rw [htest]
  by_cases hfree : b.flag = .reserved
  · simp only [hfree, ne_eq, not_true_eq_false, decide_false, Bool.false_eq_true, if_false, if_true]
    exact .refl hR hs
  · rcases mergeRight_shape hR hs ho hb ha hfree hlo hhi with ⟨hR', hused, hw⟩
    simp only [hfree, ne_eq, not_false_eq_true, decide_true, if_true, if_false, hx]
    exact ⟨hR', hused, hs.used_joined hb ha hfree, hw, hs.joined hb hlo (by omega)⟩

/-- `cull` of any chunk but the tail leaves one of the four outcomes, and writes to the bookkeeping
only. -/
theorem cull_shape (hR : RegionShape m R) (hs : R.Sound) (ho : Outside m h i R)
    (hb : R.blocks = pre ++ c :: rs) (hrs : rs ≠ [])
    (hfind : findBlock m h c.addr (nRegions m h - 1).toNat 1 0 = (true, i, pre.length + 2)) :
    ∃ l, Released c R.blocks l ∧ RegionShape (cull m h c.addr) (R.withBlocks l) ∧
      usedSize (cull m h c.addr) R.record = usedAfter m R c ∧
      (R.withBlocks l).used = (R.withBlocks (pre ++ c.culled :: rs)).used ∧
      WritesWithin m (cull m h c.addr) R.Bookkeeping ∧ (R.withBlocks l).Sound := by
  cases rs with
  | nil => exact absurd rfl hrs
  | cons b rs =>
      rcases markCulled_shape hR hs.toPlaced ho hb with ⟨hmark, husedMark, hwMark⟩
      have hsound := hs.mark hb (by simp)
      have ho1 : Outside (markCulled m h i (pre.length + 2 : Nat)) h i
          (R.withBlocks (pre ++ c.culled :: b :: rs)) := ho.write (hs.writesOnly hwMark) rfl rfl
      have hcmem : c ∈ R.blocks := by simp [hb]
      have hcells : ∀ {x : Nat}, MergeCell (R.withBlocks (pre ++ c.culled :: b :: rs)) c.hdr x →
          R.Bookkeeping x := by
        rintro x (hx | hx)
        · exact bookkeeping_culled hb hx
        · exact .inr (.inr ⟨c, hcmem, hx⟩)
      have hord := hs.ordered
      rw [hb] at hord
      have hcb : c.hdr + 24 ≤ b.hdr := hord.split.2.2.1
      have hjc : (R.withBlocks (pre ++ c.culled :: b :: rs)).entries[pre.length + 2]?
          = some c.culled := by
        simp [Region.entries]
      have hcflag : c.culled.flag ≠ .reserved := by simp [Chunk.culled]
      unfold cull
      simp only [hfind, if_true]
      generalize markCulled m h i (pre.length + 2 : Nat) = m1 at hmark husedMark hwMark ho1 ⊢
      rcases List.eq_nil_or_concat' pre with rfl | ⟨pre', a, rfl⟩
      · -- The chunk before is the region record.
        have htest : leftFree m1 h i (([] : List Chunk).length + 2 : Nat) = false := by
          have := leftFree_eq (f := .reserved) (flagAt_eq hmark ho1 rfl hjc)
            (flagAt_eq hmark ho1 (j := 1) rfl rfl)
          simpa using this
        rw [htest]
        rcases rightHalf_spec c.hdr hmark hsound ho1
          (show _ = [] ++ c.culled :: b :: rs from rfl) hcflag
          (Nat.le_refl _) hcb rfl with ⟨l, hl, hto⟩
        refine ⟨l, ?_, hto.shape, hto.usedSize.trans husedMark, hto.used,
          hwMark.trans (hto.writes.mono fun _ => hcells), hto.sound⟩
        rw [hb, hl]
        by_cases hfree : b.flag = .reserved
        · rw [if_pos hfree]
          exact .alone (by simp [NoFreeBefore]) (by simpa [NoFreeAfter] using hfree)
        · rw [if_neg hfree]
          exact .right (by simp [NoFreeBefore]) hfree
      · have hja : (R.withBlocks (pre' ++ [a] ++ c.culled :: b :: rs)).entries[pre'.length + 2]?
            = some a := by
          simp [Region.entries]
        have htest : leftFree m1 h i ((pre' ++ [a]).length + 2 : Nat)
            = decide (a.flag ≠ .reserved) :=
          leftFree_eq (flagAt_eq hmark ho1 rfl hjc)
            (flagAt_eq hmark ho1 (j := pre'.length + 2) (by simp; omega) hja)
        rw [htest]
        by_cases hleft : a.flag = .reserved
        · simp only [hleft, ne_eq, not_true_eq_false, decide_false, Bool.false_eq_true, if_false]
          rcases rightHalf_spec c.hdr hmark hsound ho1
            (show _ = (pre' ++ [a]) ++ c.culled :: b :: rs from rfl) hcflag
            (Nat.le_refl _) hcb rfl with ⟨l, hl, hto⟩
          refine ⟨l, ?_, hto.shape, hto.usedSize.trans husedMark, hto.used,
            hwMark.trans (hto.writes.mono fun _ => hcells), hto.sound⟩
          rw [hb, hl]
          by_cases hfree : b.flag = .reserved
          · rw [if_pos hfree]
            exact .alone (by simp [NoFreeBefore, hleft]) (by simpa [NoFreeAfter] using hfree)
          · rw [if_neg hfree]
            exact .right (by simp [NoFreeBefore, hleft]) hfree
        · simp only [hleft, ne_eq, not_false_eq_true, decide_true, if_true]
          have hb1 : (R.withBlocks (pre' ++ [a] ++ c.culled :: b :: rs)).blocks
              = pre' ++ a :: c.culled :: (b :: rs) := by simp
          have hac : a.hdr + 24 ≤ c.hdr := by
            have hsplit : Ascends Chunk.hdr Chunk.addr (R.base + 56) (pre' ++ a :: c :: b :: rs)
                (R.arr - 24) := by simpa using hord
            exact hsplit.split.2.2.1
          have hmerge := mergeLeft_shape hmark hsound ho1 hb1 hleft hcflag
          have hsound2 := hsound.joined hb1 (Nat.le_refl _) (by simp only [Chunk.culled]; omega)
          have hused2 : ((R.withBlocks (pre' ++ [a] ++ c.culled :: b :: rs)).withBlocks
              (joined a.hdr pre' a c.culled (b :: rs))).used = _ :=
            hsound.used_joined hb1 hleft hcflag
          have hlen : (pre' ++ [a]).length + 2 = pre'.length + 3 := by simp
          have ho2 : Outside (mergeLeft m1 h i ((pre' ++ [a]).length + 2 : Nat)) h i
              (R.withBlocks (joined a.hdr pre' a c.culled (b :: rs))) := by
            rw [hlen]
            exact ho1.write (hsound.writesOnly hmerge.2.2) rfl rfl
          rw [← hlen] at hmerge
          generalize mergeLeft m1 h i ((pre' ++ [a]).length + 2 : Nat) = m2 at hmerge ho2 ⊢
          rcases hmerge with ⟨hmerge, husedMerge, hwMerge⟩
          -- The growth of the tail may have changed the chunk after.
          rcases hgrow : growLast (b :: rs) with _ | ⟨b', rs'⟩
          · have := congrArg List.length hgrow
            simp at this
          · have hb' : b'.hdr = b.hdr ∧ b'.flag = b.flag := by
              cases rs with
              | nil =>
                  simp only [growLast, List.cons.injEq] at hgrow
                  rw [← hgrow.1]
                  exact ⟨rfl, rfl⟩
              | cons d rs =>
                  simp only [growLast, List.cons.injEq] at hgrow
                  rw [← hgrow.1]
                  exact ⟨rfl, rfl⟩
            have hb2 : (R.withBlocks (joined a.hdr pre' a c.culled (b :: rs))).blocks
                = pre' ++ .merged a.hdr a c.culled :: b' :: rs' := by
              simp only [Region.withBlocks_blocks, joined]
              rw [growLast_cons _ (by simp), hgrow]
            rcases rightHalf_spec c.hdr hmerge hsound2 ho2 hb2 (by simp [Chunk.merged])
              (by simp only [Chunk.merged]; omega) (by omega)
              (x := ((pre' ++ [a]).length + 2 : Nat) - 1) (by simp; omega) with ⟨l, hl, hto⟩
            have hold : ∀ {x : Nat}, (R.withBlocks (pre' ++ [a] ++ c.culled :: b :: rs)).Bookkeeping x →
                R.Bookkeeping x := bookkeeping_culled hb
            have hlast : ∀ {x : Nat}, MergeCell ((R.withBlocks (pre' ++ [a] ++ c.culled :: b :: rs)).withBlocks
                (joined a.hdr pre' a c.culled (b :: rs))) c.hdr x → R.Bookkeeping x := by
              rintro x (hx | hx)
              · exact hold (bookkeeping_joined hb1 hx)
              · exact .inr (.inr ⟨c, hcmem, hx⟩)
            refine ⟨l, ?_, hto.shape, hto.usedSize.trans (husedMerge.trans husedMark),
              hto.used.trans hused2, hwMark.trans ((hwMerge.mono fun _ => hold).trans
              (hto.writes.mono fun _ => hlast)), hto.sound⟩
            rw [hb, hl, hb'.2]
            have happ : pre' ++ [a] ++ c :: b :: rs = pre' ++ a :: c :: b :: rs := by simp
            rw [happ]
            by_cases hfree : b.flag = .reserved
            · rw [if_pos hfree]
              exact .left hleft (by simpa [NoFreeAfter] using hfree)
            · rw [if_neg hfree]
              exact .both hleft hfree hgrow

/-- `cull` of a block in use keeps the bookkeeping right. -/
theorem cull_spec (hR : RegionAt m R) (hs : R.Sound) (ho : Outside m h i R)
    (hb : R.blocks = pre ++ c :: rs) (hc : c.flag = .reserved)
    (hfind : findBlock m h c.addr (nRegions m h - 1).toNat 1 0 = (true, i, pre.length + 2)) :
    ∃ l, Released c R.blocks l ∧ RegionAt (cull m h c.addr) (R.withBlocks l) ∧
      WritesWithin m (cull m h c.addr) R.Bookkeeping ∧ (R.withBlocks l).Sound := by
  rcases cull_shape hR.shape hs ho hb (hs.after_reserved hb hc) hfind with
    ⟨l, hrel, hshape, husedSize, hused, hw, hsound⟩
  refine ⟨l, hrel, hshape.used ?_, hw, hsound⟩
  rw [hused, ← usedAfter_reserved hR hs hb hc]
  exact husedSize

end Memory
end EmbeddedOS
