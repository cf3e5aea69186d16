import EmbeddedOS.Memory.RegionAccess

/-!
# Laying out a region

What `create`, `create_region` and `grow_kheap` write into freshly reserved pages: a user region
with nothing but its metadata and a tail, and a kernel region with the heap record, the region
array and a tail.
-/

namespace EmbeddedOS
namespace Memory

open Base Base.ByteMem Stdlib

variable {m : ByteMem} {base size : Nat}

/-! ## Region records -/

section Records

variable {r b : Nat} {p : RegionInfo}

theorem writesOnly_storeRegionInfo (m : ByteMem) (r : Nat) (p : RegionInfo) :
    WritesOnly m (storeRegionInfo m r p) r (r + 32) := by
  unfold storeRegionInfo
  refine (((((WritesOnly.storeInt m r _).mono ?_ ?_).trans
    ((WritesOnly.storeInt _ (r + 4) _).mono ?_ ?_)).trans
    ((WritesOnly.storeInt _ (r + 8) _).mono ?_ ?_)).trans
    ((WritesOnly.storePtr _ (r + 16) _).mono ?_ ?_)).trans
    ((WritesOnly.storePtr _ (r + 24) _).mono ?_ ?_) <;> omega

/-- The fields of a stored region record. -/
theorem storeRegionInfo_fields (m : ByteMem) (r : Nat) {alloc used n base arr : Nat}
    (halloc : alloc < 2147483648) (hused : used < 2147483648) (hn : n < 2147483648)
    (hbase : base < 18446744073709551616) (harr : arr < 18446744073709551616) :
    allocSize (storeRegionInfo m r ⟨alloc, used, n, base, arr⟩) r = alloc ∧
    usedSize (storeRegionInfo m r ⟨alloc, used, n, base, arr⟩) r = used ∧
    nChunks (storeRegionInfo m r ⟨alloc, used, n, base, arr⟩) r = n ∧
    baseAddr (storeRegionInfo m r ⟨alloc, used, n, base, arr⟩) r = base ∧
    chunks (storeRegionInfo m r ⟨alloc, used, n, base, arr⟩) r = arr := by
  unfold allocSize usedSize nChunks baseAddr chunks storeRegionInfo
  dsimp only
  refine ⟨?_, ?_, ?_, ?_, ?_⟩
  · rw [loadInt_storePtr (by omega), loadInt_storePtr (by omega), loadInt_storeInt (by omega),
      loadInt_storeInt (by omega), loadInt_storeInt_same _ _ (by omega) (by omega)]
  · rw [loadInt_storePtr (by omega), loadInt_storePtr (by omega), loadInt_storeInt (by omega),
      loadInt_storeInt_same _ _ (by omega) (by omega)]
  · rw [loadInt_storePtr (by omega), loadInt_storePtr (by omega),
      loadInt_storeInt_same _ _ (by omega) (by omega)]
  · rw [loadPtr_storePtr (by omega), loadPtr_storePtr_same _ _ hbase]
  · rw [loadPtr_storePtr_same _ _ harr]

end Records

/-! ## Laying out a region -/

/-- The structure that is stored as the header of a chunk. -/
def Chunk.smart (base : Nat) (c : Chunk) : SmartPtr :=
  { size := c.size, flag := c.flag.code, base := base, addr := c.addr }

/-- `chunks[k] = p.addr - CHUNK_INFO_SIZE` for each of `ps`. -/
def storeSlots (m : ByteMem) (arr : Nat) : List SmartPtr → ByteMem
  | [] => m
  | p :: ps => storeSlots (storePtr m arr (p.addr - CHUNK_INFO_SIZE)) (arr + 8) ps

/-- `*chunks[k] = p` for each of `ps`. -/
def storeHeaders (m : ByteMem) (arr : Nat) : List SmartPtr → ByteMem
  | [] => m
  | p :: ps => storeHeaders (storeSmartPtr m (loadPtr m arr) p) (arr + 8) ps

/-- The stores of a new region: the chunk array, the headers, the region record, and a cleared
tail. -/
def layOut (m : ByteMem) (arr : Nat) (ps : List SmartPtr) (info : RegionInfo) : ByteMem :=
  let m := storeSlots m arr ps
  let m := storeHeaders m arr ps
  let m := storeRegionInfo m (chunkAddr m (loadPtr m (arr + 8))) info
  let tail := loadPtr m (arr + 8 * (ps.length - 1))
  memset m (chunkAddr m tail) 0 (u32 (chunkSize m tail))

/-- `a` and `b` have headers of their own. -/
def HeadersApart (a b : Chunk) : Prop := a.addr ≤ b.hdr ∨ b.addr ≤ a.hdr

section LayOut

variable {b arr : Nat} {cs : List Chunk}

theorem storeSlots_spec (m : ByteMem) (b arr : Nat) (hfit : ∀ c ∈ cs, c.addr < 18446744073709551616) :
    PointersAt (storeSlots m arr (cs.map (Chunk.smart b))) arr (cs.map Chunk.hdr) ∧
      WritesOnly m (storeSlots m arr (cs.map (Chunk.smart b))) arr (arr + 8 * cs.length) := by
  induction cs generalizing m arr with
  | nil => exact ⟨.nil, .refl _ _ _⟩
  | cons c cs ih =>
      have hback : (c.smart b).addr - CHUNK_INFO_SIZE = c.hdr := Nat.add_sub_cancel ..
      have hc := hfit c List.mem_cons_self
      simp only [Chunk.addr] at hc
      rw [List.map_cons, List.map_cons, storeSlots, hback, PointersAt.cons_iff, List.length_cons]
      rcases ih (storePtr m arr c.hdr) (arr + 8)
        (fun d hd => hfit d (List.mem_cons_of_mem _ hd)) with ⟨hrest, hw⟩
      refine ⟨⟨?_, hrest⟩, ?_⟩
      · rw [loadPtr_congr (hw.agreeOn (by omega)), loadPtr_storePtr_same _ _ (by omega)]
      · exact ((WritesOnly.storePtr m arr c.hdr).mono (Nat.le_refl _) (by omega)).trans
          (hw.mono (by omega) (by omega))

/-- Headers that lie apart from each other and from the array are all stored where they belong. -/
theorem storeHeaders_spec (m : ByteMem) (b arr : Nat)
    (hslots : PointersAt m arr (cs.map Chunk.hdr)) (hapart : cs.Pairwise HeadersApart)
    (hout : ∀ c ∈ cs, c.addr ≤ arr ∨ arr + 8 * cs.length ≤ c.hdr)
    (hfit : ∀ c ∈ cs, c.size < 2147483648 ∧ c.addr < 18446744073709551616) :
    (∀ c ∈ cs, HeaderAt (storeHeaders m arr (cs.map (Chunk.smart b))) c) ∧
      ∀ lo hi, (∀ c ∈ cs, hi ≤ c.hdr ∨ c.addr ≤ lo) →
        AgreeOn (storeHeaders m arr (cs.map (Chunk.smart b))) m lo hi := by
  induction cs generalizing m arr with
  | nil => exact ⟨nofun, fun lo hi _ => .refl m lo hi⟩
  | cons c cs ih =>
      rw [List.map_cons, PointersAt.cons_iff] at hslots
      rw [List.pairwise_cons] at hapart
      have hc := hfit c List.mem_cons_self
      have hcout := hout c List.mem_cons_self
      have hw := writesOnly_storeSmartPtr m c.hdr (c.smart b)
      have hhere : HeaderAt (storeSmartPtr m c.hdr (c.smart b)) c :=
        headerAt_storeSmartPtr m c _ rfl rfl rfl hc.1 hc.2
      rw [List.map_cons, storeHeaders, hslots.1]
      have hrest : PointersAt (storeSmartPtr m c.hdr (c.smart b)) (arr + 8) (cs.map Chunk.hdr) := by
        refine hslots.2.frame (hw.agreeOn ?_)
        simp only [Chunk.addr, List.length_cons] at hcout
        rw [List.length_map]
        omega
      have hout' : ∀ d ∈ cs, d.addr ≤ arr + 8 ∨ arr + 8 + 8 * cs.length ≤ d.hdr := by
        intro d hd
        have hdout := hout d (List.mem_cons_of_mem _ hd)
        rw [List.length_cons] at hdout
        omega
      rcases ih _ _ hrest hapart.2 hout' (fun d hd => hfit d (List.mem_cons_of_mem _ hd)) with
        ⟨hheads, hkept⟩
      refine ⟨?_, ?_⟩
      · intro d hd
        rcases List.mem_cons.1 hd with rfl | hd
        · exact hhere.frame (hkept _ _ hapart.1)
        · exact hheads d hd
      · intro lo hi hd
        have hdc := hd c List.mem_cons_self
        simp only [Chunk.addr] at hdc
        exact (hkept lo hi fun e he => hd e (List.mem_cons_of_mem _ he)).trans
          (hw.agreeOn (by omega))

end LayOut

/-- No header of a region lies on another one. -/
theorem Region.Placed.apart {R : Region} (hp : R.Placed) : R.entries.Pairwise HeadersApart := by
  have harr := hp.arr_eq
  have hpair : R.blocks.Pairwise HeadersApart := hp.ordered.pairwise.imp fun h => .inl h
  refine List.pairwise_cons.2 ⟨?_, List.pairwise_cons.2 ⟨?_, hpair⟩⟩
  · intro c hc
    rcases List.mem_cons.1 hc with rfl | hc
    · refine .inr ?_
      simp only [Region.infoChunk, Region.arrayChunk, Chunk.addr]
      omega
    · have hb := hp.header_bounds hc
      refine .inr ?_
      simp only [Region.arrayChunk, Chunk.addr]
      omega
  · intro c hc
    have hb := hp.header_bounds hc
    refine .inl ?_
    simp only [Region.infoChunk, Chunk.addr]
    omega

/-- Every header lies between the start of the region and its chunk array. -/
theorem Region.Placed.entry_bounds {R : Region} (hp : R.Placed) {c : Chunk} (hc : c ∈ R.entries) :
    R.base ≤ c.hdr ∧ c.addr ≤ R.arr ∧ (c.addr ≤ R.base + 24 ∨ R.base + 56 ≤ c.hdr) := by
  have harr := hp.arr_eq
  simp only [Region.entries, List.mem_cons] at hc
  rcases hc with rfl | rfl | hc
  · simp only [Region.arrayChunk, Chunk.addr]
    omega
  · simp only [Region.infoChunk, Chunk.addr]
    omega
  · have hb := hp.header_bounds hc
    simp only [Chunk.addr]
    omega

/-- A region whose tail ends before the chunk array is laid out as described. -/
theorem layOut_spec (R : Region) (m : ByteMem) (hs : R.Sound) (pre : List Chunk) {t : Chunk}
    (hb : R.blocks = pre ++ [t]) (hstop : t.stop + 24 ≤ R.arr) :
    RegionAt (layOut m R.arr (R.entries.map (Chunk.smart R.base))
        ⟨R.size, R.used, R.count, R.base, R.arr⟩) R ∧
      WritesOnly m (layOut m R.arr (R.entries.map (Chunk.smart R.base))
        ⟨R.size, R.used, R.count, R.base, R.arr⟩) R.base (R.base + R.size) := by
  have harr := hs.arr_eq
  have hroom := hs.room
  have hsmall := hs.small
  have hfit := hs.addressable
  have hbounds := fun {c : Chunk} (hc : c ∈ R.entries) => hs.entry_bounds hc
  have hsizes : ∀ c ∈ R.entries, c.size < 2147483648 ∧ c.addr < 18446744073709551616 := by
    intro c hc
    have hlast := (hbounds hc).2.1
    refine ⟨?_, by omega⟩
    have hacc := hs.account
    simp only [Region.entries, List.mem_cons] at hc
    rcases hc with rfl | rfl | hc
    · simp only [Region.arrayChunk]
      omega
    · simp only [Region.infoChunk]
      omega
    · have hle := size_le_total hc
      omega
  have hlength : R.entries.length = R.count := rfl
  rcases storeSlots_spec m R.base R.arr (fun c hc => (hsizes c hc).2) with ⟨hslots, hwslots⟩
  rw [hlength, harr.1] at hwslots
  unfold layOut
  extract_lets m1 m2 m3 tail
  have e1 : m1 = storeSlots m R.arr (R.entries.map (Chunk.smart R.base)) := rfl
  have e2 : m2 = storeHeaders m1 R.arr (R.entries.map (Chunk.smart R.base)) := rfl
  have e3 : m3 = storeRegionInfo m2 (chunkAddr m2 (loadPtr m2 (R.arr + 8)))
    ⟨R.size, R.used, R.count, R.base, R.arr⟩ := rfl
  have et : tail = loadPtr m3
    (R.arr + 8 * ((R.entries.map (Chunk.smart R.base)).length - 1)) := rfl
  clear_value tail m3 m2 m1
  rw [← e1] at hslots hwslots
  rcases storeHeaders_spec m1 R.base R.arr hslots hs.apart (fun c hc => .inl (hbounds hc).2.1)
    hsizes with ⟨hheads, hkept⟩
  rw [← e2] at hheads hkept
  -- The record is stored between the header of the first chunk and the other blocks.
  have hinfo : R.infoChunk ∈ R.entries := List.mem_cons_of_mem _ List.mem_cons_self
  have hslots2 : PointersAt m2 R.arr (R.entries.map Chunk.hdr) := by
    refine hslots.frame (hkept _ _ ?_)
    intro c hc
    exact .inr (hbounds hc).2.1
  have hrecord : chunkAddr m2 (loadPtr m2 (R.arr + 8)) = R.base + 24 := by
    rw [hslots2 1 R.base rfl]
    exact (hheads _ hinfo).addr
  rw [hrecord] at e3
  have hw3 : WritesOnly m2 m3 (R.base + 24) (R.base + 56) := by
    rw [e3]
    exact writesOnly_storeRegionInfo _ _ _
  have hheads3 : ∀ c ∈ R.entries, HeaderAt m3 c := by
    intro c hc
    have hcb := hbounds hc
    exact (hheads c hc).frame (hw3.agreeOn (by omega))
  have hslots3 : PointersAt m3 R.arr (R.entries.map Chunk.hdr) :=
    hslots2.frame (hw3.agreeOn (by omega))
  -- The tail is cleared.
  have hcount : R.count = pre.length + 3 := by
    simp [Region.count, hb]
  have hlast : R.entries[R.count - 1]? = some t := by
    rw [hcount]
    simp [Region.entries, hb]
  have htail : tail = t.hdr := by
    rw [et, List.length_map, hlength]
    exact hslots3 (R.count - 1) t.hdr (by rw [List.getElem?_map, hlast]; rfl)
  have ht : t ∈ R.entries := List.mem_of_getElem? hlast
  have htb := hs.header_bounds (c := t) (by simp [hb])
  have hclear : memset m3 (chunkAddr m3 tail) 0 (u32 (chunkSize m3 tail)) =
      fill m3 (t.hdr + 24) t.size 0 := by
    have hlen : u32 (t.size : Int) = t.size := by
      have := (hsizes t ht).1
      exact u32_of_range rfl (by omega)
    rw [htail, (hheads3 t ht).addr, (hheads3 t ht).size, hlen, memset_eq_fill]
    rfl
  rw [hclear]
  simp only [Chunk.stop] at hstop
  have hagree : ∀ lo hi, (hi ≤ t.hdr + 24 ∨ R.arr - 24 ≤ lo) →
      AgreeOn (fill m3 (t.hdr + 24) t.size 0) m3 lo hi := by
    intro lo hi hd
    exact (WritesOnly.fill _ _ _ _).agreeOn (by omega)
  have husedLe := hs.used_le
  have hfields := storeRegionInfo_fields m2 (R.base + 24) hsmall
    (Nat.lt_of_le_of_lt husedLe hsmall) (show R.count < _ by omega) (show R.base < _ by omega)
    (show R.arr < _ by omega)
  rw [← e3] at hfields
  refine ⟨⟨?_, ?_, ?_, ?_, ?_, ?_, ?_⟩, ?_⟩
  · exact (loadInt_congr (hagree (R.base + 24) _ (by omega))).trans hfields.1
  · exact (loadInt_congr (hagree (R.base + 28) _ (by omega))).trans hfields.2.1
  · exact (loadInt_congr (hagree (R.base + 32) _ (by omega))).trans hfields.2.2.1
  · exact (loadPtr_congr (hagree (R.base + 40) _ (by omega))).trans hfields.2.2.2.1
  · exact (loadPtr_congr (hagree (R.base + 48) _ (by omega))).trans hfields.2.2.2.2
  · exact hslots3.frame (hagree _ _ (by omega))
  · intro c hc
    refine (hheads3 c hc).frame (hagree _ _ ?_)
    simp only [Region.entries, List.mem_cons] at hc
    rcases hc with rfl | rfl | hc
    · refine .inr ?_
      simp only [Region.arrayChunk]
      omega
    · refine .inl ?_
      simp only [Region.infoChunk, Chunk.addr]
      omega
    · refine .inl ?_
      have hord := hs.ordered
      rw [hb] at hord hc
      rcases List.mem_append.1 hc with hc | hc
      · have hle := hord.split.1.bounds hc
        omega
      · rw [List.mem_singleton.1 hc]
        exact Nat.le_refl _
  · have hw2 : WritesOnly m1 m2 R.base (R.base + R.size) := by
      intro x hx
      refine hkept x (x + 1) ?_ x (Nat.le_refl x) (Nat.lt_succ_self x)
      intro c hc
      have hcb := hbounds hc
      omega
    refine ((hwslots.mono (by omega) (Nat.le_refl _)).trans hw2).trans
      ((hw3.mono (by omega) (by omega)).trans ?_)
    exact (WritesOnly.fill _ _ _ _).mono (by omega) (by omega)

/-! ## User regions -/

namespace Region

theorem sound_fresh (hlo : 128 ≤ size) (hsmall : size < 2147483648)
    (hfit : base + size < 18446744073709551616) : (fresh base size).Sound := by
  refine ⟨⟨hsmall, hfit, ?_, ?_⟩, ?_, ?_⟩
  · simp [fresh, count]
    omega
  · simp only [fresh, arr, count, List.length_cons, List.length_nil, Ascends, Chunk.addr]
    omega
  · simp [fresh, count]
    omega
  · exact ⟨[], _, rfl, rfl⟩

theorem tiled_fresh (hlo : 128 ≤ size) : (fresh base size).Tiled := by
  simp only [Tiled, Tiles, pieces, fresh, infoChunk, arrayChunk, arr, count, List.length_cons,
    List.length_nil, List.cons_append, List.nil_append, Chunk.stop]
  refine ⟨trivial, by omega, trivial, by omega, by omega, by omega, by omega⟩

end Region

theorem initUserRegion_spec (hlo : 128 ≤ size) (hsmall : size < 2147483648)
    (hfit : base + size < 18446744073709551616) :
    RegionAt (initUserRegion m base size) (Region.fresh base size) ∧
      WritesOnly m (initUserRegion m base size) base (base + size) := by
  have harr : ((base : Int) + size - 3 * CHUNK_ARR).toNat = base + size - 24 := by
    simp only [CHUNK_ARR]
    omega
  have hsz : i32 (size : Int) = size := i32_of_range (by omega) (by omega)
  have hfree : i32 ((size : Int) - (REGION_INFO_SIZE + 3 * CHUNK_INFO_SIZE + 3 * CHUNK_ARR))
      = (size - 128 : Nat) := by
    simp only [REGION_INFO_SIZE, CHUNK_INFO_SIZE, CHUNK_ARR]
    exact (i32_of_range (by omega) (by omega)).trans (by omega)
  have hentries : (Region.fresh base size).entries.map (Chunk.smart base) =
      [⟨24, RESERVED, base, base + size - 24⟩, ⟨32, RESERVED, base, base + 24⟩,
        ⟨(size - 128 : Nat), UNALLOCATED, base, base + 80⟩] := by
    have haddr : base + size - 24 - 24 + 24 = base + size - 24 := by omega
    have harrF : (Region.fresh base size).arr = base + size - 24 := rfl
    simp only [Region.entries, Region.arrayChunk, harrF, List.map_cons, Chunk.smart, Chunk.addr,
      haddr]
    rfl
  have heq : initUserRegion m base size = layOut m (base + size - 24)
      [⟨24, RESERVED, base, base + size - 24⟩, ⟨32, RESERVED, base, base + 24⟩,
        ⟨(size - 128 : Nat), UNALLOCATED, base, base + 80⟩]
      ⟨size, (128 : Nat), (3 : Nat), base, base + size - 24⟩ := by
    unfold initUserRegion
    simp only [harr, hsz, hfree]
    rfl
  rw [heq, ← hentries]
  refine layOut_spec (Region.fresh base size) m (Region.sound_fresh hlo hsmall hfit) [] rfl ?_
  simp only [Region.fresh, Region.arr, Region.count, Chunk.stop, List.length_cons, List.length_nil]
  omega

/-! ## The kernel region -/

/-- The kernel region that lists `n` regions: the heap record, the region array and the tail. -/
def Region.kernel (base size n : Nat) : Region :=
  { base := base, size := size
    blocks := [⟨base + 56, 16, .reserved⟩, ⟨base + 96, 8 * n, .reserved⟩,
      ⟨base + 120 + 8 * n, size - (208 + 8 * n), .unallocated⟩] }

namespace Region

theorem sound_kernel {n : Nat} (hroom : 208 + 8 * n ≤ size) (hsmall : size < 2147483648)
    (hfit : base + size < 18446744073709551616) : (kernel base size n).Sound := by
  refine ⟨⟨hsmall, hfit, ?_, ?_⟩, ?_, ?_⟩
  · simp [kernel, count]
    omega
  · simp only [kernel, arr, count, List.length_cons, List.length_nil, Ascends, Chunk.addr]
    omega
  · simp [kernel, count]
    omega
  · exact ⟨[_, _], _, rfl, rfl⟩

theorem used_kernel (base size n : Nat) : (kernel base size n).used = 208 + 8 * n := by
  simp [used, kernel, usedBy_cons]
  omega

end Region

theorem initKernelRegion_spec {n : Nat} (hroom : 208 + 8 * n ≤ size) (hsmall : size < 2147483648)
    (hfit : base + size < 18446744073709551616) :
    RegionAt (initKernelRegion m base size n) (Region.kernel base size n) ∧
      WritesOnly m (initKernelRegion m base size n) base (base + size) := by
  have harr : ((base : Int) + size - 5 * CHUNK_ARR).toNat = base + size - 40 := by
    simp only [CHUNK_ARR]
    omega
  have hsz : i32 (size : Int) = size := i32_of_range (by omega) (by omega)
  have hused : i32 ((REGION_INFO_SIZE : Int) + HEAP_INFO_SIZE + 5 * CHUNK_INFO_SIZE
      + n * REGION_ARR + 5 * CHUNK_ARR) = (208 + 8 * n : Nat) := by
    simp only [REGION_INFO_SIZE, HEAP_INFO_SIZE, CHUNK_INFO_SIZE, REGION_ARR, CHUNK_ARR]
    exact (i32_of_range (by omega) (by omega)).trans (by omega)
  have hregArr : i32 ((n : Int) * REGION_ARR) = (8 * n : Nat) := by
    simp only [REGION_ARR]
    exact (i32_of_range (by omega) (by omega)).trans (by omega)
  have hfree : i32 ((size : Int) - (208 + 8 * n : Nat)) = (size - (208 + 8 * n) : Nat) :=
    (i32_of_range (by omega) (by omega)).trans (by omega)
  have htail : (((base + CHUNK_INFO_SIZE + REGION_INFO_SIZE + CHUNK_INFO_SIZE + HEAP_INFO_SIZE
      + CHUNK_INFO_SIZE : Nat) : Int) + n * REGION_ARR + CHUNK_INFO_SIZE).toNat
      = base + 120 + 8 * n + 24 := by
    simp only [REGION_INFO_SIZE, HEAP_INFO_SIZE, CHUNK_INFO_SIZE, REGION_ARR]
    omega
  have hentries : (Region.kernel base size n).entries.map (Chunk.smart base) =
      [⟨40, RESERVED, base, base + size - 40⟩, ⟨32, RESERVED, base, base + 24⟩,
        ⟨16, RESERVED, base, base + 80⟩, ⟨(8 * n : Nat), RESERVED, base, base + 120⟩,
        ⟨(size - (208 + 8 * n) : Nat), UNALLOCATED, base, base + 120 + 8 * n + 24⟩] := by
    have haddr : base + size - 40 - 24 + 24 = base + size - 40 := by omega
    have harrK : (Region.kernel base size n).arr = base + size - 40 := rfl
    simp only [Region.entries, Region.arrayChunk, harrK, List.map_cons, Chunk.smart, Chunk.addr,
      haddr]
    rfl
  have heq : initKernelRegion m base size n = layOut m (base + size - 40)
      [⟨40, RESERVED, base, base + size - 40⟩, ⟨32, RESERVED, base, base + 24⟩,
        ⟨16, RESERVED, base, base + 80⟩, ⟨(8 * n : Nat), RESERVED, base, base + 120⟩,
        ⟨(size - (208 + 8 * n) : Nat), UNALLOCATED, base, base + 120 + 8 * n + 24⟩]
      ⟨size, (208 + 8 * n : Nat), (5 : Nat), base, base + size - 40⟩ := by
    unfold initKernelRegion
    simp only [harr, hsz, hused, hregArr, hfree, htail]
    rfl
  rw [heq, ← hentries, ← Region.used_kernel base size n]
  refine layOut_spec (Region.kernel base size n) m
    (Region.sound_kernel hroom hsmall hfit) [_, _] rfl ?_
  simp only [Region.kernel, Region.arr, Region.count, Chunk.stop, List.length_cons,
    List.length_nil]
  omega

end Memory
end EmbeddedOS
