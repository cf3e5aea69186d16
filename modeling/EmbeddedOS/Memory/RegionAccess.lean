import EmbeddedOS.Memory.RegionLayout

/-!
# Reaching a region through the heap

Every assignment of `malloc.c` starts from `h->regions[i]`. As long as the writes stay inside the
region, the pointers on the way there do not change, and each assignment is one store at a known
address. The rest of the module says which cells survive which stores.
-/

namespace EmbeddedOS
namespace Memory

open Base Base.ByteMem Stdlib

/-! ## Stores of whole headers -/

section Headers

variable {m : ByteMem} {c b : Nat} {p : SmartPtr}

theorem loadInt_storeSmartPtr (h : b + 4 ≤ c ∨ c + 24 ≤ b) :
    loadInt (storeSmartPtr m c p) b = loadInt m b := by
  unfold storeSmartPtr
  rw [loadInt_storePtr (by omega), loadInt_storePtr (by omega), loadInt_storeInt (by omega),
    loadInt_storeInt (by omega)]

theorem loadPtr_storeSmartPtr (h : b + 8 ≤ c ∨ c + 24 ≤ b) :
    loadPtr (storeSmartPtr m c p) b = loadPtr m b := by
  unfold storeSmartPtr
  rw [loadPtr_storePtr (by omega), loadPtr_storePtr (by omega), loadPtr_storeInt (by omega),
    loadPtr_storeInt (by omega)]

theorem writesOnly_storeSmartPtr (m : ByteMem) (c : Nat) (p : SmartPtr) :
    WritesOnly m (storeSmartPtr m c p) c (c + 24) := by
  unfold storeSmartPtr
  refine ((((WritesOnly.storeInt m c _).mono ?_ ?_).trans
    ((WritesOnly.storeInt _ (c + 4) _).mono ?_ ?_)).trans
    ((WritesOnly.storePtr _ (c + 8) _).mono ?_ ?_)).trans
    ((WritesOnly.storePtr _ (c + 16) _).mono ?_ ?_) <;> omega

theorem flag_code_bounds (f : Flag) : -2147483648 ≤ f.code ∧ f.code < 2147483648 := by
  cases f <;> decide

/-- A header with these fields stands at `c`. -/
structure HeaderIs (m : ByteMem) (c : Nat) (size flag : Int) (addr : Nat) : Prop where
  size : chunkSize m c = size
  flag : chunkFlag m c = flag
  addr : chunkAddr m c = addr

theorem headerIs_storeSmartPtr (m : ByteMem) (c : Nat) {p : SmartPtr}
    (hsize : -2147483648 ≤ p.size ∧ p.size < 2147483648)
    (hflag : -2147483648 ≤ p.flag ∧ p.flag < 2147483648) (haddr : p.addr < 18446744073709551616) :
    HeaderIs (storeSmartPtr m c p) c p.size p.flag p.addr := by
  refine ⟨?_, ?_, ?_⟩
  · unfold chunkSize storeSmartPtr
    rw [loadInt_storePtr (by omega), loadInt_storePtr (by omega), loadInt_storeInt (by omega),
      loadInt_storeInt_same _ _ hsize.1 hsize.2]
  · unfold chunkFlag storeSmartPtr
    rw [loadInt_storePtr (by omega), loadInt_storePtr (by omega),
      loadInt_storeInt_same _ _ hflag.1 hflag.2]
  · unfold chunkAddr storeSmartPtr
    rw [loadPtr_storePtr_same _ _ haddr]

theorem HeaderIs.frame {m m' : ByteMem} {c addr : Nat} {size flag : Int}
    (h : HeaderIs m c size flag addr) (ha : AgreeOn m' m c (c + 24)) :
    HeaderIs m' c size flag addr := by
  refine ⟨?_, ?_, ?_⟩
  · exact (loadInt_congr (ha.mono (Nat.le_refl _) (by omega))).trans h.size
  · exact (loadInt_congr (ha.mono (by omega) (by omega))).trans h.flag
  · exact (loadPtr_congr (ha.mono (by omega) (by omega))).trans h.addr

/-- A stored header is the header of the chunk with its fields. -/
theorem headerAt_storeSmartPtr (m : ByteMem) (d : Chunk) (p : SmartPtr)
    (hsize : p.size = d.size) (hflag : p.flag = d.flag.code) (haddr : p.addr = d.addr)
    (hsmall : d.size < 2147483648) (hfit : d.addr < 18446744073709551616) :
    HeaderAt (storeSmartPtr m d.hdr p) d := by
  have hstored := headerIs_storeSmartPtr m d.hdr (p := p) (by omega)
    (by rw [hflag]; exact flag_code_bounds d.flag) (by omega)
  exact ⟨hstored.size.trans hsize, hstored.flag.trans hflag, hstored.addr.trans haddr⟩

end Headers

/-! ## Bytes that a store leaves alone -/

section Agree

variable {m m₀ : ByteMem} {lo hi : Nat}

theorem agree_of_writes {m' : ByteMem} {lo' hi' : Nat} (hw : WritesOnly m m' lo' hi')
    (hd : hi ≤ lo' ∨ hi' ≤ lo) : AgreeOn m' m₀ lo hi ↔ AgreeOn m m₀ lo hi := by
  have h := hw.agreeOn hd
  exact ⟨h.symm.trans, h.trans⟩

theorem agree_storeInt {a : Nat} {v : Int} (hd : hi ≤ a ∨ a + 4 ≤ lo) :
    AgreeOn (storeInt m a v) m₀ lo hi ↔ AgreeOn m m₀ lo hi :=
  agree_of_writes (.storeInt m a v) hd

theorem agree_storePtr {a v : Nat} (hd : hi ≤ a ∨ a + 8 ≤ lo) :
    AgreeOn (storePtr m a v) m₀ lo hi ↔ AgreeOn m m₀ lo hi :=
  agree_of_writes (.storePtr m a v) hd

theorem agree_storeSmartPtr {c : Nat} {p : SmartPtr} (hd : hi ≤ c ∨ c + 24 ≤ lo) :
    AgreeOn (storeSmartPtr m c p) m₀ lo hi ↔ AgreeOn m m₀ lo hi :=
  agree_of_writes (writesOnly_storeSmartPtr m c p) hd

theorem agree_copy {d s n : Nat} (hd : hi ≤ d ∨ d + n ≤ lo) :
    AgreeOn (copy m d s n) m₀ lo hi ↔ AgreeOn m m₀ lo hi :=
  agree_of_writes (.copy m d s n) hd

end Agree

/-! ## Assignments through the heap -/

/-- Region `i` of the heap has its record at `r`, its chunk array at `a` with `n` entries, and the
pointers that lead there lie outside `[lo, hi)`. -/
structure Reached (m : ByteMem) (h i lo hi r a n : Nat) : Prop where
  ptr : regionPtr m h i = r
  chunks : chunks m r = a
  nChunks : nChunks m r = n
  heap : h + 16 ≤ lo ∨ hi ≤ h
  slot : regions m h + 8 * i + 8 ≤ lo ∨ hi ≤ regions m h + 8 * i

namespace Reached

variable {m m' : ByteMem} {h i lo hi r a n : Nat}

theorem regionPtr_write (v : Reached m h i lo hi r a n) (hw : WritesOnly m m' lo hi) :
    regionPtr m' h i = r ∧ regions m' h = regions m h := by
  have hregs : regions m' h = regions m h :=
    loadPtr_congr (hw.agreeOn (by have := v.heap; omega))
  refine ⟨?_, hregs⟩
  rw [← v.ptr]
  unfold regionPtr
  rw [hregs]
  exact loadPtr_congr (hw.agreeOn (by have := v.slot; omega))

/-- A write in the region that leaves `n_chunks` and `chunks` alone. -/
theorem write (v : Reached m h i lo hi r a n) {lo' hi' : Nat} (hw : WritesOnly m m' lo' hi')
    (hlo : lo ≤ lo') (hhi : hi' ≤ hi) (hcount : hi' ≤ r + 8 ∨ r + 12 ≤ lo')
    (harr : hi' ≤ r + 24 ∨ r + 32 ≤ lo') : Reached m' h i lo hi r a n := by
  rcases v.regionPtr_write (hw.mono hlo hhi) with ⟨hptr, hregs⟩
  refine ⟨hptr, ?_, ?_, v.heap, ?_⟩
  · rw [← v.chunks]
    exact loadPtr_congr (hw.agreeOn (by omega))
  · rw [← v.nChunks]
    exact loadInt_congr (hw.agreeOn (by omega))
  · rw [hregs]
    exact v.slot

theorem setUsedSize_eq (v : Reached m h i lo hi r a n) (x : Int) :
    setUsedSize m h i x = storeInt m (r + 4) x := by
  rw [setUsedSize, v.ptr]

theorem setNChunks_eq (v : Reached m h i lo hi r a n) (x : Int) :
    setNChunks m h i x = storeInt m (r + 8) x := by
  rw [setNChunks, v.ptr]

theorem setChunks_eq (v : Reached m h i lo hi r a n) (x : Nat) :
    setChunks m h i x = storePtr m (r + 24) x := by
  rw [setChunks, v.ptr]

theorem setChunkPtr_eq (v : Reached m h i lo hi r a n) {j : Int} {x : Nat} (y : Nat)
    (hx : ((a : Int) + 8 * j).toNat = x) : setChunkPtr m h i j y = storePtr m x y := by
  rw [setChunkPtr, v.ptr, entryAddr, v.chunks, hx]

theorem chunkPtr_eq (v : Reached m h i lo hi r a n) {j : Int} {x : Nat}
    (hx : ((a : Int) + 8 * j).toNat = x) : chunkPtr m r j = loadPtr m x := by
  rw [chunkPtr, entryAddr, v.chunks, hx]

theorem setChunk_eq (v : Reached m h i lo hi r a n) {j : Int} {x c : Nat} (p : SmartPtr)
    (hx : ((a : Int) + 8 * j).toNat = x) (hc : loadPtr m x = c) :
    setChunk m h i j p = storeSmartPtr m c p := by
  rw [setChunk, v.ptr, v.chunkPtr_eq hx, hc]

theorem setChunkSize_eq (v : Reached m h i lo hi r a n) {j : Int} {x c : Nat} (y : Int)
    (hx : ((a : Int) + 8 * j).toNat = x) (hc : loadPtr m x = c) :
    setChunkSize m h i j y = storeInt m c y := by
  rw [setChunkSize, v.ptr, v.chunkPtr_eq hx, hc]

theorem setChunkFlag_eq (v : Reached m h i lo hi r a n) {j : Int} {x c : Nat} (y : Int)
    (hx : ((a : Int) + 8 * j).toNat = x) (hc : loadPtr m x = c) :
    setChunkFlag m h i j y = storeInt m (c + 4) y := by
  rw [setChunkFlag, v.ptr, v.chunkPtr_eq hx, hc]

/-- `chunks` moves. -/
theorem moved (v : Reached m h i lo hi r a n) {a' : Nat} (hlo : lo ≤ r) (hhi : r + 32 ≤ hi)
    (hfit : a' < 18446744073709551616) : Reached (storePtr m (r + 24) a') h i lo hi r a' n := by
  have hw : WritesOnly m (storePtr m (r + 24) a') lo hi :=
    (WritesOnly.storePtr m (r + 24) a').mono (by omega) (by omega)
  rcases v.regionPtr_write hw with ⟨hptr, hregs⟩
  refine ⟨hptr, loadPtr_storePtr_same _ _ hfit, ?_, v.heap, ?_⟩
  · rw [← v.nChunks]
    exact loadInt_storePtr (by omega)
  · rw [hregs]
    exact v.slot

/-- `n_chunks` changes. -/
theorem counted (v : Reached m h i lo hi r a n) {n' : Nat} (hlo : lo ≤ r) (hhi : r + 32 ≤ hi)
    (hfit : n' < 2147483648) : Reached (storeInt m (r + 8) n') h i lo hi r a n' := by
  have hw : WritesOnly m (storeInt m (r + 8) n') lo hi :=
    (WritesOnly.storeInt m (r + 8) n').mono (by omega) (by omega)
  rcases v.regionPtr_write hw with ⟨hptr, hregs⟩
  refine ⟨hptr, ?_, loadInt_storeInt_same _ _ (by omega) (by omega), v.heap, ?_⟩
  · rw [← v.chunks]
    exact loadPtr_storeInt (by omega)
  · rw [hregs]
    exact v.slot

end Reached

/-! ## Regions that the pointers lie outside of -/

/-- The pointers to region `i` lie outside the region. -/
structure Outside (m : ByteMem) (h i : Nat) (R : Region) : Prop where
  ptr : regionPtr m h i = R.record
  heap : h + 16 ≤ R.base ∨ R.base + R.size ≤ h
  slot : regions m h + 8 * i + 8 ≤ R.base ∨ R.base + R.size ≤ regions m h + 8 * i

theorem RegionShape.reached {m : ByteMem} {h i : Nat} {R : Region} (hR : RegionShape m R)
    (ho : Outside m h i R) :
    Reached m h i R.base (R.base + R.size) R.record R.arr R.count :=
  ⟨ho.ptr, hR.chunks, hR.nChunks, ho.heap, ho.slot⟩

theorem Outside.reached {m : ByteMem} {h i : Nat} {R : Region} (ho : Outside m h i R)
    (hR : RegionAt m R) :
    Reached m h i R.base (R.base + R.size) R.record R.arr R.count :=
  hR.shape.reached ho

theorem Outside.write {m m' : ByteMem} {h i : Nat} {R R' : Region} (ho : Outside m h i R)
    (hw : WritesOnly m m' R.base (R.base + R.size)) (hbase : R'.base = R.base)
    (hsize : R'.size = R.size) : Outside m' h i R' := by
  have hregs : regions m' h = regions m h :=
    loadPtr_congr (hw.agreeOn (by have := ho.heap; omega))
  refine ⟨?_, by rw [hbase, hsize]; exact ho.heap, by rw [hbase, hsize, hregs]; exact ho.slot⟩
  have hptr : regionPtr m' h i = regionPtr m h i := by
    unfold regionPtr
    rw [hregs]
    exact loadPtr_congr (hw.agreeOn (by have := ho.slot; omega))
  rw [hptr, ho.ptr, Region.record, Region.record, hbase]

end Memory
end EmbeddedOS
