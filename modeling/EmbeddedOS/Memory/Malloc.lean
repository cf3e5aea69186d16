import EmbeddedOS.Memory.HardwareReserve

/-!
# The heap of `malloc.c`

A heap is a kernel region that holds the `heap_t` record and the list of regions, and user
regions that serve requests. The metadata lives in the same memory as the blocks: a `region_t`
at the start of each region, a `smart_ptr` header before each block, and at the end of the region
the array of pointers to the headers, which slides down when a block is carved off and up when
two blocks are merged. All of it is read from and written to the byte memory, through the
pointers stored there, in the order of the source.
-/

namespace EmbeddedOS
namespace Memory

open Base Base.ByteMem Stdlib

/-! ## Constants and records of `malloc.h` -/

abbrev UNALLOCATED : Int := 0
abbrev RESERVED : Int := 1
abbrev CULLED : Int := 2

abbrev ALIGN : Nat := 4096

/-- `sizeof(smart_ptr)` -/
abbrev CHUNK_INFO_SIZE : Nat := 24
/-- `sizeof(region_t)` -/
abbrev REGION_INFO_SIZE : Nat := 32
/-- `sizeof(heap_t)` -/
abbrev HEAP_INFO_SIZE : Nat := 16
/-- `sizeof(region_t *)` -/
abbrev REGION_ARR : Nat := 8
/-- `sizeof(smart_ptr *)` -/
abbrev CHUNK_ARR : Nat := 8
abbrev NEW_REGION_SIZE : Nat := REGION_INFO_SIZE + 3 * CHUNK_INFO_SIZE + 3 * CHUNK_ARR

/-- `struct smart_ptr`. -/
structure SmartPtr where
  size : Int
  flag : Int
  base : Nat
  addr : Nat

/-- `struct region_t`. -/
structure RegionInfo where
  allocSize : Int
  usedSize : Int
  nChunks : Int
  baseAddr : Nat
  chunks : Nat

/-- `struct heap_t`. -/
structure HeapInfo where
  alignment : Int
  nRegions : Int
  regions : Nat

/-- `F_CHECK`: the low two bits of a flag. -/
def fCheck (flag : Int) : Int := flag % 2 + flag / 2 % 2 * 2

/-! ## Reading the records -/

def alignment (m : ByteMem) (h : Nat) : Int := loadInt m h
def nRegions (m : ByteMem) (h : Nat) : Int := loadInt m (h + 4)
def regions (m : ByteMem) (h : Nat) : Nat := loadPtr m (h + 8)

/-- `h->regions[i]` -/
def regionPtr (m : ByteMem) (h i : Nat) : Nat := loadPtr m (regions m h + 8 * i)

def allocSize (m : ByteMem) (r : Nat) : Int := loadInt m r
def usedSize (m : ByteMem) (r : Nat) : Int := loadInt m (r + 4)
def nChunks (m : ByteMem) (r : Nat) : Int := loadInt m (r + 8)
def baseAddr (m : ByteMem) (r : Nat) : Nat := loadPtr m (r + 16)
def chunks (m : ByteMem) (r : Nat) : Nat := loadPtr m (r + 24)

/-- `&r->chunks[j]` -/
def entryAddr (m : ByteMem) (r : Nat) (j : Int) : Nat := ((chunks m r : Int) + 8 * j).toNat

/-- `r->chunks[j]` -/
def chunkPtr (m : ByteMem) (r : Nat) (j : Int) : Nat := loadPtr m (entryAddr m r j)

def chunkSize (m : ByteMem) (c : Nat) : Int := loadInt m c
def chunkFlag (m : ByteMem) (c : Nat) : Int := loadInt m (c + 4)
def chunkAddr (m : ByteMem) (c : Nat) : Nat := loadPtr m (c + 16)

/-! ## Writing the records -/

def storeSmartPtr (m : ByteMem) (c : Nat) (p : SmartPtr) : ByteMem :=
  storePtr (storePtr (storeInt (storeInt m c p.size) (c + 4) p.flag) (c + 8) p.base) (c + 16) p.addr

def storeRegionInfo (m : ByteMem) (r : Nat) (p : RegionInfo) : ByteMem :=
  storePtr (storePtr (storeInt (storeInt (storeInt m r p.allocSize) (r + 4) p.usedSize)
    (r + 8) p.nChunks) (r + 16) p.baseAddr) (r + 24) p.chunks

def storeHeapInfo (m : ByteMem) (h : Nat) (p : HeapInfo) : ByteMem :=
  storePtr (storeInt (storeInt m h p.alignment) (h + 4) p.nRegions) (h + 8) p.regions

/-- `h->regions[i]->used_size = v` -/
def setUsedSize (m : ByteMem) (h i : Nat) (v : Int) : ByteMem :=
  storeInt m (regionPtr m h i + 4) v

/-- `h->regions[i]->n_chunks = v` -/
def setNChunks (m : ByteMem) (h i : Nat) (v : Int) : ByteMem :=
  storeInt m (regionPtr m h i + 8) v

/-- `h->regions[i]->chunks = v` -/
def setChunks (m : ByteMem) (h i v : Nat) : ByteMem :=
  storePtr m (regionPtr m h i + 24) v

/-- `h->regions[i]->chunks[j] = v` -/
def setChunkPtr (m : ByteMem) (h i : Nat) (j : Int) (v : Nat) : ByteMem :=
  storePtr m (entryAddr m (regionPtr m h i) j) v

/-- `*h->regions[i]->chunks[j] = p` -/
def setChunk (m : ByteMem) (h i : Nat) (j : Int) (p : SmartPtr) : ByteMem :=
  storeSmartPtr m (chunkPtr m (regionPtr m h i) j) p

/-- `h->regions[i]->chunks[j]->size = v` -/
def setChunkSize (m : ByteMem) (h i : Nat) (j v : Int) : ByteMem :=
  storeInt m (chunkPtr m (regionPtr m h i) j) v

/-- `h->regions[i]->chunks[j]->flag = v` -/
def setChunkFlag (m : ByteMem) (h i : Nat) (j v : Int) : ByteMem :=
  storeInt m (chunkPtr m (regionPtr m h i) j + 4) v

/-! ## Laying out a region -/

/-- The user-region part of `create` and `create_region`: three chunks, the chunk array, the
region record and an unallocated tail. -/
def initUserRegion (m : ByteMem) (base_reg1 : Nat) (size : Int) : ByteMem :=
  let regInfo : SmartPtr :=
    { size := REGION_INFO_SIZE, flag := RESERVED, base := base_reg1
      addr := base_reg1 + CHUNK_INFO_SIZE }
  let chunkArr : SmartPtr :=
    { size := 3 * CHUNK_ARR, flag := RESERVED, base := base_reg1
      addr := ((base_reg1 : Int) + size - 3 * CHUNK_ARR).toNat }
  let reg1 : RegionInfo :=
    { allocSize := i32 size, usedSize := REGION_INFO_SIZE + 3 * CHUNK_INFO_SIZE + 3 * CHUNK_ARR
      nChunks := 3, baseAddr := base_reg1, chunks := chunkArr.addr }
  let freeSpace : SmartPtr :=
    { size := i32 (size - reg1.usedSize), flag := UNALLOCATED, base := base_reg1
      addr := regInfo.addr + REGION_INFO_SIZE + CHUNK_INFO_SIZE }
  let arr := chunkArr.addr
  let m := storePtr m arr (chunkArr.addr - CHUNK_INFO_SIZE)
  let m := storePtr m (arr + 8) (regInfo.addr - CHUNK_INFO_SIZE)
  let m := storePtr m (arr + 16) (freeSpace.addr - CHUNK_INFO_SIZE)
  let m := storeSmartPtr m (loadPtr m arr) chunkArr
  let m := storeSmartPtr m (loadPtr m (arr + 8)) regInfo
  let m := storeSmartPtr m (loadPtr m (arr + 16)) freeSpace
  let m := storeRegionInfo m (chunkAddr m (loadPtr m (arr + 8))) reg1
  let tail := loadPtr m (arr + 16)
  memset m (chunkAddr m tail) 0 (u32 (chunkSize m tail))

/-- Address of the `region_t` that `initUserRegion` writes. -/
def regInfoAddr (base_reg1 : Nat) : Nat := base_reg1 + CHUNK_INFO_SIZE

/-- The kernel-region part of `create` (two regions) and `grow_kheap` (`n` regions): five chunks
for the chunk array, the region record, the heap record, the region array and the tail. -/
def initKernelRegion (m : ByteMem) (base_kheap : Nat) (size n : Int) : ByteMem :=
  let heapRegInfo : SmartPtr :=
    { size := REGION_INFO_SIZE, flag := RESERVED, base := base_kheap
      addr := base_kheap + CHUNK_INFO_SIZE }
  let heapPtr : SmartPtr :=
    { size := HEAP_INFO_SIZE, flag := RESERVED, base := base_kheap
      addr := heapRegInfo.addr + REGION_INFO_SIZE + CHUNK_INFO_SIZE }
  let regArr : SmartPtr :=
    { size := i32 (n * REGION_ARR), flag := RESERVED, base := base_kheap
      addr := heapPtr.addr + HEAP_INFO_SIZE + CHUNK_INFO_SIZE }
  let heapChunkArr : SmartPtr :=
    { size := 5 * CHUNK_ARR, flag := RESERVED, base := base_kheap
      addr := ((base_kheap : Int) + size - 5 * CHUNK_ARR).toNat }
  let kheap : RegionInfo :=
    { allocSize := i32 size
      usedSize := i32 (REGION_INFO_SIZE + HEAP_INFO_SIZE + 5 * CHUNK_INFO_SIZE + n * REGION_ARR
        + 5 * CHUNK_ARR)
      nChunks := 5, baseAddr := base_kheap, chunks := heapChunkArr.addr }
  let heapFreeSpace : SmartPtr :=
    { size := i32 (size - kheap.usedSize), flag := UNALLOCATED, base := base_kheap
      addr := ((regArr.addr : Int) + n * REGION_ARR + CHUNK_INFO_SIZE).toNat }
  let arr := heapChunkArr.addr
  let m := storePtr m arr (heapChunkArr.addr - CHUNK_INFO_SIZE)
  let m := storePtr m (arr + 8) (heapRegInfo.addr - CHUNK_INFO_SIZE)
  let m := storePtr m (arr + 16) (heapPtr.addr - CHUNK_INFO_SIZE)
  let m := storePtr m (arr + 24) (regArr.addr - CHUNK_INFO_SIZE)
  let m := storePtr m (arr + 32) (heapFreeSpace.addr - CHUNK_INFO_SIZE)
  let m := storeSmartPtr m (loadPtr m arr) heapChunkArr
  let m := storeSmartPtr m (loadPtr m (arr + 8)) heapRegInfo
  let m := storeSmartPtr m (loadPtr m (arr + 16)) heapPtr
  let m := storeSmartPtr m (loadPtr m (arr + 24)) regArr
  let m := storeSmartPtr m (loadPtr m (arr + 32)) heapFreeSpace
  let m := storeRegionInfo m (chunkAddr m (loadPtr m (arr + 8))) kheap
  let tail := loadPtr m (arr + 32)
  memset m (chunkAddr m tail) 0 (u32 (chunkSize m tail))

/-- Address of the `heap_t` in a kernel region. -/
def heapInfoAddr (base_kheap : Nat) : Nat :=
  base_kheap + CHUNK_INFO_SIZE + REGION_INFO_SIZE + CHUNK_INFO_SIZE

/-- Address of the region array in a kernel region. -/
def regArrAddr (base_kheap : Nat) : Nat :=
  heapInfoAddr base_kheap + HEAP_INFO_SIZE + CHUNK_INFO_SIZE

/-! ## `create`, `grow_kheap`, `create_region` -/

/-- `create`; the result is the `heap_t` pointer, 0 for `NULL`. Division by a zero alignment has
no result. -/
def create (s : Machine) (alignment size : Nat) : Option (Nat × Machine) := do
  if alignment = 0 then none
  else
    let (base_kheap, s) ← reserve s (size / alignment) MEM_K
    if base_kheap = 0 then some (0, s)
    else
      let s := { s with mem := memset s.mem base_kheap 0 size }
      let (base_reg1, s) ← reserve s (size / alignment) MEM_U
      if base_reg1 = 0 then some (0, s)
      else
        let m := memset s.mem base_reg1 0 size
        let m := initKernelRegion m base_kheap size 2
        let m := initUserRegion m base_reg1 size
        let m := storePtr m (regArrAddr base_kheap) (base_kheap + CHUNK_INFO_SIZE)
        let m := storePtr m (regArrAddr base_kheap + 8) (regInfoAddr base_reg1)
        -- `kheap.chunks[2]->addr`, read back through the chunk array.
        let arr := ((base_kheap : Int) + size - 5 * CHUNK_ARR).toNat
        let h := chunkAddr m (loadPtr m (arr + 16))
        let m := storeHeapInfo m h
          { alignment := i32 alignment, nRegions := 2, regions := regArrAddr base_kheap }
        some (chunkAddr m (loadPtr m (arr + 16)), { s with mem := m })

/-- `grow_kheap`: a larger kernel region with a copy of the region array; the old one is
relinquished and the new `heap_t` pointer returned, 0 for `NULL`. -/
def growKheap (s : Machine) (h : Nat) : Option (Nat × Machine) := do
  let align := alignment s.mem h
  let size := i32 (allocSize s.mem (regionPtr s.mem h 0) + align)
  if align = 0 then none
  else
    let (base_kheap, s) ← reserve s (u32 (size.tdiv align)) MEM_K
    if base_kheap = 0 then some (0, s)
    else
      let m := memset s.mem base_kheap 0 (u32 size)
      let n := nRegions m h
      let m := initKernelRegion m base_kheap size n
      let m := storePtr m (regArrAddr base_kheap) (base_kheap + CHUNK_INFO_SIZE)
      let m := memcpy m (regArrAddr base_kheap + REGION_ARR) (regions m h + REGION_ARR)
        (u32 ((nRegions m h - 1) * REGION_ARR))
      let arr := ((base_kheap : Int) + size - 5 * CHUNK_ARR).toNat
      let m := storeHeapInfo m (chunkAddr m (loadPtr m (arr + 16)))
        { alignment := align, nRegions := n, regions := regArrAddr base_kheap }
      let (_, s) ← relinquish { s with mem := m } (baseAddr m (regionPtr m h 0))
        (u32 ((allocSize m (regionPtr m h 0)).tdiv ALIGN))
      some (chunkAddr s.mem (loadPtr s.mem (arr + 16)), s)

/-- The last part of `create_region`: the kernel region's tail gives up one slot to the region
array. -/
def appendRegion (m : ByteMem) (h base_reg1 : Nat) : ByteMem :=
  let last := nChunks m (regionPtr m h 0) - 1
  let tail := chunkPtr m (regionPtr m h 0) last
  let newFree : SmartPtr :=
    { addr := chunkAddr m tail + REGION_ARR, base := base_reg1, flag := UNALLOCATED
      size := i32 (chunkSize m tail - REGION_ARR) }
  let m := storeInt m (h + 4) (i32 (nRegions m h + 1))
  let m := storePtr m ((regions m h : Int) + 8 * (nRegions m h - 1)).toNat (regInfoAddr base_reg1)
  let m := storeSmartPtr m (newFree.addr - CHUNK_INFO_SIZE) newFree
  let m := setChunkPtr m h 0 (nChunks m (regionPtr m h 0) - 1) (newFree.addr - CHUNK_INFO_SIZE)
  let m := setUsedSize m h 0 (i32 (usedSize m (regionPtr m h 0) + REGION_ARR))
  setChunkSize m h 0 3 (i32 (chunkSize m (chunkPtr m (regionPtr m h 0) 3) + REGION_ARR))

/-- `create_region`; `h` is passed by value, so a pointer that `grow_kheap` returned stays in
here. -/
def createRegion (s : Machine) (h : Nat) (size : Int) : Option Machine := do
  let (base_reg1, s) ← reserve s (u32 (size.tdiv ALIGN)) MEM_U
  if base_reg1 = 0 then some s
  else
    let s := { s with mem := memset s.mem base_reg1 0 (u32 size) }
    let kernel := regionPtr s.mem h 0
    let (h, s) ←
      if i32 (allocSize s.mem kernel - usedSize s.mem kernel) < (REGION_ARR : Int) then growKheap s h
      else some (h, s)
    if h = 0 then some s
    else
      let m := initUserRegion s.mem base_reg1 size
      some { s with mem := appendRegion m h base_reg1 }

/-! ## `alloc` -/

/-- The last chunk of region `i`. -/
def tailPtr (m : ByteMem) (h i : Nat) : Nat :=
  chunkPtr m (regionPtr m h i) (nChunks m (regionPtr m h i) - 1)

/-- The test of `alloc`: room for a header, the block and one more array entry in the tail. -/
def fits (m : ByteMem) (h i n : Nat) : Bool :=
  decide (chunkSize m (tailPtr m h i) > i32 (n + CHUNK_INFO_SIZE + CHUNK_ARR)) &&
    decide (fCheck (chunkFlag m (tailPtr m h i)) = 0)

/-- The first region from `i` on, among `left` regions, that passes the test. -/
def findRoom (m : ByteMem) (h n : Nat) : Nat → Nat → Option Nat
  | 0, _ => none
  | left + 1, i => if fits m h i n then some i else findRoom m h n left (i + 1)

/-- Carve a block of `n` bytes off the tail of region `i`. -/
def carve (m : ByteMem) (h i n : Nat) : Nat × ByteMem :=
  let r := regionPtr m h i
  let tail := tailPtr m h i
  let newChunk : SmartPtr :=
    { addr := chunkAddr m (chunkPtr m r 0) - CHUNK_ARR
      size := i32 ((nChunks m r + 1) * CHUNK_ARR), base := baseAddr m r, flag := RESERVED }
  let usrSmart : SmartPtr :=
    { addr := chunkAddr m tail, size := i32 n, base := baseAddr m r, flag := RESERVED }
  let newFree : SmartPtr :=
    { addr := chunkAddr m tail + n + CHUNK_INFO_SIZE
      size := i32 (chunkSize m tail - (n + CHUNK_INFO_SIZE + CHUNK_ARR))
      base := baseAddr m r, flag := UNALLOCATED }
  let m := memmove m newChunk.addr (chunks m r) (u32 (nChunks m r * CHUNK_ARR))
  let m := setNChunks m h i (i32 (nChunks m (regionPtr m h i) + 1))
  let m := setChunks m h i newChunk.addr
  let m := setChunkPtr m h i 0 (newChunk.addr - CHUNK_INFO_SIZE)
  let m := setChunkPtr m h i (nChunks m (regionPtr m h i) - 2) (usrSmart.addr - CHUNK_INFO_SIZE)
  let m := setChunkPtr m h i (nChunks m (regionPtr m h i) - 1) (newFree.addr - CHUNK_INFO_SIZE)
  let m := setChunk m h i 0 newChunk
  let m := setChunk m h i (nChunks m (regionPtr m h i) - 2) usrSmart
  let m := setChunk m h i (nChunks m (regionPtr m h i) - 1) newFree
  let m := setUsedSize m h i
    (i32 (usedSize m (regionPtr m h i) + (n + CHUNK_INFO_SIZE + CHUNK_ARR)))
  (usrSmart.addr, m)

/-- The size `alloc` asks `create_region` for. -/
def newRegionSize (align : Int) (n : Nat) : Int :=
  i32 (u64 (((n + NEW_REGION_SIZE) / u64 align + 1 : Nat) * u64 align))

/-- `alloc`; the first argument bounds the number of recursive calls. -/
def alloc : Nat → Machine → Nat → Nat → Option (Nat × Machine)
  | 0, _, _, _ => none
  | fuel + 1, s, h, n =>
      match findRoom s.mem h n (nRegions s.mem h - 1).toNat 1 with
      | some i =>
          let (ptr, m) := carve s.mem h i n
          some (ptr, { s with mem := m })
      | none =>
          let align := alignment s.mem h
          if align = 0 then none
          else do
            let s' ← createRegion s h (newRegionSize align n)
            alloc fuel s' h n

/-! ## `cull` -/

/-- The inner search loop from chunk `j`, with `left` chunks to go. -/
def findChunk (m : ByteMem) (r ptr : Nat) : Nat → Nat → Bool × Nat
  | 0, j => (false, j)
  | left + 1, j =>
      if chunkAddr m (chunkPtr m r j) = ptr then (true, j) else findChunk m r ptr left (j + 1)

/-- The outer search loop from region `i`, with `left` regions to go; `j` is what the inner loop
left behind. -/
def findBlock (m : ByteMem) (h ptr : Nat) : Nat → Nat → Nat → Bool × Nat × Nat
  | 0, i, j => (false, i, j)
  | left + 1, i, _ =>
      let r := regionPtr m h i
      match findChunk m r ptr (nChunks m r).toNat 0 with
      | (true, j) => (true, i, j)
      | (false, j) => findBlock m h ptr left (i + 1) j

/-- Mark the chunk as culled and take it off the used size. -/
def markCulled (m : ByteMem) (h i : Nat) (j : Int) : ByteMem :=
  let m := setChunkFlag m h i j CULLED
  setUsedSize m h i (i32 (usedSize m (regionPtr m h i)
    - (chunkSize m (chunkPtr m (regionPtr m h i) j) + CHUNK_INFO_SIZE + CHUNK_ARR)))

/-- The flag of chunk `j`. -/
def flagAt (m : ByteMem) (h i : Nat) (j : Int) : Int :=
  chunkFlag m (chunkPtr m (regionPtr m h i) j)

/-- The condition of the merge with the chunk before. -/
def leftFree (m : ByteMem) (h i : Nat) (j : Int) : Bool :=
  (decide (flagAt m h i j = CULLED) && decide (fCheck (flagAt m h i (j - 1)) = 0)) ||
    (decide (flagAt m h i j = CULLED) && decide (flagAt m h i (j - 1) = CULLED))

/-- The merge of chunk `j` with the chunk before. -/
def mergeLeft (m : ByteMem) (h i : Nat) (j : Int) : ByteMem :=
  let r := regionPtr m h i
  let newFree : SmartPtr :=
    { addr := chunkAddr m (chunkPtr m r (j - 1)), base := baseAddr m r, flag := UNALLOCATED
      size := i32 (chunkSize m (chunkPtr m r (j - 1)) + CHUNK_INFO_SIZE
        + chunkSize m (chunkPtr m r j)) }
  let newChunk : SmartPtr :=
    { addr := chunks m r + CHUNK_ARR, base := baseAddr m r, flag := RESERVED
      size := i32 (chunkSize m (chunkPtr m r 0) - CHUNK_ARR) }
  let m := memmove m newChunk.addr (chunks m r) (u32 (j * CHUNK_ARR))
  let m := setChunks m h i newChunk.addr
  let m := setChunkPtr m h i 0 (newChunk.addr - CHUNK_INFO_SIZE)
  let m := setChunkPtr m h i (j - 1) (newFree.addr - CHUNK_INFO_SIZE)
  let m := storeSmartPtr m (newFree.addr - CHUNK_INFO_SIZE) newFree
  let m := storeSmartPtr m (newChunk.addr - CHUNK_INFO_SIZE) newChunk
  let m := setNChunks m h i (i32 (nChunks m (regionPtr m h i) - 1))
  let last := nChunks m (regionPtr m h i) - 1
  setChunkSize m h i last (i32 (chunkSize m (chunkPtr m (regionPtr m h i) last) + CHUNK_ARR))

/-- The condition of the merge with the chunk after. -/
def rightFree (m : ByteMem) (h i : Nat) (j : Int) : Bool :=
  (decide (fCheck (flagAt m h i j) = 0) && decide (fCheck (flagAt m h i (j + 1)) = 0)) ||
    (decide (fCheck (flagAt m h i j) = 0) && decide (flagAt m h i (j + 1) = CULLED)) ||
    (decide (flagAt m h i j = CULLED) && decide (fCheck (flagAt m h i (j + 1)) = 0)) ||
    (decide (flagAt m h i j = CULLED) && decide (flagAt m h i (j + 1) = CULLED))

/-- The merge of chunk `j` with the chunk after. The merged chunk is given the address that
`cull` was called with, also when a merge to the left came first. -/
def mergeRight (m : ByteMem) (h i : Nat) (j : Int) (ptr : Nat) : ByteMem :=
  let r := regionPtr m h i
  let newFree : SmartPtr :=
    { addr := ptr, base := baseAddr m r, flag := UNALLOCATED
      size := i32 (chunkSize m (chunkPtr m r (j + 1)) + CHUNK_INFO_SIZE
        + chunkSize m (chunkPtr m r j)) }
  let newChunk : SmartPtr :=
    { addr := chunks m r + CHUNK_ARR, base := baseAddr m r, flag := RESERVED
      size := i32 (chunkSize m (chunkPtr m r 0) - CHUNK_ARR) }
  let m := storeSmartPtr m (newFree.addr - CHUNK_INFO_SIZE) newFree
  let m := memmove m newChunk.addr (chunks m (regionPtr m h i)) (u32 (j * CHUNK_ARR))
  let m := storeSmartPtr m (newChunk.addr - CHUNK_INFO_SIZE) newChunk
  let m := setChunks m h i newChunk.addr
  let m := setChunkPtr m h i 0 (newChunk.addr - CHUNK_INFO_SIZE)
  let m := setChunkPtr m h i j (newFree.addr - CHUNK_INFO_SIZE)
  let m := setNChunks m h i (i32 (nChunks m (regionPtr m h i) - 1))
  let last := nChunks m (regionPtr m h i) - 1
  setChunkSize m h i last (i32 (chunkSize m (chunkPtr m (regionPtr m h i) last) + CHUNK_ARR))

def cull (m : ByteMem) (h ptr : Nat) : ByteMem :=
  let (found, i, j) := findBlock m h ptr (nRegions m h - 1).toNat 1 0
  let m := if found then markCulled m h i j else m
  let (m, j) : ByteMem × Int :=
    if leftFree m h i j then (mergeLeft m h i j, (j : Int) - 1) else (m, (j : Int))
  if rightFree m h i j then mergeRight m h i j ptr else m

/-! ## `change` -/

/-- `change`; the result is the new pointer, 0 for `NULL`. -/
def change (fuel : Nat) (s : Machine) (h ptr : Nat) (size : Int) : Option (Nat × Machine) := do
  let (found, i, j) := findBlock s.mem h ptr (nRegions s.mem h - 1).toNat 1 0
  if found = false then some (0, s)
  else
    let (new_ptr, s) ← alloc fuel s h (u32 size)
    if new_ptr = 0 then some (0, s)
    else
      let old := chunkSize s.mem (chunkPtr s.mem (regionPtr s.mem h i) j)
      let m := memcpy s.mem new_ptr ptr (if size > old then u32 old else u32 size)
      some (new_ptr, { s with mem := cull m h ptr })

end Memory
end EmbeddedOS
