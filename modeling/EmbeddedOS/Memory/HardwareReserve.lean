import EmbeddedOS.Stdlib.StringOps

/-!
# The page allocator of `hardware_reserve.c`

One bit per 4096-byte chunk, kept in `MEMORY_MAP`. The array is declared with 64-bit words but
addressed 32 chunks to a word, and every mask is an `int` that is converted to 64 bits.
An access outside the array has no defined result; it is `none` here.
-/

namespace EmbeddedOS
namespace Memory

open Base Stdlib

/-! ## Globals -/

abbrev CHUNK_SIZE : Nat := 4096
abbrev KERNEL_RESERVED : Nat := 16 * 1024 * 1024
abbrev MAX_MEMORY : Nat := 1024 * 1024 * 1024

/-- Words of `MEMORY_MAP`. -/
abbrev MAP_WORDS : Nat := 24576

abbrev MEM_K : Nat := 0
abbrev MEM_U : Nat := 1

abbrev E_NOMEM : Int := 0x0014

/-- Contents of `MEMORY_MAP`, by word. -/
abbrev PageMap := Nat → BitVec 64

/-- The memory and the globals of `hardware_reserve.c`. -/
structure Machine where
  mem : ByteMem
  memoryMap : PageMap
  memoryTotal : Nat
  maxChunk : Nat
  memOffset : Nat

/-- Before `memory_init` the static storage is zero; only `MEM_OFFSET` has been assigned. -/
def Machine.atBoot (mem : ByteMem) (offset : Nat) : Machine :=
  { mem := mem, memoryMap := fun _ => 0#64, memoryTotal := 0, maxChunk := 0, memOffset := offset }

/-! ## The bitmap macros -/

/-- The `int` value `1 << (n & 31)`. -/
def bitMask (n : Nat) : BitVec 32 := 1#32 <<< (n % 32)

/-- Word `i` of the map becomes `v`. -/
def setWord (map : PageMap) (i : Nat) (v : BitVec 64) : PageMap :=
  fun j => if j = i then v else map j

/-- `words[n / 32] |= (1 << (n & 31))`. -/
def markUsed (map : PageMap) (n : Nat) : Option PageMap :=
  if n / 32 < MAP_WORDS then
    some (setWord map (n / 32) (map (n / 32) ||| (bitMask n).signExtend 64))
  else none

/-- `words[n / 32] &= ~(1 << (n & 31))`, where `relinquish` passes an `int`. -/
def markFree (map : PageMap) (n : Int) : Option PageMap :=
  let i := n.tdiv 32
  if 0 ≤ i ∧ i < MAP_WORDS then
    some (setWord map i.toNat
      (map i.toNat &&& (~~~ bitMask (n % 32).toNat).signExtend 64))
  else none

/-- `words[n / 32] & (1 << (n & 31))`, as a truth value. -/
def testUsed (map : PageMap) (n : Nat) : Option Bool :=
  if n / 32 < MAP_WORDS then
    some (decide (map (n / 32) &&& (bitMask n).signExtend 64 ≠ 0#64))
  else none

/-- `for (i = 0; i < n; i++) mark_used(first + i);` -/
def markUsedUpTo (map : PageMap) (first : Nat) : Nat → Option PageMap
  | 0 => some map
  | n + 1 => do
      let map' ← markUsedUpTo map first n
      markUsed map' (u64 (first + n))

/-- `for (i = 0; i < n; i++) mark_free(first + i);` -/
def markFreeUpTo (map : PageMap) (first : Int) : Nat → Option PageMap
  | 0 => some map
  | n + 1 => do
      let map' ← markFreeUpTo map first n
      markFree map' (i32 (first + n))

/-- `for (i = 0; i < n; i++) MEMORY_MAP[i] = 0;` -/
def clearWords (map : PageMap) : Nat → PageMap
  | 0 => map
  | n + 1 => setWord (clearWords map n) n 0#64

/-! ## Initialisation -/

/-- `mem_init`: returns `-E_NOMEM` and leaves the map alone when a size is too large. -/
def memInit (s : Machine) (memory_total memory_kernel : Nat) : Option (Int × Machine) :=
  if memory_total > s.memoryTotal then some (-E_NOMEM, s)
  else if memory_kernel > KERNEL_RESERVED then some (-E_NOMEM, s)
  else do
    let cleared := clearWords s.memoryMap (memory_kernel / CHUNK_SIZE)
    let map ← markUsedUpTo cleared 0 (memory_kernel / CHUNK_SIZE)
    some (0, { s with maxChunk := u32 ((memory_total / CHUNK_SIZE : Nat) : Int), memoryMap := map })

def memoryInit (s : Machine) (mem_kernel : Nat) : Option Machine := do
  let (_, s') ← memInit { s with memoryTotal := MAX_MEMORY } MAX_MEMORY mem_kernel
  some s'

/-! ## Searching -/

/-- The inner loop of `find_free`: counts from `j`, for at most `left` more chunks, and stops at
the first used one. -/
def scanRun (map : PageMap) (i : Nat) : Nat → Nat → Option Nat
  | 0, j => some j
  | left + 1, j => do
      let used ← testUsed map (u64 (i + j))
      if used then some j else scanRun map i left (j + 1)

/-- `-1` as an `unsigned long`. -/
abbrev NOT_FOUND : Nat := 18446744073709551615

/-- The outer loop of `find_free` from chunk `i`, with `left` chunks to go before `stop`. -/
def findFreeFrom (map : PageMap) (n stop : Nat) : Nat → Nat → Option Nat
  | 0, _ => some NOT_FOUND
  | left + 1, i => do
      let used ← testUsed map i
      if used then findFreeFrom map n stop left (i + 1)
      else do
        let j ← scanRun map i n 0
        if j = n ∧ u64 (i + j) < stop then some i
        else findFreeFrom map n stop left (i + 1)

/-- `find_free`; `n_chunks` is an `int` that the loop compares as an `unsigned long`. -/
def findFree (map : PageMap) (n_chunks : Int) (start stop : Nat) : Option Nat :=
  findFreeFrom map (u64 n_chunks) stop (stop - start) start

/-- The loop of `sum_free`. -/
def countFree (map : PageMap) : Nat → Option Nat
  | 0 => some 0
  | n + 1 => do
      let total ← countFree map n
      let used ← testUsed map n
      some (if used then total else total + 1)

def sumFree (s : Machine) : Option Int := do
  let total ← countFree s.memoryMap s.maxChunk
  some (i32 (total * CHUNK_SIZE))

/-! ## Reserving and relinquishing -/

/-- The part of `reserve` after the zone is chosen. -/
def reserveIn (s : Machine) (n start stop : Nat) : Option (Nat × Machine) := do
  let first ← findFree s.memoryMap (i32 n) start stop
  -- `first_chunk < 0` on an `unsigned long`.
  if (first : Int) < 0 then some (0, s)
  else do
    let map ← markUsedUpTo s.memoryMap first n
    let addr := u64 (first * CHUNK_SIZE + s.memOffset)
    some (addr, { s with
      memoryMap := map
      mem := memset s.mem addr 0 (u32 (n * CHUNK_SIZE)) })

def reserve (s : Machine) (n_chunks type : Nat) : Option (Nat × Machine) :=
  let n := if n_chunks = 0 then 1 else n_chunks
  if type = MEM_K then reserveIn s n 0 (KERNEL_RESERVED / CHUNK_SIZE)
  else if type = MEM_U then reserveIn s n (KERNEL_RESERVED / CHUNK_SIZE) s.maxChunk
  else some (0, s)

def relinquish (s : Machine) (start n_chunks : Nat) : Option (Int × Machine) := do
  let first := (i32 ((start : Int) - s.memOffset)).tdiv CHUNK_SIZE
  let map ← markFreeUpTo s.memoryMap first n_chunks
  some (0, { s with
    memoryMap := map
    -- The pages are overwritten with the character V.
    mem := memset s.mem start 86 (u32 (n_chunks * CHUNK_SIZE)) })

end Memory
end EmbeddedOS
