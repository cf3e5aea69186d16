import EmbeddedOS.Memory.PageBitmap
import EmbeddedOS.Base.Spans
import EmbeddedOS.Base.Runs

/-!
# Runs of the page allocator

Specifications of `find_free`, `reserve`, `relinquish`, `sum_free` and `memory_init` over the set
of used chunks, the system of outstanding reservations, and what every run of it keeps.
-/

namespace EmbeddedOS
namespace Memory

open Base

/-! ## Searching -/

theorem scanRun_sound {map : PageMap} (hm : Mirrored map) {i : Nat} :
    ∀ {left j j' : Nat}, scanRun map i left j = some j' →
      j ≤ j' ∧ j' ≤ j + left ∧
        ∀ x, j ≤ x → x < j' → u64 (i + x) < MAP_CHUNKS ∧ used map (u64 (i + x)) = false := by
  intro left
  induction left with
  | zero =>
      intro j j' h
      simp only [scanRun, Option.some.injEq] at h
      subst h
      refine ⟨Nat.le_refl j, Nat.le_refl _, ?_⟩
      intro x hx hx'
      omega
  | succ left ih =>
      intro j j' h
      rw [scanRun] at h
      cases ht : testUsed map (u64 (i + j)) with
      | none => simp [ht] at h
      | some b =>
          have hin := testUsed_inBounds ht
          have hb : used map (u64 (i + j)) = b := by
            rw [testUsed_eq hm hin] at ht
            exact Option.some.inj ht
          cases b with
          | true =>
              simp only [ht, Option.bind_eq_bind, Option.bind_some, if_true,
                Option.some.injEq] at h
              subst h
              refine ⟨Nat.le_refl j, by omega, ?_⟩
              intro x hx hx'
              omega
          | false =>
              simp only [ht, Option.bind_eq_bind, Option.bind_some, Bool.false_eq_true,
                if_false] at h
              rcases ih h with ⟨hle, hle', hfree⟩
              refine ⟨by omega, by omega, ?_⟩
              intro x hx hx'
              by_cases hxj : x = j
              · subst hxj
                exact ⟨hin, hb⟩
              · exact hfree x (by omega) hx'

/-- What `find_free` returns is the start of a free run inside the zone; a request whose length
does not fit a positive `int` can only run off the array. -/
theorem findFreeFrom_sound {map : PageMap} (hm : Mirrored map) {n stop : Nat}
    (hstop : stop ≤ MAP_CHUNKS) :
    ∀ {left i first : Nat}, findFreeFrom map n stop left i = some first → i + left ≤ stop →
      first ≠ NOT_FOUND →
      i ≤ first ∧ first + n < stop ∧ ∀ x, x < n → used map (first + x) = false := by
  intro left
  induction left with
  | zero =>
      intro i first h _ hne
      simp only [findFreeFrom, Option.some.injEq] at h
      exact absurd h.symm hne
  | succ left ih =>
      intro i first h hle hne
      have hskip : findFreeFrom map n stop left (i + 1) = some first →
          i ≤ first ∧ first + n < stop ∧ ∀ x, x < n → used map (first + x) = false := by
        intro hrest
        rcases ih hrest (by omega) hne with ⟨hle', hrun⟩
        exact ⟨by omega, hrun⟩
      rw [findFreeFrom] at h
      cases ht : testUsed map i with
      | none => simp [ht] at h
      | some b =>
          cases b with
          | true =>
              simp only [ht, Option.bind_eq_bind, Option.bind_some, if_true] at h
              exact hskip h
          | false =>
              cases hs : scanRun map i n 0 with
              | none => simp [ht, hs] at h
              | some j =>
                  simp only [ht, hs, Option.bind_eq_bind, Option.bind_some, Bool.false_eq_true,
                    if_false] at h
                  rcases scanRun_sound hm hs with ⟨_, _, hfree⟩
                  split at h
                  · rename_i hfound
                    simp only [Option.some.injEq] at h
                    subst h
                    rcases hfound with ⟨rfl, hend⟩
                    simp only [MAP_CHUNKS] at hstop
                    -- A longer run would have read chunk `MAP_CHUNKS`.
                    have hshort : j ≤ MAP_CHUNKS - i := by
                      by_contra hlong
                      have hread := (hfree (MAP_CHUNKS - i) (Nat.zero_le _) (by omega)).1
                      have hidx : u64 (i + (MAP_CHUNKS - i : Nat)) = MAP_CHUNKS := by
                        apply u64_of_range <;> simp only [MAP_CHUNKS] <;> omega
                      omega
                    simp only [MAP_CHUNKS] at hshort
                    have hsum : ∀ x, x ≤ j → u64 (i + x) = i + x := by
                      intro x hx
                      apply u64_of_range <;> omega
                    refine ⟨Nat.le_refl i, by rw [← hsum j (Nat.le_refl j)]; exact hend, ?_⟩
                    intro x hx
                    rw [← hsum x (by omega)]
                    exact (hfree x (Nat.zero_le x) hx).2
                  · exact hskip h

theorem u64_i32 {n : Nat} (hn : n < 4294967296) (hsmall : u64 (i32 n) < 2147483648) :
    u64 (i32 n) = n := by
  rw [i32_eq] at *
  unfold u64 at *
  omega

/-! ## `reserve` and `relinquish` -/

/-- The zone `[start, stop)` that `reserve` searches for a memory type. -/
def zone (s : Machine) (type : Nat) : Nat × Nat :=
  if type = MEM_K then (0, KERNEL_RESERVED / CHUNK_SIZE)
  else (KERNEL_RESERVED / CHUNK_SIZE, s.maxChunk)

/-- Chunks that a request of `n` chunks takes. -/
def count (n : Nat) : Nat := if n = 0 then 1 else n

/-- The search that `reserve n type` makes returns a chunk. -/
def SearchSucceeds (s : Machine) (n type : Nat) : Prop :=
  (type = MEM_K ∨ type = MEM_U) ∧
    ∃ first, findFree s.memoryMap (i32 (count n)) (zone s type).1 (zone s type).2 = some first ∧
      first ≠ NOT_FOUND

/-- First chunk of the block of pages at address `a`. -/
def chunkOf (s : Machine) (a : Nat) : Nat := u64 ((a : Int) - s.memOffset) / CHUNK_SIZE

theorem count_pos (n : Nat) : 0 < count n := by
  unfold count
  split <;> omega

theorem reserve_eq (s : Machine) {n type : Nat} (ht : type = MEM_K ∨ type = MEM_U) :
    reserve s n type = reserveIn s (count n) (zone s type).1 (zone s type).2 := by
  rcases ht with rfl | rfl <;> rfl

theorem chunkOf_address (s : Machine) {first : Nat} (h : first < MAP_CHUNKS) :
    chunkOf s (u64 (first * CHUNK_SIZE + s.memOffset)) = first := by
  simp only [MAP_CHUNKS] at h
  unfold chunkOf u64
  simp only [CHUNK_SIZE]
  omega

/-- A successful `reserve` marks exactly a free run of its zone. -/
theorem reserve_spec {s s' : Machine} {n type a : Nat} (hm : Mirrored s.memoryMap)
    (hmax : s.maxChunk ≤ MAP_CHUNKS) (hn : n < 4294967296) (hfound : SearchSucceeds s n type)
    (h : reserve s n type = some (a, s')) :
    ∃ first : Nat, a = u64 (first * CHUNK_SIZE + s.memOffset) ∧ chunkOf s a = first ∧
      (zone s type).1 ≤ first ∧ first + count n < (zone s type).2 ∧
      (∀ x, x < count n → used s.memoryMap (first + x) = false) ∧
      Mirrored s'.memoryMap ∧
      (∀ k, used s'.memoryMap k =
        (decide (first ≤ k ∧ k < first + count n) || used s.memoryMap k)) ∧
      s' = { s with
        memoryMap := s'.memoryMap
        mem := Stdlib.memset s.mem a 0 (u32 (count n * CHUNK_SIZE)) } := by
  rcases hfound with ⟨ht, first, hff, hne⟩
  rw [reserve_eq s ht] at h
  have hcount : count n < 4294967296 := by
    unfold count
    split <;> omega
  have hzone : (zone s type).2 ≤ MAP_CHUNKS ∧ (zone s type).1 ≤ MAP_CHUNKS := by
    simp only [MAP_CHUNKS, zone, KERNEL_RESERVED, CHUNK_SIZE] at hmax ⊢
    split
    · simp
    · exact ⟨hmax, by norm_num⟩
  have hsearch := hff
  unfold findFree at hsearch
  -- An empty zone returns `-1`.
  have hord : (zone s type).1 ≤ (zone s type).2 := by
    by_contra hgt
    have h0 : (zone s type).2 - (zone s type).1 = 0 := by omega
    rw [h0, findFreeFrom] at hsearch
    exact hne (Option.some.inj hsearch).symm
  rcases findFreeFrom_sound hm hzone.1 hsearch (by omega) hne with ⟨hlo, hhi, hfree⟩
  have hlen : u64 (i32 (count n)) = count n := by
    apply u64_i32 hcount
    simp only [MAP_CHUNKS] at hzone
    omega
  rw [hlen] at hhi hfree
  have hfit : first + count n ≤ MAP_CHUNKS := by omega
  rcases markUsedUpTo_spec hm (count n) hfit with ⟨map', hmark, hm', hused'⟩
  have hpos := count_pos n
  simp only [reserveIn, hff, Option.bind_eq_bind, Option.bind_some, hmark] at h
  rw [if_neg (by omega)] at h
  simp only [Option.some.injEq, Prod.mk.injEq] at h
  rcases h with ⟨rfl, rfl⟩
  exact ⟨first, rfl, chunkOf_address s (by omega), hlo, hhi, hfree, hm', hused', rfl⟩

theorem markUsedUpTo_notFound (map : PageMap) {n : Nat} (hn : 0 < n) :
    markUsedUpTo map NOT_FOUND n = none := by
  induction n with
  | zero => exact absurd hn (Nat.lt_irrefl 0)
  | succ n ih =>
      rw [markUsedUpTo]
      cases n with
      | zero =>
          have hword : ¬ u64 ((NOT_FOUND : Int) + (0 : Nat)) / 32 < MAP_WORDS := by decide
          rw [markUsedUpTo, Option.bind_eq_bind, Option.bind_some, markUsed, if_neg hword]
      | succ n =>
          rw [ih (Nat.succ_pos n)]
          rfl

/-- A search that fails makes `reserve` mark a chunk outside of the map. -/
theorem reserve_found {s s' : Machine} {n type a : Nat} (ht : type = MEM_K ∨ type = MEM_U)
    (h : reserve s n type = some (a, s')) : SearchSucceeds s n type := by
  rw [reserve_eq s ht, reserveIn, Option.bind_eq_bind, Option.bind_eq_some_iff] at h
  rcases h with ⟨first, hfind, h⟩
  refine ⟨ht, first, hfind, ?_⟩
  rintro rfl
  rw [if_neg (by decide), markUsedUpTo_notFound _ (count_pos n)] at h
  cases h

/-- `relinquish` clears exactly the chunks of the block it is given. -/
theorem relinquish_spec {s s' : Machine} {a n : Nat} {r : Int} (hm : Mirrored s.memoryMap)
    (ha : u64 ((a : Int) - s.memOffset) < 2147483648)
    (hfit : chunkOf s a + n ≤ MAP_CHUNKS) (h : relinquish s a n = some (r, s')) :
    Mirrored s'.memoryMap ∧
      (∀ k, used s'.memoryMap k =
        (!decide (chunkOf s a ≤ k ∧ k < chunkOf s a + n) && used s.memoryMap k)) ∧
      s'.maxChunk = s.maxChunk ∧ s'.memOffset = s.memOffset := by
  have hfirst : (i32 ((a : Int) - s.memOffset)).tdiv CHUNK_SIZE = (chunkOf s a : Int) := by
    have hcast : i32 ((a : Int) - s.memOffset) = (u64 ((a : Int) - s.memOffset) : Int) := by
      rw [i32_eq]
      unfold u64 at *
      omega
    rw [hcast]
    rfl
  rcases markFreeUpTo_spec hm n hfit with ⟨map', hmark, hm', hused'⟩
  simp only [relinquish, hfirst, Option.bind_eq_bind, Option.bind_some, hmark, Option.some.injEq,
    Prod.mk.injEq] at h
  rcases h with ⟨_, rfl⟩
  exact ⟨hm', hused', rfl, rfl⟩

/-! ## `sum_free` and `memory_init` -/

theorem countFree_eq {map : PageMap} (hm : Mirrored map) {n : Nat} (hn : n ≤ MAP_CHUNKS) :
    countFree map n = some ((List.range n).countP (fun c => !used map c)) := by
  induction n with
  | zero => rfl
  | succ n ih =>
      rw [countFree, ih (by omega), Option.bind_eq_bind, Option.bind_some,
        testUsed_eq hm (by omega), Option.bind_eq_bind, Option.bind_some, List.range_succ,
        List.countP_append, List.countP_singleton]
      cases used map n <;> simp

/-- Free chunks below `MAX_CHUNK`. -/
def freeChunks (s : Machine) : Nat :=
  (List.range s.maxChunk).countP (fun c => !used s.memoryMap c)

theorem sumFree_eq {s : Machine} (hm : Mirrored s.memoryMap) (hmax : s.maxChunk ≤ 262144) :
    sumFree s = some ((freeChunks s * CHUNK_SIZE : Nat) : Int) := by
  have hle : freeChunks s ≤ s.maxChunk := by
    have := List.countP_le_length (p := fun c => !used s.memoryMap c)
      (l := List.range s.maxChunk)
    simpa [freeChunks] using this
  rw [sumFree, countFree_eq hm (by simp only [MAP_CHUNKS]; omega), Option.bind_eq_bind,
    Option.bind_some]
  unfold freeChunks at *
  rw [i32_of_range (by simp only [CHUNK_SIZE]; omega) (by simp only [CHUNK_SIZE]; omega),
    Nat.cast_mul]

/-- `memory_init` marks the kernel's chunks and nothing else. -/
theorem memoryInit_spec (mem : ByteMem) (offset : Nat) {mem_kernel : Nat}
    (hk : mem_kernel ≤ KERNEL_RESERVED) :
    ∃ s', memoryInit (.atBoot mem offset) mem_kernel = some s' ∧ Mirrored s'.memoryMap ∧
      s'.maxChunk = 262144 ∧ s'.memOffset = offset ∧ s'.mem = mem ∧
      ∀ k, used s'.memoryMap k = decide (k < mem_kernel / CHUNK_SIZE) := by
  have hchunks : mem_kernel / CHUNK_SIZE ≤ 4096 := by
    simp only [KERNEL_RESERVED, CHUNK_SIZE] at *
    omega
  have hfit : 0 + mem_kernel / CHUNK_SIZE ≤ MAP_CHUNKS := by
    simp only [MAP_CHUNKS]
    omega
  rcases markUsedUpTo_spec mirrored_zero _ hfit with ⟨map', hmark, hm', hused'⟩
  refine ⟨⟨mem, map', MAX_MEMORY, 262144, offset⟩, ?_, hm', rfl, rfl, rfl, ?_⟩
  · have hmax : u32 ((MAX_MEMORY / CHUNK_SIZE : Nat) : Int) = 262144 := by decide
    simp only [memoryInit, memInit, Machine.atBoot, clearWords_zero, hmark, hmax, Option.bind_eq_bind,
      Option.bind_some]
    rw [if_neg (by omega), if_neg (by omega)]
    rfl
  · intro k
    rw [hused']
    simp [used]

end Memory
end EmbeddedOS
