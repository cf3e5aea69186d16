import EmbeddedOS.Memory.PageRuns

/-!
# Memory on reserved pages

A stretch of memory is owned when every page it touches is marked as used. `reserve` only hands
out pages that were free, so what it returns lies beside everything that was owned before.
-/

namespace EmbeddedOS
namespace Memory

open Base Base.ByteMem

/-- The page allocator is in the state that `memory_init` and its calls leave, and the addresses of
its pages fit into a pointer. -/
structure PagesReady (s : Machine) : Prop where
  mirrored : Mirrored s.memoryMap
  maxChunk : s.maxChunk = 262144
  offset : s.memOffset + 1073741824 < 18446744073709551616

theorem pagesReady_init {mem : ByteMem} {offset mem_kernel : Nat} {m : Machine}
    (hk : mem_kernel ≤ KERNEL_RESERVED) (hoff : offset + 1073741824 < 18446744073709551616)
    (hinit : memoryInit (.atBoot mem offset) mem_kernel = some m) : PagesReady m := by
  rcases memoryInit_spec mem offset hk with ⟨m', hinit', hm, hmax, hoffset, _, _⟩
  obtain rfl : m' = m := Option.some.inj (hinit'.symm.trans hinit)
  exact ⟨hm, hmax, by rw [hoffset]; exact hoff⟩

/-- Every page under `[a, a + len)` is marked as used. -/
def Owned (s : Machine) (a len : Nat) : Prop :=
  ∀ x, a ≤ x → x < a + len →
    s.memOffset ≤ x ∧ used s.memoryMap ((x - s.memOffset) / 4096) = true

/-- Two stretches of memory have no address in common. -/
def NoOverlap (x y : Nat × Nat) : Prop := x.1 + x.2 ≤ y.1 ∨ y.1 + y.2 ≤ x.1

theorem NoOverlap.symm {x y : Nat × Nat} (h : NoOverlap x y) : NoOverlap y x :=
  Or.symm h

theorem Owned.mono {s : Machine} {a len len' : Nat} (h : Owned s a len) (hle : len' ≤ len) :
    Owned s a len' := by
  intro x hlo hhi
  exact h x hlo (by omega)

/-- Only the page map counts. -/
theorem Owned.withMem {s : Machine} {a len : Nat} (h : Owned s a len) (m : ByteMem) :
    Owned { s with mem := m } a len :=
  h

theorem PagesReady.withMem {s : Machine} (h : PagesReady s) (m : ByteMem) :
    PagesReady { s with mem := m } :=
  ⟨h.mirrored, h.maxChunk, h.offset⟩

/-- What a successful `reserve` hands out. -/
structure Handed (s s' : Machine) (type a len : Nat) : Prop where
  ready : PagesReady s'
  owned : Owned s' a len
  keeps : ∀ x l, Owned s x l → Owned s' x l
  apart : ∀ x l, Owned s x l → 0 < l → NoOverlap (x, l) (a, len)
  writes : WritesOnly s.mem s'.mem a (a + len)
  bound : a + len ≤ s.memOffset + 1073741824
  start : s.memOffset + 4096 * (zone s type).1 ≤ a
  offset : s'.memOffset = s.memOffset

theorem reserve_handed {s s' : Machine} {n type a : Nat} (hP : PagesReady s) (hn : n < 4294967296)
    (htype : type = MEM_K ∨ type = MEM_U) (h : reserve s n type = some (a, s')) :
    Handed s s' type a (4096 * count n) := by
  have hfound := reserve_found htype h
  have hoff := hP.offset
  have hmax := hP.maxChunk
  rcases reserve_spec hP.mirrored (by rw [hmax]; simp only [MAP_CHUNKS]; omega) hn hfound h with
    ⟨first, ha, _, hlo, hhi, hfree, hm', hused, hs'⟩
  have hzone : (zone s type).2 ≤ 262144 := by
    unfold zone
    split
    · simp only [KERNEL_RESERVED, CHUNK_SIZE]
      omega
    · exact Nat.le_of_eq hmax
  have haddr : a = first * 4096 + s.memOffset := by
    rw [ha]
    simp only [CHUNK_SIZE]
    exact u64_of_range (by omega) (by omega)
  have hpos := count_pos n
  have hmem : s'.memOffset = s.memOffset ∧ s'.maxChunk = s.maxChunk ∧
      s'.mem = Stdlib.memset s.mem a 0 (u32 (count n * CHUNK_SIZE)) := by
    rw [hs']
    exact ⟨rfl, rfl, rfl⟩
  have hlen : u32 ((count n : Int) * CHUNK_SIZE) = 4096 * count n := by
    simp only [CHUNK_SIZE]
    exact u32_of_range (by omega) (by omega)
  refine ⟨⟨hm', hmem.2.1.trans hmax, by rw [hmem.1]; exact hoff⟩, ?_, ?_, ?_, ?_, by omega,
    by omega, hmem.1⟩
  · intro x hxlo hxhi
    rw [hmem.1, hused]
    have hin : first ≤ (x - s.memOffset) / 4096 ∧ (x - s.memOffset) / 4096 < first + count n := by
      omega
    exact ⟨by omega, by simp [hin]⟩
  · intro x l hown y hylo hyhi
    have hy := hown y hylo hyhi
    rw [hmem.1, hused]
    exact ⟨hy.1, by simp [hy.2]⟩
  · intro x l hown hl
    unfold NoOverlap
    by_contra hboth
    -- Some address would lie on a used page and on a free one.
    have hy := hown (max x a) (by omega) (by simp only [] at hboth; omega)
    have hidx : (max x a - s.memOffset) / 4096 = first + ((max x a - s.memOffset) / 4096 - first) := by
      simp only [] at hboth
      omega
    have hno := hfree ((max x a - s.memOffset) / 4096 - first) (by simp only [] at hboth; omega)
    rw [← hidx, hy.2] at hno
    exact absurd hno (by decide)
  · rw [hmem.2.2, hlen, Stdlib.memset_eq_fill]
    exact .fill _ _ _ _

/-- Pages `lo` to `hi - 1` are not in use. -/
def FreePages (s : Machine) (lo hi : Nat) : Prop :=
  ∀ k, lo ≤ k → k < hi → used s.memoryMap k = false

theorem FreePages.mono {s : Machine} {lo lo' hi hi' : Nat} (h : FreePages s lo hi) (hlo : lo ≤ lo')
    (hhi : hi' ≤ hi) : FreePages s lo' hi' :=
  fun k hk hk' => h k (Nat.le_trans hlo hk) (Nat.lt_of_lt_of_le hk' hhi)

/-- Pages beside those that `reserve` hands out stay free. -/
theorem FreePages.reserve {s s' : Machine} {n type a lo hi : Nat} (hfree : FreePages s lo hi)
    (hP : PagesReady s) (hn : n < 4294967296) (htype : type = MEM_K ∨ type = MEM_U)
    (h : reserve s n type = some (a, s')) (hapart : hi ≤ chunkOf s a ∨ chunkOf s a + count n ≤ lo) :
    FreePages s' lo hi := by
  have hmax := hP.maxChunk
  rcases reserve_spec hP.mirrored (by rw [hmax]; simp only [MAP_CHUNKS]; omega) hn
    (reserve_found htype h) h with ⟨first, _, rfl, _, _, _, _, hused, _⟩
  intro k hlo hhi
  rw [hused, hfree k hlo hhi, Bool.or_false, decide_eq_false_iff_not]
  omega

/-- The pages that are left in both zones: the kernel's from 2 on, the others from `p` on. -/
structure PagesLeft (s : Machine) (p : Nat) : Prop where
  offset : s.memOffset = 0
  first : Owned s 0 1
  kernel : FreePages s 2 4096
  user : FreePages s p 262144

/-- `reserve` finds the same pages whatever the memory holds. -/
theorem reserve_withMem {s s' : Machine} {n type a : Nat} (hres : reserve s n type = some (a, s'))
    (m : ByteMem) : ∃ m', reserve { s with mem := m } n type = some (a, { s' with mem := m' }) := by
  have hin : ∀ c start stop, reserveIn s c start stop = some (a, s') →
      ∃ m', reserveIn { s with mem := m } c start stop = some (a, { s' with mem := m' }) := by
    intro c start stop hrun
    unfold reserveIn at hrun ⊢
    cases hfind : findFree s.memoryMap (i32 c) start stop with
    | none => simp [hfind] at hrun
    | some first =>
        simp only [hfind, Option.bind_eq_bind, Option.bind_some] at hrun ⊢
        by_cases hneg : (first : Int) < 0
        · rw [if_pos hneg] at hrun ⊢
          simp only [Option.some.injEq, Prod.mk.injEq] at hrun ⊢
          rcases hrun with ⟨rfl, rfl⟩
          exact ⟨m, rfl, rfl⟩
        · rw [if_neg hneg] at hrun ⊢
          cases hmark : markUsedUpTo s.memoryMap first c with
          | none => simp [hmark] at hrun
          | some map =>
              simp only [hmark, Option.bind_some, Option.some.injEq, Prod.mk.injEq] at hrun ⊢
              rcases hrun with ⟨rfl, rfl⟩
              exact ⟨Stdlib.memset m _ 0 _, rfl, rfl⟩
  unfold reserve at hres ⊢
  by_cases hk : type = MEM_K
  · rw [if_pos hk] at hres ⊢
    exact hin _ _ _ hres
  · rw [if_neg hk] at hres ⊢
    by_cases hu : type = MEM_U
    · rw [if_pos hu] at hres ⊢
      exact hin _ _ _ hres
    · rw [if_neg hu] at hres ⊢
      simp only [Option.some.injEq, Prod.mk.injEq] at hres ⊢
      rcases hres with ⟨rfl, rfl⟩
      exact ⟨m, rfl, rfl⟩

/-- Whether pages are left does not depend on the memory. -/
theorem reserve_isSome_withMem (s : Machine) (m : ByteMem) (n type : Nat) :
    (reserve { s with mem := m } n type).isSome = (reserve s n type).isSome := by
  have hthere : ∀ (s : Machine) (m : ByteMem), (reserve s n type).isSome = true →
      (reserve { s with mem := m } n type).isSome = true := by
    intro s m hsome
    rcases Option.isSome_iff_exists.1 hsome with ⟨⟨a, s'⟩, hres⟩
    rcases reserve_withMem hres m with ⟨m', hres'⟩
    rw [hres']
    rfl
  exact Bool.eq_iff_iff.2 ⟨hthere { s with mem := m } s.mem, hthere s m⟩

end Memory
end EmbeddedOS
