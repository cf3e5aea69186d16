import EmbeddedOS.Memory.PageRuns

/-!
# Outstanding reservations

The client of the page allocator: a list of the blocks that `reserve` returned and `relinquish`
has not taken back. `PagesExact` says that the bitmap is exactly the kernel's chunks and the
outstanding blocks. `reserve` turns a request for zero chunks into a request for one and
`relinquish` does not, so the matching call on such a block frees nothing; a run is exact in all
its states precisely when it never makes that call.
-/

namespace EmbeddedOS
namespace Memory

open Base

/-! ## The system -/

/-- A block handed out by `reserve n type`. -/
structure Reservation where
  addr : Nat
  n : Nat
  type : Nat
  deriving DecidableEq, Repr

/-- Chunk `c` belongs to the block. -/
def Reservation.Holds (s : Machine) (r : Reservation) (c : Nat) : Prop :=
  chunkOf s r.addr ≤ c ∧ c < chunkOf s r.addr + count r.n

structure PageSystem where
  machine : Machine
  out : List Reservation

inductive PageAction where
  | reserve (n type : Nat)
  | relinquish (r : Reservation)
  deriving DecidableEq, Repr

/-- One call: a `reserve` whose search succeeds, or a `relinquish` of an outstanding block with
the number of chunks it was requested with. -/
inductive PageStep : PageSystem → PageAction → PageSystem → Prop where
  | reserve {s : Machine} {out : List Reservation} {n type a : Nat} {s' : Machine} :
      n < 4294967296 → SearchSucceeds s n type → reserve s n type = some (a, s') →
      PageStep ⟨s, out⟩ (.reserve n type) ⟨s', ⟨a, n, type⟩ :: out⟩
  | relinquish {s : Machine} {out : List Reservation} {r : Reservation} {ret : Int} {s' : Machine} :
      r ∈ out → relinquish s r.addr r.n = some (ret, s') →
      PageStep ⟨s, out⟩ (.relinquish r) ⟨s', out.erase r⟩

/-- A request of zero chunks is given back. -/
def PageAction.EmptyRelinquish : PageAction → Prop
  | .reserve _ _ => False
  | .relinquish r => r.n = 0

/-! ## What a state must satisfy -/

/-- The bitmap is exactly the first `kc` chunks and the outstanding blocks, which are disjoint,
disjoint from the kernel and inside their zones. -/
structure PagesExact (kc : Nat) (s : PageSystem) : Prop where
  usedSet : ∀ c, c < s.machine.maxChunk →
    (testUsed s.machine.memoryMap c = some true ↔
      c < kc ∨ Covered (Reservation.Holds s.machine) s.out c)
  apart : s.out.Pairwise (Apart (Reservation.Holds s.machine))
  kernelApart : ∀ r ∈ s.out, ∀ c, r.Holds s.machine c → kc ≤ c
  inZone : ∀ r ∈ s.out, ∀ c, r.Holds s.machine c →
    (zone s.machine r.type).1 ≤ c ∧ c < (zone s.machine r.type).2

/-- The free memory moves by the block's size in the right direction. -/
def FreeMemoryExact (s : PageSystem) (a : PageAction) (t : PageSystem) : Prop :=
  ∃ before after, sumFree s.machine = some before ∧ sumFree t.machine = some after ∧
    match a with
    | .reserve n _ => after = before - 4096 * (max n 1 : Nat)
    | .relinquish r => after = before + 4096 * (max r.n 1 : Nat)

/-- What the allocator promises along a run from `init`: every state is exact, every step moves
the free memory by its block, and a `reserve` followed by the `relinquish` of its result leaves
the used set as it was. -/
structure RunExact (kc : Nat) (init : PageSystem) (as : List PageAction) : Prop where
  states : ∀ pre post t, as = pre ++ post → Run PageStep init pre t → PagesExact kc t
  steps : ∀ pre a post t u, as = pre ++ a :: post → Run PageStep init pre t → PageStep t a u →
    FreeMemoryExact t a u
  restores : ∀ pre n type r post t u v, as = pre ++ .reserve n type :: .relinquish r :: post →
    Run PageStep init pre t → PageStep t (.reserve n type) u → u.out.head? = some r →
    PageStep u (.relinquish r) v →
    ∀ c, c < t.machine.maxChunk → testUsed v.machine.memoryMap c = testUsed t.machine.memoryMap c

/-! ## One step -/

/-- The inductive invariant behind `PagesExact`. -/
structure PageInv (kc : Nat) (s : PageSystem) : Prop where
  exact : PagesExact kc s
  mirrored : Mirrored s.machine.memoryMap
  maxChunk : s.machine.maxChunk = 262144

theorem holds_congr {s t : Machine} (h : t.memOffset = s.memOffset) :
    Reservation.Holds t = Reservation.Holds s := by
  funext r c
  simp [Reservation.Holds, chunkOf, h]

theorem zone_congr {s t : Machine} (h : t.maxChunk = s.maxChunk) (type : Nat) :
    zone t type = zone s type := by
  simp [zone, h]

theorem zone_le {s : Machine} (h : s.maxChunk = 262144) (type : Nat) :
    (zone s type).2 ≤ 262144 := by
  unfold zone
  split
  · simp [KERNEL_RESERVED, CHUNK_SIZE]
  · exact h.le

theorem max_one_eq_count (n : Nat) : max n 1 = count n := by
  unfold count
  split <;> omega

variable {kc : Nat} {s t : PageSystem} {a : PageAction}

theorem PageInv.used_iff (hinv : PageInv kc s) {c : Nat} (hc : c < 262144) :
    used s.machine.memoryMap c = true ↔ c < kc ∨ Covered (Reservation.Holds s.machine) s.out c := by
  rw [← hinv.exact.usedSet c (by rw [hinv.maxChunk]; exact hc),
    testUsed_eq hinv.mirrored (by simp only [MAP_CHUNKS]; omega), Option.some.injEq]

/-- An outstanding block lies below `MAX_CHUNK`. -/
theorem PageInv.chunk_bound (hinv : PageInv kc s) {r : Reservation} (hr : r ∈ s.out) :
    chunkOf s.machine r.addr + count r.n ≤ 262144 := by
  have hpos := count_pos r.n
  have hlast : r.Holds s.machine (chunkOf s.machine r.addr + count r.n - 1) := by
    constructor <;> omega
  have hzone := (hinv.exact.inZone r hr _ hlast).2
  have hle := zone_le hinv.maxChunk r.type
  omega

/-- What `reserve` does to the system. -/
theorem reserve_step {n type : Nat} (hinv : PageInv kc s) (h : PageStep s (.reserve n type) t) :
    ∃ r : Reservation, r.n = n ∧ r.type = type ∧ t.out = r :: s.out ∧
      t.machine.memOffset = s.machine.memOffset ∧ t.machine.maxChunk = s.machine.maxChunk ∧
      Mirrored t.machine.memoryMap ∧
      (∀ c, r.Holds s.machine c → used s.machine.memoryMap c = false ∧
        (zone s.machine type).1 ≤ c ∧ c < (zone s.machine type).2) ∧
      ∀ c, used t.machine.memoryMap c =
        (decide (chunkOf s.machine r.addr ≤ c ∧ c < chunkOf s.machine r.addr + count r.n) ||
          used s.machine.memoryMap c) := by
  cases h with
  | @reserve m out _ _ a m' hn hfound hres =>
      obtain ⟨first, _, hchunk, hlo, hhi, hfree, hm', hused', hm'eq⟩ :=
        reserve_spec hinv.mirrored (by rw [hinv.maxChunk]; decide) hn hfound hres
      refine ⟨⟨a, n, type⟩, rfl, rfl, rfl, by rw [hm'eq], by rw [hm'eq], hm', ?_, ?_⟩
      · rintro c ⟨hc, hc'⟩
        simp only [hchunk] at hc hc'
        have hx := hfree (c - first) (by omega)
        rw [show first + (c - first) = c by omega] at hx
        exact ⟨hx, by omega, by omega⟩
      · intro c
        simpa only [hchunk] using hused' c

/-- What `relinquish` does to the system. -/
theorem relinquish_step {r : Reservation} (hinv : PageInv kc s)
    (h : PageStep s (.relinquish r) t) :
    r ∈ s.out ∧ t.out = s.out.erase r ∧
      t.machine.memOffset = s.machine.memOffset ∧ t.machine.maxChunk = s.machine.maxChunk ∧
      Mirrored t.machine.memoryMap ∧
      ∀ c, used t.machine.memoryMap c =
        (!decide (chunkOf s.machine r.addr ≤ c ∧ c < chunkOf s.machine r.addr + r.n) &&
          used s.machine.memoryMap c) := by
  cases h with
  | @relinquish m out _ ret m' hr hrel =>
      have hbound : chunkOf m r.addr + count r.n ≤ 262144 := hinv.chunk_bound hr
      have hcount : r.n ≤ count r.n := by
        unfold count
        split <;> omega
      have haddr : u64 ((r.addr : Int) - m.memOffset) < 2147483648 := by
        have hpages := hbound
        simp only [chunkOf, CHUNK_SIZE] at hpages
        omega
      rcases relinquish_spec hinv.mirrored haddr
        (by simp only [MAP_CHUNKS]; omega) hrel with ⟨hm', hused', hmax, hoff⟩
      exact ⟨hr, rfl, hoff, hmax, hm', hused'⟩

theorem PageInv.reserve {n type : Nat} (hinv : PageInv kc s)
    (h : PageStep s (.reserve n type) t) : PageInv kc t := by
  rcases reserve_step hinv h with ⟨r, _, htype, hout, hoff, hmax, hm', hnew, hused'⟩
  have hholds := holds_congr hoff
  have hbelow : t.machine.maxChunk = 262144 := by rw [hmax, hinv.maxChunk]
  have hlimit := zone_le hinv.maxChunk type
  refine ⟨⟨?_, ?_, ?_, ?_⟩, hm', hbelow⟩
  · intro c hc
    rw [hbelow] at hc
    rw [testUsed_eq hm' (by simp only [MAP_CHUNKS]; omega), Option.some.injEq, hused', hholds,
      hout, covered_cons, Bool.or_eq_true, decide_eq_true_iff, hinv.used_iff hc]
    constructor
    · rintro (hc | hc | hc)
      · exact .inr (.inl hc)
      · exact .inl hc
      · exact .inr (.inr hc)
    · rintro (hc | hc | hc)
      · exact .inr (.inl hc)
      · exact .inl hc
      · exact .inr (.inr hc)
  · rw [hout, hholds]
    refine List.pairwise_cons.2 ⟨?_, hinv.exact.apart⟩
    intro r' hr' c hc hc'
    -- A chunk of an outstanding block is used, a chunk of the new one was free.
    have hfree := (hnew c hc).1
    have hused := (hinv.used_iff (c := c) (by have := (hnew c hc).2.2; omega)).2 (.inr ⟨r', hr', hc'⟩)
    rw [hfree] at hused
    cases hused
  · rw [hout, hholds]
    intro r' hr' c hc
    rcases List.mem_cons.1 hr' with rfl | hr'
    · by_contra hlt
      have hused := (hinv.used_iff (c := c) (by have := (hnew c hc).2.2; omega)).2 (.inl (by omega))
      rw [(hnew c hc).1] at hused
      cases hused
    · exact hinv.exact.kernelApart r' hr' c hc
  · rw [hout, hholds]
    intro r' hr' c hc
    rw [zone_congr hmax]
    rcases List.mem_cons.1 hr' with rfl | hr'
    · rw [htype]
      exact (hnew c hc).2
    · exact hinv.exact.inZone r' hr' c hc

theorem PageInv.relinquish {r : Reservation} (hinv : PageInv kc s) (hn : r.n ≠ 0)
    (h : PageStep s (.relinquish r) t) : PageInv kc t := by
  rcases relinquish_step hinv h with ⟨hr, hout, hoff, hmax, hm', hused'⟩
  have hholds := holds_congr hoff
  have hbelow : t.machine.maxChunk = 262144 := by rw [hmax, hinv.maxChunk]
  have hcount : count r.n = r.n := by
    rw [count, if_neg hn]
  refine ⟨⟨?_, ?_, ?_, ?_⟩, hm', hbelow⟩
  · intro c hc
    rw [hbelow] at hc
    have hrc : r.Holds s.machine c ↔
        chunkOf s.machine r.addr ≤ c ∧ c < chunkOf s.machine r.addr + r.n := by
      rw [Reservation.Holds, hcount]
    rw [testUsed_eq hm' (by simp only [MAP_CHUNKS]; omega), Option.some.injEq, hused', hholds,
      hout, covered_erase hinv.exact.apart hr, Bool.and_eq_true, Bool.not_eq_true',
      decide_eq_false_iff_not, hinv.used_iff hc, ← hrc]
    constructor
    · rintro ⟨hnot, hc | hc⟩
      · exact .inl hc
      · exact .inr ⟨hc, hnot⟩
    · rintro (hkc | ⟨hc, hnot⟩)
      · refine ⟨fun hrc => ?_, .inl hkc⟩
        have := hinv.exact.kernelApart r hr c hrc
        omega
      · exact ⟨hnot, .inr hc⟩
  · rw [hout, hholds]
    exact pairwise_erase hinv.exact.apart
  · rw [hout, hholds]
    intro r' hr' c hc
    exact hinv.exact.kernelApart r' (List.mem_of_mem_erase hr') c hc
  · rw [hout, hholds]
    intro r' hr' c hc
    rw [zone_congr hmax]
    exact hinv.exact.inZone r' (List.mem_of_mem_erase hr') c hc

theorem PageInv.step (hinv : PageInv kc s) (hok : ¬ a.EmptyRelinquish) (h : PageStep s a t) :
    PageInv kc t := by
  cases a with
  | reserve n type => exact hinv.reserve h
  | relinquish r => exact hinv.relinquish hok h

/-! ## Free memory -/

/-- When the chunks of a free run become used, the number of free chunks falls by its length. -/
theorem freeChunks_of_taken {m m' : Machine} (hmax : m.maxChunk = 262144)
    (hmax' : m'.maxChunk = 262144) {first n : Nat} (hin : first + n ≤ 262144)
    (hfree : ∀ c, first ≤ c → c < first + n → used m.memoryMap c = false)
    (hused : ∀ c, used m'.memoryMap c =
      (decide (first ≤ c ∧ c < first + n) || used m.memoryMap c)) :
    freeChunks m' + n = freeChunks m := by
  have htaken : ∀ c, (!used m'.memoryMap c) =
      (!decide (first ≤ c ∧ c < first + n) && !used m.memoryMap c) := by
    intro c
    simp only [hused, Bool.not_or]
  have hcount := countP_range_interval (show first ≤ first + n by omega) htaken
    (by intro c hc hc'; simp [hfree c hc hc']) 262144
  rw [freeChunks, freeChunks, hmax, hmax']
  omega

theorem PageInv.sumFree (hinv : PageInv kc s) :
    sumFree s.machine = some ((freeChunks s.machine * CHUNK_SIZE : Nat) : Int) :=
  sumFree_eq hinv.mirrored (by rw [hinv.maxChunk])

theorem freeMemory_reserve {n type : Nat} (hinv : PageInv kc s)
    (h : PageStep s (.reserve n type) t) : FreeMemoryExact s (.reserve n type) t := by
  rcases reserve_step hinv h with ⟨r, rfl, _, _, _, hmax, _, hnew, hused⟩
  refine ⟨_, _, hinv.sumFree, (hinv.reserve h).sumFree, ?_⟩
  have hpos := count_pos r.n
  have hlast := (hnew (chunkOf s.machine r.addr + count r.n - 1) (by constructor <;> omega)).2.2
  have hlimit := zone_le hinv.maxChunk type
  have hfree := freeChunks_of_taken hinv.maxChunk (by rw [hmax, hinv.maxChunk])
    (show chunkOf s.machine r.addr + count r.n ≤ 262144 by omega)
    (fun c hc hc' => (hnew c ⟨hc, hc'⟩).1) hused
  simp only [max_one_eq_count, CHUNK_SIZE]
  omega

theorem freeMemory_relinquish {r : Reservation} (hinv : PageInv kc s) (hn : r.n ≠ 0)
    (h : PageStep s (.relinquish r) t) : FreeMemoryExact s (.relinquish r) t := by
  rcases relinquish_step hinv h with ⟨hr, _, _, hmax, _, hused⟩
  refine ⟨_, _, hinv.sumFree, (hinv.relinquish hn h).sumFree, ?_⟩
  have hbound := hinv.chunk_bound hr
  have hcount : count r.n = r.n := by
    rw [count, if_neg hn]
  -- Seen backwards, the block is a free run of the new map that the old map has taken.
  have hempty : ∀ c, chunkOf s.machine r.addr ≤ c →
      c < chunkOf s.machine r.addr + count r.n → used t.machine.memoryMap c = false := by
    intro c hc hc'
    rw [hcount] at hc'
    simp [hused, hc, hc']
  have htaken : ∀ c, used s.machine.memoryMap c =
      (decide (chunkOf s.machine r.addr ≤ c ∧ c < chunkOf s.machine r.addr + count r.n) ||
        used t.machine.memoryMap c) := by
    intro c
    by_cases hc : chunkOf s.machine r.addr ≤ c ∧ c < chunkOf s.machine r.addr + count r.n
    · have hold := (hinv.used_iff (by omega)).2 (.inr ⟨r, hr, hc⟩)
      simp [hc, hold]
    · rw [hcount] at hc
      rw [hused, hcount, decide_eq_false hc]
      simp
  have hfree := freeChunks_of_taken (by rw [hmax, hinv.maxChunk]) hinv.maxChunk hbound hempty htaken
  simp only [max_one_eq_count, CHUNK_SIZE]
  omega

/-! ## Whole runs -/

theorem PageInv.run {as : List PageAction} (h : Run PageStep s as t)
    (hok : ∀ a ∈ as, ¬ a.EmptyRelinquish) (hinv : PageInv kc s) : PageInv kc t := by
  induction h with
  | nil s => exact hinv
  | cons hstep _ ih =>
      exact ih (fun a ha => hok a (List.mem_cons_of_mem _ ha))
        (hinv.step (hok _ List.mem_cons_self) hstep)

theorem pageInv_init (mem : ByteMem) (offset : Nat) {mem_kernel : Nat}
    (hk : mem_kernel ≤ KERNEL_RESERVED) {m : Machine}
    (hinit : memoryInit (.atBoot mem offset) mem_kernel = some m) :
    PageInv (mem_kernel / CHUNK_SIZE) ⟨m, []⟩ := by
  rcases memoryInit_spec mem offset hk with ⟨m', hinit', hm, hmax, _, _, hused⟩
  obtain rfl : m' = m := Option.some.inj (hinit'.symm.trans hinit)
  refine ⟨⟨?_, List.Pairwise.nil, by simp, by simp⟩, hm, hmax⟩
  intro c hc
  simp only [hmax] at hc
  rw [testUsed_eq hm (by simp only [MAP_CHUNKS]; omega), hused]
  simp

/-- The chunk of a relinquished request for zero chunks stays marked with no owner. -/
theorem emptyRelinquish_not_exact {r : Reservation} (hinv : PageInv kc s) (hn : r.n = 0)
    (h : PageStep s (.relinquish r) t) : ¬ PagesExact kc t := by
  intro hexact
  rcases relinquish_step hinv h with ⟨hr, hout, hoff, hmax, hm', hused⟩
  have hbound := hinv.chunk_bound hr
  have hpos := count_pos r.n
  have hheld : r.Holds s.machine (chunkOf s.machine r.addr) := by
    constructor <;> omega
  have hstill : testUsed t.machine.memoryMap (chunkOf s.machine r.addr) = some true := by
    rw [testUsed_eq hm' (by simp only [MAP_CHUNKS]; omega), hused, hn,
      (hinv.used_iff (by omega)).2 (.inr ⟨r, hr, hheld⟩)]
    simp
  have howner := (hexact.usedSet _ (by rw [hmax, hinv.maxChunk]; omega)).1 hstill
  rw [hout, holds_congr hoff, covered_erase hinv.exact.apart hr] at howner
  rcases howner with hkernel | ⟨_, hnot⟩
  · have := hinv.exact.kernelApart r hr _ hheld
    omega
  · exact hnot hheld

theorem restores_of_nonempty {n type : Nat} {r : Reservation} {u v : PageSystem}
    (hinv : PageInv kc s) (hn : r.n ≠ 0) (hres : PageStep s (.reserve n type) u)
    (hhead : u.out.head? = some r) (hrel : PageStep u (.relinquish r) v) {c : Nat}
    (hc : c < s.machine.maxChunk) :
    testUsed v.machine.memoryMap c = testUsed s.machine.memoryMap c := by
  rcases reserve_step hinv hres with ⟨r', hn', _, hout, hoff, hmax, _, hnew, hused⟩
  obtain rfl : r' = r := by
    rw [hout] at hhead
    exact Option.some.inj hhead
  have hinvu := hinv.reserve hres
  rcases relinquish_step hinvu hrel with ⟨_, _, _, _, hm', hused'⟩
  have hchunk : chunkOf u.machine r'.addr = chunkOf s.machine r'.addr := by
    simp [chunkOf, hoff]
  have hcount : count r'.n = r'.n := by
    rw [count, if_neg hn]
  rw [hinv.maxChunk] at hc
  rw [testUsed_eq hm' (by simp only [MAP_CHUNKS]; omega),
    testUsed_eq hinv.mirrored (by simp only [MAP_CHUNKS]; omega), hused', hused, hchunk, hcount]
  by_cases hin : chunkOf s.machine r'.addr ≤ c ∧ c < chunkOf s.machine r'.addr + r'.n
  · have hfree := (hnew c (by rw [Reservation.Holds, hcount]; exact hin)).1
    simp [hin, hfree]
  · simp [hin]

/-- A run that never gives a request of zero chunks back keeps every promise. -/
theorem runExact_of_nonempty {as : List PageAction} (hinv : PageInv kc s)
    (hok : ∀ a ∈ as, ¬ a.EmptyRelinquish) : RunExact kc s as := by
  refine ⟨?_, ?_, ?_⟩
  · rintro pre post t rfl hrun
    exact (hinv.run hrun (fun a ha => hok a (List.mem_append_left _ ha))).exact
  · rintro pre a post t u rfl hrun hstep
    have ht := hinv.run hrun (fun a ha => hok a (List.mem_append_left _ ha))
    have ha := hok a (by simp)
    cases a with
    | reserve n type => exact freeMemory_reserve ht hstep
    | relinquish r => exact freeMemory_relinquish ht ha hstep
  · rintro pre n type r post t u v rfl hrun hres hhead hrel c hc
    have ht := hinv.run hrun (fun a ha => hok a (List.mem_append_left _ ha))
    exact restores_of_nonempty ht (hok (.relinquish r) (by simp)) hres hhead hrel hc

instance (a : PageAction) : Decidable a.EmptyRelinquish := by
  cases a with
  | reserve n type => exact .isFalse id
  | relinquish r => exact inferInstanceAs (Decidable (r.n = 0))

/-- A run that gives a request of zero chunks back is not exact right after that call. -/
theorem nonempty_of_runExact {as : List PageAction} (hinv : PageInv kc s)
    (hrun : Run PageStep s as t) (hexact : RunExact kc s as) :
    ∀ a ∈ as, ¬ a.EmptyRelinquish := by
  by_contra hbad
  push Not at hbad
  -- The first such call of the run starts in a state that satisfies the invariant.
  obtain ⟨b, hb⟩ : ∃ b, as.find? (fun a => decide a.EmptyRelinquish) = some b := by
    rcases hbad with ⟨a, ha, hempty⟩
    exact Option.isSome_iff_exists.1 (List.find?_isSome.2 ⟨a, ha, by simpa using hempty⟩)
  rcases List.find?_eq_some_iff_append.1 hb with ⟨hempty, pre, post, rfl, hpre⟩
  rcases hrun.split with ⟨u, hleft, hright⟩
  have hu : PageInv kc u := hinv.run hleft (by simpa using hpre)
  cases hright with
  | @cons _ v _ _ _ hstep hrest =>
      have hv := hexact.states (pre ++ [b]) post v (by simp) (hleft.append (.single hstep))
      have hempty' := of_decide_eq_true hempty
      cases b with
      | reserve n type => exact hempty'
      | relinquish r => exact emptyRelinquish_not_exact hu hempty' hstep hv

/-- **Page allocator refinement.** From `memory_init`, a run of successful `reserve` and matching
`relinquish` calls keeps the bitmap equal to the kernel's chunks and the outstanding blocks, keeps
the blocks disjoint and in their zones, accounts the free memory and undoes each `reserve`, if and
only if it never relinquishes a block that was requested with zero chunks. -/
theorem pageRuns_exact_iff (mem : ByteMem) (offset : Nat) {mem_kernel : Nat}
    (hk : mem_kernel ≤ KERNEL_RESERVED) {m : Machine}
    (hinit : memoryInit (.atBoot mem offset) mem_kernel = some m)
    {as : List PageAction} {t : PageSystem} (hrun : Run PageStep ⟨m, []⟩ as t) :
    RunExact (mem_kernel / CHUNK_SIZE) ⟨m, []⟩ as ↔ ∀ a ∈ as, ¬ a.EmptyRelinquish := by
  have hinv := pageInv_init mem offset hk hinit
  constructor
  · intro hexact
    exact nonempty_of_runExact hinv hrun hexact
  · intro hok
    exact runExact_of_nonempty hinv hok

/-! ## Two concrete runs -/

/-- One kernel page, then a block of `n` user chunks that is given back. -/
theorem exists_run_reserve_relinquish (n : Nat) (hn : n < 2) :
    ∃ m t, memoryInit (.atBoot (fun _ => 0) 0) 4096 = some m ∧
      Run PageStep ⟨m, []⟩ [.reserve n MEM_U, .relinquish ⟨16777216, n, MEM_U⟩] t := by
  obtain ⟨m, hm⟩ : ∃ m, memoryInit (.atBoot (fun _ => 0) 0) 4096 = some m := ⟨_, rfl⟩
  obtain ⟨m₁, m₂, hfind, hres, hrel⟩ : ∃ m₁ m₂,
      findFree m.memoryMap (i32 (count n)) 4096 m.maxChunk = some 4096 ∧
        reserve m n MEM_U = some (16777216, m₁) ∧
        relinquish m₁ 16777216 n = some (0, m₂) := by
    rcases Option.some.inj hm with rfl
    obtain rfl | rfl : n = 0 ∨ n = 1 := by omega
    · exact ⟨_, _, rfl, rfl, rfl⟩
    · exact ⟨_, _, rfl, rfl, rfl⟩
  have hfound : SearchSucceeds m n MEM_U := ⟨.inr rfl, 4096, hfind, by decide⟩
  exact ⟨m, _, hm, .cons (.reserve (by omega) hfound hres)
    (.single (.relinquish List.mem_cons_self hrel))⟩

theorem pageRuns_exact_one_chunk :
    ∃ m, memoryInit (.atBoot (fun _ => 0) 0) 4096 = some m ∧
      RunExact 1 ⟨m, []⟩ [.reserve 1 MEM_U, .relinquish ⟨16777216, 1, MEM_U⟩] := by
  rcases exists_run_reserve_relinquish 1 (by decide) with ⟨m, t, hm, hrun⟩
  exact ⟨m, hm, (pageRuns_exact_iff (fun _ => 0) 0 (by decide) hm hrun).2 (by decide)⟩

/-- `reserve(0, MEM_U)` takes chunk 4096 and the matching `relinquish(addr, 0)` leaves it marked,
although nothing is outstanding. -/
theorem zero_chunk_reservation_leaks :
    ∃ m t, memoryInit (.atBoot (fun _ => 0) 0) 4096 = some m ∧
      Run PageStep ⟨m, []⟩ [.reserve 0 MEM_U, .relinquish ⟨16777216, 0, MEM_U⟩] t ∧
      ¬ RunExact 1 ⟨m, []⟩ [.reserve 0 MEM_U, .relinquish ⟨16777216, 0, MEM_U⟩] := by
  rcases exists_run_reserve_relinquish 0 (by decide) with ⟨m, t, hm, hrun⟩
  refine ⟨m, t, hm, hrun, ?_⟩
  intro hexact
  have hinv := pageInv_init (fun _ => 0) 0 (by decide) hm
  exact nonempty_of_runExact hinv hrun hexact (.relinquish ⟨16777216, 0, MEM_U⟩) (by simp) rfl

end Memory
end EmbeddedOS
