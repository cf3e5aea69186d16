import EmbeddedOS.Base.Runs
import EmbeddedOS.Memory.HeapShape

/-!
# Runs of the heap

A heap fresh from `create`, and any sequence of `alloc`, `change` and `cull` after it, where the
owners of the blocks write into them as they like. While no `cull` merges on both sides, and every
region that `alloc` has to create fits, the heap keeps its layout.
-/

namespace EmbeddedOS
namespace Memory

open Base Base.ByteMem Stdlib

/-! ## Calls -/

inductive HeapCall where
  | alloc (n : Nat)
  | change (ptr n : Nat)
  | cull (ptr : Nat)
  | write (ptr : Nat)

/-- The machine, and address and size of every block handed out and not culled yet. -/
structure HeapState where
  machine : Machine
  live : List (Nat × Nat)

/-- One call on the heap at `h`, with pointers to live blocks and requests whose size arithmetic
stays in range, or a write into a live block. -/
inductive HeapStep (h : Nat) : HeapState → HeapCall → HeapState → Prop where
  | alloc {s s' : Machine} {live : List (Nat × Nat)} {fuel n p : Nat} :
      n + 32 < 2147483648 → alloc fuel s h n = some (p, s') →
      HeapStep h ⟨s, live⟩ (.alloc n) ⟨s', (p, n) :: live⟩
  | change {s s' : Machine} {live : List (Nat × Nat)} {b : Nat × Nat} {fuel n p : Nat} :
      b ∈ live → n + 32 < 2147483648 → change fuel s h b.1 n = some (p, s') → p ≠ 0 →
      HeapStep h ⟨s, live⟩ (.change b.1 n) ⟨s', (p, n) :: live.erase b⟩
  | changeFails {s s' : Machine} {live : List (Nat × Nat)} {b : Nat × Nat} {fuel n : Nat} :
      b ∈ live → n + 32 < 2147483648 → change fuel s h b.1 n = some (0, s') →
      HeapStep h ⟨s, live⟩ (.change b.1 n) ⟨s', live⟩
  | cull {s : Machine} {live : List (Nat × Nat)} {b : Nat × Nat} :
      b ∈ live →
      HeapStep h ⟨s, live⟩ (.cull b.1) ⟨{ s with mem := cull s.mem h b.1 }, live.erase b⟩
  | write {s : Machine} {live : List (Nat × Nat)} {b : Nat × Nat} {m : ByteMem} :
      b ∈ live → WritesOnly s.mem m b.1 (b.1 + b.2) →
      HeapStep h ⟨s, live⟩ (.write b.1) ⟨{ s with mem := m }, live⟩

/-- The region that `alloc` serves a request from, if one has room. -/
def roomFor (s : Machine) (h n : Nat) : Option Nat :=
  findRoom s.mem h n (nRegions s.mem h - 1).toNat 1

/-- The calls after which the layout is right: `cull` does not merge on both sides, and a region
that has to be created fits. -/
def CallFits (s : Machine) (h : Nat) : HeapCall → Prop
  | .alloc n => AllocFits s h n
  | .change ptr n => AllocFits s h n ∧ ¬ MergesTwice s.mem h ptr (roomFor s h n)
  | .cull ptr => ¬ MergesTwice s.mem h ptr none
  | .write _ => True

def FitStep (h : Nat) (s : HeapState) (a : HeapCall) (t : HeapState) : Prop :=
  CallFits s.machine h a ∧ HeapStep h s a t

/-- The heap at `h` on `s` comes fresh from `create`, after `memory_init`. -/
inductive Created (alignment size h : Nat) (s : Machine) : Prop where
  | intro (mem : ByteMem) (offset mem_kernel : Nat) (m : Machine) :
      mem_kernel ≤ KERNEL_RESERVED → offset + MAX_MEMORY < 18446744073709551616 →
      memoryInit (.atBoot mem offset) mem_kernel = some m →
      create m alignment size = some (h, s) → h ≠ 0 → Created alignment size h s

section Steps

variable {h : Nat} {s t : HeapState} {a : HeapCall} {as : List HeapCall}

/-! ## Invariance -/

theorem HeapInv.step {H : Heap} (hinv : HeapInv h s.live s.machine H) (ht : H.Tiled)
    (hstep : FitStep h s a t) : ∃ H', HeapInv h t.live t.machine H' ∧ H'.Tiled := by
  rcases hstep with ⟨hfits, hstep⟩
  cases hstep with
  | alloc hn hrun =>
      rcases hinv.alloc hn hfits (fun i => hinv.ready.tailClear ht hn) hrun with
        ⟨H', hinv', _, hall⟩
      exact ⟨H', hinv', hall.tiled ht⟩
  | change hb hn hrun _ =>
      rcases hinv.change hb hn hfits.1 (fun i => hinv.ready.tailClear ht hn) hrun with
        ⟨H', hinv', _, htiled⟩
      exact ⟨H', hinv', htiled hfits.2 ht⟩
  | changeFails hb hn hrun =>
      rcases hinv.change hb hn hfits.1 (fun i => hinv.ready.tailClear ht hn) hrun with
        ⟨_, _, hmoved, _⟩
      exact absurd rfl hmoved.pos
  | cull hb =>
      rcases hinv.culled hb with ⟨H', hinv', _, _, _, htiled⟩
      exact ⟨H', hinv', htiled (fun hbetween => hfits (hinv.mergesTwice hbetween)) ht⟩
  | write hb hw => exact ⟨H, (hinv.written hb hw).1, ht⟩

theorem HeapInv.run {H : Heap} (hinv : HeapInv h s.live s.machine H) (ht : H.Tiled)
    (hrun : Run (FitStep h) s as t) : ∃ H', HeapInv h t.live t.machine H' ∧ H'.Tiled :=
  @Run.invariant _ _ _ _ _ _ (fun u => ∃ H', HeapInv h u.live u.machine H' ∧ H'.Tiled)
    (fun _ _ _ ⟨_, hu, hut⟩ hstep => hu.step hut hstep) hrun ⟨H, hinv, ht⟩

/-- A new heap has one user region and no blocks. -/
theorem Created.ready {alignment size : Nat} {s : Machine} (hfits : CreateFits alignment size)
    (hcreated : Created alignment size h s) :
    ∃ k a, HeapReady s h ⟨k, size, i32 alignment, [Region.fresh a size]⟩ := by
  rcases hcreated with ⟨mem, offset, mem_kernel, m, hk, hoff, hinit, hcreate, hne⟩
  exact create_spec (pagesReady_init hk hoff hinit) hfits hcreate hne

theorem HeapReady.inv_fresh {s : Machine} {k size a asize : Nat} {al : Int}
    (hready : HeapReady s h ⟨k, size, al, [Region.fresh a asize]⟩) :
    HeapInv h [] s ⟨k, size, al, [Region.fresh a asize]⟩ := by
  refine ⟨hready, ?_, nofun, .nil⟩
  intro R hR
  rw [List.mem_singleton.1 hR]
  exact fenced_fresh a asize

theorem Created.inv {alignment size : Nat} {s : Machine} (hfits : CreateFits alignment size)
    (hcreated : Created alignment size h s) : ∃ H, HeapInv h [] s H ∧ H.Tiled := by
  rcases hcreated.ready hfits with ⟨k, a, hready⟩
  have hlo := hfits.lo
  refine ⟨_, hready.inv_fresh, ?_⟩
  intro R hR
  rw [List.mem_singleton.1 hR]
  exact Region.tiled_fresh (by omega)

/-- **Heap layout.** From `create` on, after every sequence of calls none of which merges a block
on both sides or creates a region that does not fit, every user region is laid out as promised, and
the live blocks lie in their regions, beside each other and beside the bookkeeping. -/
theorem heapRuns_layout {alignment size : Nat} {s : Machine} (hfits : CreateFits alignment size)
    (hcreated : Created alignment size h s) (hrun : Run (FitStep h) ⟨s, []⟩ as t) :
    HeapLayout t.machine.mem h t.live := by
  rcases hcreated.inv hfits with ⟨H, hinv, ht⟩
  rcases hinv.run ht hrun with ⟨H', hinv', ht'⟩
  exact hinv'.layout ht'

/-! ## A merge on both sides -/

/-- `cull` of a block between two free chunks leaves its region without the promised layout. -/
theorem HeapReady.culled_between {s : Machine} {H : Heap} {us vs : List Region} {R : Region}
    {pre rs : List Chunk} {a c d : Chunk} (hH : HeapReady s h H)
    (husers : H.users = us ++ R :: vs) (ht : R.Tiled) (hb : R.blocks = pre ++ a :: c :: d :: rs)
    (ha : a.flag ≠ .reserved) (hc : c.flag = .reserved) (hd : d.flag ≠ .reserved)
    (live : List (Nat × Nat)) : ¬ HeapLayout (cull s.mem h c.addr) h live := by
  intro hlayout
  have hp : Picked H us R vs := ⟨husers, hH.placed⟩
  have hb' : R.blocks = (pre ++ [a]) ++ c :: d :: rs := by simp [hb]
  rcases hH.culled husers hb' hc with ⟨l, hrel, _, hready⟩
  rcases hrel.both_of_between hp.sound.toPlaced hb ha hd with ⟨d', rs', hg, rfl⟩
  generalize cull s.mem h c.addr = m at hlayout hready
  have hcnt : nRegions m h = (us.length + vs.length + 2 : Nat) := by
    rw [hready.image.nRegions]
    simp only [Heap.count, Heap.withUsers, List.length_append, List.length_cons]
    omega
  have hlaid := hlayout.regions (us.length + 1) (Nat.le_add_left _ _) (by rw [hcnt]; omega)
  have hptr := hready.image.regionPtr_eq (k := us.length)
    (R := R.withBlocks (joined c.hdr pre (.merged a.hdr a c.culled) d' rs')) (by simp [Heap.withUsers])
  have hmem : R.withBlocks (joined c.hdr pre (.merged a.hdr a c.culled) d' rs') ∈
      (H.withUsers (us ++ R.withBlocks (joined c.hdr pre (.merged a.hdr a c.culled) d' rs') :: vs)).users := by
    simp [Heap.withUsers]
  rw [hptr] at hlaid
  have htiled := ((hready.image.users _ hmem).laidOut_iff
    (hready.placed.sound _ hmem).toPlaced).1 hlaid
  exact not_tiled_of_between hp.sound ht hb hg htiled

/-! ## Two concrete runs -/

/-- The search for room stops at the first user region if that has room. -/
theorem HeapReady.roomFor_first {s : Machine} {H : Heap} {vs : List Region} {R : Region}
    {pre : List Chunk} {c : Chunk} {n : Nat} (hH : HeapReady s h H) (husers : H.users = R :: vs)
    (hb : R.blocks = pre ++ [c]) (hfree : c.flag = .unallocated) (hn : n + 32 < 2147483648)
    (hroom : n + 32 < c.size) : roomFor s h n = some 1 := by
  have hR := hH.image.users R (by simp [husers])
  have hptr : regionPtr s.mem h 1 = R.record :=
    hH.image.regionPtr_eq (k := 0) (by simp [husers])
  have hleft : (nRegions s.mem h - 1).toNat = vs.length + 1 := by
    have hcnt : H.count = vs.length + 2 := by simp [Heap.count, husers]
    rw [hH.image.nRegions, hcnt]
    omega
  rw [roomFor, hleft, findRoom, if_pos ((fits_iff hR hb hfree hptr hn).2 hroom)]

/-- The first user region serves a request that it has room for. -/
theorem HeapReady.alloc_first {s : Machine} {H : Heap} {vs : List Region} {R : Region}
    {pre : List Chunk} {c : Chunk} {n : Nat} (hH : HeapReady s h H) (husers : H.users = R :: vs)
    (ht : H.Tiled) (hb : R.blocks = pre ++ [c]) (hfree : c.flag = .unallocated)
    (hn : n + 32 < 2147483648) (hroom : n + 32 < c.size) :
    ∃ s', AllocFits s h n ∧ alloc 1 s h n = some (c.addr, s') ∧
      HeapReady s' h (H.withUsers (R.withBlocks (Memory.carved pre c n) :: vs)) := by
  have hfind : findRoom s.mem h n (nRegions s.mem h - 1).toNat 1 = some 1 :=
    hH.roomFor_first husers hb hfree hn hroom
  rcases hH.carved hn hfind (hH.tailClear ht hn hfind) with
    ⟨us, Q, ws, pre', c', husers', hidx, hr, haddr, _, hready⟩
  obtain rfl : us = [] := List.length_eq_zero_iff.1 (by omega)
  obtain ⟨rfl, rfl⟩ : Q = R ∧ ws = vs := by simpa [husers] using husers'.symm
  obtain ⟨rfl, rfl⟩ : pre' = pre ∧ c' = c := by
    have hsame : pre' ++ [c'] = pre ++ [c] := hr.blocks.symm.trans hb
    rcases List.append_inj' hsame rfl with ⟨h1, h2⟩
    exact ⟨h1, by simpa using h2⟩
  refine ⟨_, fun hnone => ?_, ?_, hready⟩
  · rw [hfind] at hnone
    cases hnone
  rw [alloc, hfind]
  exact congrArg some (Prod.ext haddr rfl)

end Steps

/-- The heap of one page for each region, on a machine with one kernel page and pages left. -/
theorem exists_created : ∃ s, Created 4096 4096 4176 s ∧
    HeapReady s 4176 ⟨4096, 4096, 4096, [Region.fresh 16777216 4096]⟩ ∧
    (reserve s 1 MEM_U).isSome = true ∧ PagesLeft s 4097 := by
  obtain ⟨m, hm⟩ : ∃ m, memoryInit (.atBoot (fun _ => 0) 0) 4096 = some m := ⟨_, rfl⟩
  obtain ⟨s1, s2, hresK, hresU, hmore⟩ : ∃ s1 s2, reserve m (4096 / 4096) MEM_K = some (4096, s1) ∧
      reserve { s1 with mem := memset s1.mem 4096 0 4096 } (4096 / 4096) MEM_U =
        some (16777216, s2) ∧ (reserve s2 1 MEM_U).isSome = true := by
    rcases Option.some.inj hm with rfl
    exact ⟨_, _, rfl, rfl, by decide +kernel⟩
  have hpages := pagesReady_init (by decide) (by decide) hm
  rcases create_ready hpages ⟨by decide, by decide, by decide⟩ (by decide) hresK (by decide) hresU with
    ⟨mem, hcreate, hready⟩
  have hleft : PagesLeft { s2 with mem := mem } 4097 := by
    rcases memoryInit_spec (fun _ => 0) 0 (show 4096 ≤ KERNEL_RESERVED by decide) with
      ⟨m', hm', _, _, hoff, _, hused⟩
    obtain rfl : m' = m := Option.some.inj (hm'.symm.trans hm)
    have hfirst : Owned m' 0 1 := by
      intro x hx hx'
      rw [hoff, hused]
      exact ⟨Nat.zero_le x, decide_eq_true (by simp only [CHUNK_SIZE]; omega)⟩
    have hfree : FreePages m' 1 262144 := by
      intro k hk _
      rw [hused]
      exact decide_eq_false (by simp only [CHUNK_SIZE]; omega)
    have hhandK := reserve_handed hpages (by decide) (.inl rfl) hresK
    have hreadyK := hhandK.ready.withMem (memset s1.mem 4096 0 4096)
    have hoffK : s1.memOffset = 0 := hhandK.offset.trans hoff
    have hhandU := reserve_handed hreadyK (by decide) (.inr rfl) hresU
    have hfreeK : FreePages s1 2 262144 :=
      (hfree.mono (by decide) (Nat.le_refl _)).reserve hpages (by decide) (.inl rfl) hresK
        (.inr (by rw [chunkOf, hoff]; decide))
    have hchunk : chunkOf { s1 with mem := memset s1.mem 4096 0 4096 } 16777216 = 4096 := by
      rw [chunkOf, hoffK]
      decide
    have hfreeU : FreePages { s1 with mem := memset s1.mem 4096 0 4096 } 2 262144 := hfreeK
    have hkernel : FreePages s2 2 4096 :=
      (hfreeU.mono (Nat.le_refl _) (by decide)).reserve (n := 4096 / 4096) hreadyK (by decide)
        (.inr rfl) hresU (.inl (Nat.le_of_eq hchunk.symm))
    have huser : FreePages s2 4097 262144 :=
      (hfreeU.mono (by decide) (Nat.le_refl _)).reserve (n := 4096 / 4096) hreadyK (by decide)
        (.inr rfl) hresU (.inr (by rw [hchunk]; decide))
    have hfirstK := (hhandK.keeps _ _ hfirst).withMem (memset s1.mem 4096 0 4096)
    exact ⟨hhandU.offset.trans hoffK, hhandU.keeps _ _ hfirstK, hkernel, huser⟩
  exact ⟨_, ⟨fun _ => 0, 0, 4096, m, by decide, by decide, hm, hcreate, by decide⟩, hready,
    (reserve_isSome_withMem s2 mem 1 MEM_U).trans hmore, hleft⟩

theorem heapRuns_layout_one_alloc : ∃ s t, Created 4096 4096 4176 s ∧
    Run (FitStep 4176) ⟨s, []⟩ [.alloc 8] t ∧ HeapLayout t.machine.mem 4176 t.live := by
  rcases exists_created with ⟨s, hcreated, hready, _⟩
  have htiled : ∀ Q ∈ [Region.fresh 16777216 4096], Q.Tiled := by
    intro Q hQ
    rw [List.mem_singleton.1 hQ]
    exact Region.tiled_fresh (by decide)
  have hblocks : (Region.fresh 16777216 4096).blocks = [] ++ [⟨16777272, 3968, .unallocated⟩] := rfl
  rcases hready.alloc_first (n := 8) rfl htiled hblocks rfl (by decide) (by decide) with
    ⟨s', hfits, halloc, _⟩
  have hrun : Run (FitStep 4176) ⟨s, []⟩ [.alloc 8] ⟨s', [(16777296, 8)]⟩ :=
    .single ⟨hfits, .alloc (by decide) halloc⟩
  exact ⟨s, _, hcreated, hrun, heapRuns_layout ⟨by decide, by decide, by decide⟩ hcreated hrun⟩

/-- Two blocks are culled in the order of their addresses: the second one lies between the first
and the tail, and its merge leaves a gap where the first one was. -/
theorem heapRuns_gap_after_merge : ∃ s t, Created 4096 4096 4176 s ∧
    Run (HeapStep 4176) ⟨s, []⟩ [.alloc 8, .alloc 8, .cull 16777296, .cull 16777328] t ∧
      ¬ HeapLayout t.machine.mem 4176 t.live := by
  rcases exists_created with ⟨s, hcreated, hready, _⟩
  let a : Chunk := ⟨16777272, 8, .reserved⟩
  let c : Chunk := ⟨16777304, 8, .reserved⟩
  let d : Chunk := ⟨16777336, 3888, .unallocated⟩
  have htiled0 : ∀ Q ∈ [Region.fresh 16777216 4096], Q.Tiled := by
    intro Q hQ
    rw [List.mem_singleton.1 hQ]
    exact Region.tiled_fresh (by decide)
  have hblocks0 : (Region.fresh 16777216 4096).blocks = [] ++ [⟨16777272, 3968, .unallocated⟩] := rfl
  rcases hready.alloc_first (n := 8) rfl htiled0 hblocks0 rfl (by decide) (by decide) with
    ⟨s1, _, halloc1, hready1⟩
  have htiled1 : ∀ Q ∈ [Region.mk 16777216 4096 [a, ⟨16777304, 3928, .unallocated⟩]], Q.Tiled := by
    intro Q hQ
    rw [List.mem_singleton.1 hQ]
    simp [Region.Tiled, Region.pieces, Tiles, Region.infoChunk, Region.arrayChunk, Region.arr,
      Region.count, Chunk.stop, a]
  rcases hready1.alloc_first (n := 8) rfl htiled1 (show _ = [a] ++ [_] from rfl) rfl (by decide)
    (by decide) with ⟨s2, _, halloc2, hready2⟩
  have hready2' : HeapReady s2 4176 ⟨4096, 4096, 4096, [⟨16777216, 4096, [a, c, d]⟩]⟩ := hready2
  have hplaced := (hready2'.placed.sound _ List.mem_cons_self).toPlaced
  have hnext : NoFreeAfter [c, d] := by
    intro b hb
    cases hb
    rfl
  rcases hready2'.culled (show _ = [] ++ _ :: _ from rfl) (show _ = [] ++ a :: _ from rfl) rfl with
    ⟨l, hrel, _, hready3⟩
  rw [hrel.alone_of_reserved hplaced (show _ = [] ++ a :: _ from rfl) (by rintro _ ⟨⟩) hnext] at hready3
  obtain ⟨s3, hs3⟩ : ∃ s3, s3 = { s2 with mem := cull s2.mem 4176 16777296 } := ⟨_, rfl⟩
  obtain ⟨s4, hs4⟩ : ∃ s4, s4 = { s3 with mem := cull s3.mem 4176 16777328 } := ⟨_, rfl⟩
  rw [show a.addr = 16777296 from rfl, ← hs3] at hready3
  have htiled3 : (Region.mk 16777216 4096 [a.culled, c, d]).Tiled := by
    simp [Region.Tiled, Region.pieces, Tiles, Region.infoChunk, Region.arrayChunk, Region.arr,
      Region.count, Chunk.stop, Chunk.culled, a, c, d]
  have hcull3 : HeapStep 4176 ⟨s2, [(16777328, 8), (16777296, 8)]⟩ (.cull 16777296)
      ⟨s3, [(16777328, 8)]⟩ := by
    rw [hs3]
    exact .cull (b := (16777296, 8)) (by decide)
  have hcull4 : HeapStep 4176 ⟨s3, [(16777328, 8)]⟩ (.cull 16777328) ⟨s4, []⟩ := by
    rw [hs4]
    exact .cull (b := (16777328, 8)) (by decide)
  have hrun : Run (HeapStep 4176) ⟨s, []⟩ [.alloc 8, .alloc 8, .cull 16777296, .cull 16777328]
      ⟨s4, []⟩ :=
    .cons (.alloc (by decide) halloc1) <| .cons (.alloc (by decide) halloc2) <| .cons hcull3 <|
      .single hcull4
  have hgap := hready3.culled_between (show _ = [] ++ _ :: _ from rfl) htiled3
    (show _ = [] ++ a.culled :: c :: d :: [] from rfl) (by rintro ⟨⟩) rfl (by rintro ⟨⟩) []
  rw [show c.addr = 16777328 from rfl, ← show s4.mem = cull s3.mem 4176 16777328 by rw [hs4]] at hgap
  exact ⟨s, ⟨s4, []⟩, hcreated, hrun, hgap⟩

end Memory
end EmbeddedOS
