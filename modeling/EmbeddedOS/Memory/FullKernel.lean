import EmbeddedOS.Memory.UnusedPages

/-!
# Filling the kernel region

Requests for more than half of what a region of one page offers, and not for all of it, get a
region of their own each. Every one of them takes a slot of the kernel region, until none is left.
-/

namespace EmbeddedOS
namespace Memory

open Base Base.ByteMem Stdlib

variable {h n p fuel slots a : Nat} {H : Heap} {R : Region} {s s1 : Machine}
  {live : List (Nat × Nat)}

/-! ## Pages -/

/-- A run of free pages inside the zone can be reserved, and what comes behind it stays as it is. -/
theorem reserve_of_free {type : Nat} (hP : PagesReady s) (htype : type = MEM_K ∨ type = MEM_U)
    (hn : 0 < n) (hlo : (zone s type).1 ≤ p) (hhi : p + n < (zone s type).2)
    (hfree : FreePages s p (p + n)) :
    ∃ a s1, reserve s n type = some (a, s1) ∧ (zone s type).1 ≤ chunkOf s a ∧ chunkOf s a ≤ p := by
  have hmap : MAP_CHUNKS = 786432 := rfl
  have hstop : (zone s type).2 ≤ 262144 := by
    unfold zone
    split
    · exact show KERNEL_RESERVED / CHUNK_SIZE ≤ 262144 by decide
    · exact Nat.le_of_eq hP.maxChunk
  have hcount : count n = n := if_neg (by omega)
  have hint : i32 (n : Int) = n := i32_of_range (by omega) (by omega)
  have hrun : FreeRun s.memoryMap p n := by
    intro x hx
    rw [Free, testUsed_eq hP.mirrored (by omega), hfree (p + x) (by omega) (by omega)]
  rcases findFree_cases s.memoryMap (zone s type).1 hn (by omega) hstop with
    ⟨r, hfind, hfound, _⟩ | ⟨_, i, _, hi, hlong, _⟩
  · rcases hfound with ⟨hr, hrend, _, hleast⟩ | ⟨_, hnone⟩
    · have hrp : r ≤ p := by
        by_contra hlt
        exact hleast p hlo (Nat.not_le.1 hlt) hrun
      rcases markUsedUpTo_spec hP.mirrored n (show r + n ≤ MAP_CHUNKS by omega) with ⟨map, hmark, _⟩
      have hchunk := chunkOf_address s (show r < MAP_CHUNKS by omega)
      have hres := reserve_eq s (n := n) htype
      rw [reserveIn, hcount, hint, hfind, Option.bind_eq_bind, Option.bind_some,
        if_neg (by omega), hmark] at hres
      exact ⟨_, _, hres, by omega, by omega⟩
    · exact absurd hrun (hnone p hlo hhi)
  · omega

/-! ## Heaps without room -/

/-- No tail has room for a request of `n` bytes. -/
def Heap.NoRoom (H : Heap) (n : Nat) : Prop :=
  ∀ R ∈ H.users, ∀ pre t, R.blocks = pre ++ [t] → t.size ≤ n + 32

theorem HeapReady.roomFor_none (hH : HeapReady s h H) (hno : H.NoRoom n)
    (hn : n + 32 < 2147483648) : roomFor s h n = none := by
  cases hfind : roomFor s h n with
  | none => rfl
  | some i =>
      rcases hH.room hfind with ⟨us, R, vs, husers, rfl, hptr, hfit⟩
      have hR : R ∈ H.users := by simp [husers]
      rcases (hH.placed.sound R hR).tail with ⟨pre, t, hb, hflag⟩
      have hsize := (fits_iff (hH.image.users R hR) hb hflag hptr hn).1 hfit
      exact absurd (hno R hR pre t hb) (by omega)

/-- A region of one page that serves more than half of its tail has no room for the same again. -/
theorem Heap.NoRoom.append (hno : H.NoRoom n) (hn : 1952 ≤ n) {us : List Region} {pre : List Chunk}
    {t : Chunk} (husers : us = H.users ++ [(Region.fresh a 4096).withBlocks (carved pre t n)])
    (ht : (Region.fresh a 4096).blocks = pre ++ [t]) : (H.withUsers us).NoRoom n := by
  subst husers
  intro R hR pre' t' hb
  rcases List.mem_append.1 hR with hR | hR
  · exact hno R hR pre' t' hb
  · rw [List.mem_singleton.1 hR] at hb
    have hfresh : [] ++ [Chunk.mk (a + 56) (4096 - 128) .unallocated] = pre ++ [t] := ht
    rcases List.append_inj' hfresh rfl with ⟨rfl, hlast⟩
    obtain rfl : Chunk.mk (a + 56) (4096 - 128) .unallocated = t := by simpa using hlast
    have hcarved : [Chunk.block _ n] ++ [Chunk.remainder _ n] = pre' ++ [t'] := hb
    rcases List.append_inj' hcarved rfl with ⟨_, hlast⟩
    obtain rfl : Chunk.remainder _ n = t' := by simpa using hlast
    simp only [Chunk.remainder]
    omega

/-! ## The run -/

/-- Each request takes one page and one slot of the kernel region. -/
theorem HeapInv.fillStep (hinv : HeapInv h live s H) (hal : H.alignment = 4096)
    (hno : H.NoRoom n) (hn : 1952 ≤ n) (hn' : n < 3936) (hroom : 216 + 8 * H.count ≤ H.size)
    (hleft : PagesLeft s p) (hp : 4096 ≤ p) (hend : p + 1 < 262144) :
    ∃ q t us, SafeStep h ⟨s, live⟩ (.alloc n) ⟨t, (q, n) :: live⟩ ∧
      HeapInv h ((q, n) :: live) t (H.withUsers us) ∧ us.length = H.users.length + 1 ∧
      (H.withUsers us).NoRoom n ∧ PagesLeft t (p + 1) := by
  have hH := hinv.ready
  have halign : alignment s.mem h = 4096 := hH.image.alignment.trans hal
  have hzone : (zone s MEM_U).1 = 4096 ∧ (zone s MEM_U).2 = 262144 :=
    ⟨zone_user s, hH.pages.maxChunk⟩
  have hfind := hH.roomFor_none hno (by omega)
  have hsize : newRegionSize 4096 n = (4096 : Nat) := by
    rw [newRegionSize_small (by omega)]
    omega
  have hkernel : 8 ≤ kernelRoom s.mem h := by
    rw [hH.image.kernelRoom_eq]
    omega
  have hregion : RegionFits s h ((4096 : Nat) : Int) :=
    regionFits_of_small (by decide) (by decide) (by decide) hkernel
  -- The pages.
  rcases reserve_of_free hH.pages (.inr rfl) (n := 1) (p := p) (by decide) (by omega) (by omega)
    (hleft.user.mono (Nat.le_refl _) (by omega)) with ⟨a, s1, hres, hlo, hhi⟩
  have hhand := reserve_handed hH.pages (by decide) (.inr rfl) hres
  have hleft1 : PagesLeft s1 (p + 1) := by
    have hone : count 1 = 1 := rfl
    refine ⟨hhand.offset.trans hleft.offset, hhand.keeps _ _ hleft.first, ?_, ?_⟩
    · exact hleft.kernel.reserve hH.pages (by decide) (.inr rfl) hres (.inl (by omega))
    · exact (hleft.user.mono (Nat.le_succ p) (Nat.le_refl _)).reserve hH.pages (by decide)
        (.inr rfl) hres (.inr (by omega))
  -- The region, and the block in it.
  rcases createRegion_reserved hH (by decide) hregion hres with ⟨m, hcreate, hready, _⟩
  rcases hinv.grown (by decide) hregion hcreate with ⟨_, hinv1, _⟩
  have hinv1 := (hinv1.both hready hready).1
  have hfind1 := hH.findRoom_created hready (show n + 32 < 2147483648 by omega) hfind
  rw [if_pos (by omega)] at hfind1
  have hclear := hready.tailClear_fresh (by decide) (by omega) hfind1
  rcases hready.carved (by omega) hfind1 hclear with ⟨us, R, vs, pre, t, husers, hi, hr, _, _, hready2⟩
  rcases hinv1.carved (by omega) hfind1 hclear with ⟨_, hinv2, _⟩
  have hinv2 := (hinv2.both hready2 hready2).1
  obtain ⟨rfl, hcons⟩ : H.users = us ∧ [Region.fresh a 4096] = R :: vs :=
    List.append_inj husers (by omega)
  obtain ⟨rfl, rfl⟩ : Region.fresh a 4096 = R ∧ [] = vs := by simpa using hcons
  have halloc : Memory.alloc 2 s h n = Memory.alloc 1 { s1 with mem := m } h n := by
    rw [alloc_without_room hfind halign (by decide), hsize, hcreate, Option.bind_some]
  have hserved := halloc.trans (alloc_of_room hfind1)
  refine ⟨_, _, _, ⟨⟨fun _ => ?_, fun i hi => ?_⟩, .alloc (by omega) hserved⟩, hinv2, by simp,
    hno.append hn rfl hr.blocks, hleft1.offset, hleft1.first, hleft1.kernel, hleft1.user⟩
  · rw [halign, hsize]
    exact ⟨hregion, by omega⟩
  · rw [hfind] at hi
    cases hi

/-- As many such requests as the kernel region has slots fill it. -/
theorem HeapInv.fills (hinv : HeapInv h live s H) (hal : H.alignment = 4096) (hno : H.NoRoom n)
    (hn : 1952 ≤ n) (hn' : n < 3936) (hroom : 208 + 8 * (H.count + slots) ≤ H.size)
    (hleft : PagesLeft s p) (hp : 4096 ≤ p) (hend : p + slots < 262144) :
    ∃ t live' us, Run (SafeStep h) ⟨s, live⟩ (List.replicate slots (.alloc n)) ⟨t, live'⟩ ∧
      HeapInv h live' t (H.withUsers us) ∧ us.length = H.users.length + slots ∧
      (H.withUsers us).NoRoom n ∧ PagesLeft t (p + slots) := by
  induction slots generalizing s H live p with
  | zero => exact ⟨s, live, H.users, .nil _, hinv, rfl, hno, hleft⟩
  | succ slots ih =>
      rcases hinv.fillStep hal hno hn hn' (by omega) hleft hp (by omega) with
        ⟨q, t, us, hstep, hinv', hlen, hno', hleft'⟩
      have hcnt : (H.withUsers us).count = H.count + 1 := congrArg (· + 1) hlen
      have hroom' : 208 + 8 * ((H.withUsers us).count + slots) ≤ H.size := by omega
      rcases ih hinv' hal hno' hroom' hleft' (by omega) (by omega) with
        ⟨t', live', vs, hrun, hinv2, hlen2, hno2, hleft2⟩
      have hlen3 : vs.length = us.length + slots := hlen2
      refine ⟨t', live', vs, .cons hstep hrun, hinv2, by omega, hno2, ?_⟩
      rwa [show p + (slots + 1) = p + 1 + slots by omega]

/-- In the heap of one page for each region, 485 requests of 2000 bytes fill the kernel region. -/
theorem exists_full_kernel : ∃ s t live us, Created 4096 4096 4176 s ∧
    Run (SafeStep 4176) ⟨s, []⟩ (List.replicate 485 (.alloc 2000)) ⟨t, live⟩ ∧
    HeapReady t 4176 ⟨4096, 4096, 4096, us⟩ ∧ us.length = 485 ∧
    Heap.NoRoom ⟨4096, 4096, 4096, us⟩ 2000 ∧ PagesLeft t 4581 := by
  rcases exists_created with ⟨s, hcreated, hready, _, hleft⟩
  have htiled : ∀ Q ∈ [Region.fresh 16777216 4096], Q.Tiled := by
    intro Q hQ
    rw [List.mem_singleton.1 hQ]
    exact Region.tiled_fresh (by decide)
  have hblocks : (Region.fresh 16777216 4096).blocks = [] ++ [⟨16777272, 3968, .unallocated⟩] := rfl
  have hfind : roomFor s 4176 2000 = some 1 :=
    hready.roomFor_first (n := 2000) rfl hblocks rfl (by decide) (by decide)
  have hclear := hready.tailClear htiled (by decide) hfind
  rcases hready.inv_fresh.carved (by decide) hfind hclear with ⟨_, hinv, _⟩
  rcases hready.carved (by decide) hfind hclear with ⟨us, R, vs, pre, t, husers, hi, hr, _, _, hready1⟩
  have hinv := (hinv.both hready1 hready1).1
  obtain rfl : us = [] := List.length_eq_zero_iff.1 (by omega)
  obtain ⟨rfl, rfl⟩ : Region.fresh 16777216 4096 = R ∧ [] = vs := by simpa using husers
  have hempty : Heap.NoRoom ⟨4096, 4096, 4096, []⟩ 2000 := nofun
  have hno := hempty.append (by decide) rfl hr.blocks
  have halloc : alloc 1 s 4176 2000 = _ := alloc_of_room hfind
  have hstep : SafeStep 4176 ⟨s, []⟩ (.alloc 2000) ⟨_, _⟩ :=
    ⟨⟨fun hnone => absurd (hnone.symm.trans hfind) nofun, fun i hi => by
      obtain rfl : i = 1 := Option.some.inj (hi.symm.trans hfind)
      exact hclear⟩, .alloc (by decide) halloc⟩
  have hleft1 : PagesLeft { s with mem := (carve s.mem 4176 1 2000).2 } 4097 :=
    ⟨hleft.offset, hleft.first, hleft.kernel, hleft.user⟩
  have hslots : 208 + 8 * (2 + 484) ≤ 4096 := by decide
  rcases hinv.fills rfl hno (by decide) (by decide) hslots hleft1 (by decide) (by decide) with
    ⟨t', live, us, hrun, hinv', hlen, hno', hleft'⟩
  exact ⟨s, t', live, us, hcreated, .cons hstep hrun, hinv'.ready, hlen, hno', hleft'⟩

end Memory
end EmbeddedOS
