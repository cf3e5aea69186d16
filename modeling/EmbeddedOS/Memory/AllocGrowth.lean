import EmbeddedOS.Memory.FirstFit
import EmbeddedOS.Memory.HeapRuns

/-!
# `alloc` when no region has room

`alloc` creates a region for the request and calls itself again. The new region is rounded up to
pages, but its size counts bytes that the test of `alloc` asks for once more, so for some requests
the new region fails the test like the others and the recursion goes on.
-/

namespace EmbeddedOS
namespace Memory

open Base Base.ByteMem Stdlib

variable {h n p fuel : Nat} {H : Heap} {s s' : Machine}

/-! ## The size of the new region -/

/-- The alignment of a heap, as `create` is called for it: a multiple of the page size. -/
def WholePages (al : Int) : Prop := 0 < al ∧ al % 4096 = 0

instance (al : Int) : Decidable (WholePages al) := inferInstanceAs (Decidable (_ ∧ _))

/-- The request and the headers, rounded up; the size is an `int`. -/
theorem newRegionSize_eq {al : Int} (hal : WholePages al) (hsmall : al < 2147483648)
    (hn : n + 32 < 2147483648) : ∃ v : Nat, newRegionSize al n = i32 v ∧ n + 128 < v ∧
      v ≤ n + 128 + al ∧ v % 4096 = 0 := by
  rcases hal with ⟨hpos, hpages⟩
  rcases Int.eq_ofNat_of_zero_le (Int.le_of_lt hpos) with ⟨a, rfl⟩
  have ha : u64 (a : Int) = a := u64_of_range rfl (by omega)
  have hsum : n + NEW_REGION_SIZE = n + 128 := rfl
  have hlo : n + 128 < ((n + 128) / a + 1) * a := by
    rw [Nat.mul_comm]
    exact Nat.lt_mul_div_succ _ (by omega)
  have hhi : ((n + 128) / a + 1) * a ≤ n + 128 + a := by
    rw [Nat.add_one_mul]
    exact Nat.add_le_add_right (Nat.div_mul_le_self _ _) a
  have hmod : ((n + 128) / a + 1) * a % 4096 = 0 := by
    rw [Nat.mul_mod, show a % 4096 = 0 by omega, Nat.mul_zero, Nat.zero_mod]
  refine ⟨((n + 128) / a + 1) * a, ?_, hlo, by omega, hmod⟩
  rw [newRegionSize, hsum, ha, u64_of_range (n := ((n + 128) / a + 1) * a) (by rw [Nat.cast_mul])
    (by omega)]

/-- A size that is an `int` as it stands is the size of a region on pages of its own. -/
theorem regionFits_of_small {v : Nat} (hlo : 0 < v) (hpages : v % 4096 = 0)
    (hsmall : v < 2147483648) (hroom : 8 ≤ kernelRoom s.mem h) : RegionFits s h v := by
  refine ⟨by omega, ?_, hroom⟩
  have hcount : count (v / 4096) = v / 4096 := if_neg (by omega)
  rw [Int.toNat_natCast, hcount]
  omega

/-- No pages are reserved for a region of negative size. -/
theorem reserve_wrapped {v : Nat} (hP : PagesReady s) (hpages : v % 4096 = 0)
    (hlo : 2147483648 ≤ v) (hhi : v < 4294967296) :
    reserve s (u32 ((i32 v).tdiv ALIGN)) MEM_U = none := by
  have hmax := hP.maxChunk
  have hsize : i32 v = 4096 * ((v / 4096 : Nat) - 1048576 : Int) := by
    rw [i32_eq]
    omega
  have hcount : u32 ((i32 v).tdiv ALIGN) = v / 4096 + 4293918720 := by
    have hdiv : (4096 * ((v / 4096 : Nat) - 1048576 : Int)).tdiv ALIGN = (v / 4096 : Nat) - 1048576 :=
      Int.mul_tdiv_cancel_left _ (by decide)
    rw [hsize, hdiv]
    unfold u32
    omega
  rw [hcount]
  exact reserve_negative (.inr rfl) (by rw [hmax]; decide) (by omega) (by omega)

theorem createRegion_negative {v : Nat} (hP : PagesReady s) (hpages : v % 4096 = 0)
    (hlo : 2147483648 ≤ v) (hhi : v < 4294967296) : createRegion s h (i32 v) = none := by
  rw [createRegion, reserve_wrapped hP hpages hlo hhi]
  rfl

/-! ## The recursion -/

theorem alloc_of_room {i : Nat} (hfind : roomFor s h n = some i) :
    alloc (fuel + 1) s h n =
      some ((carve s.mem h i n).1, { s with mem := (carve s.mem h i n).2 }) := by
  rw [roomFor] at hfind
  rw [alloc, hfind]

/-- Without room `alloc` creates a region and starts again. -/
theorem alloc_without_room {al : Int} (hfind : roomFor s h n = none)
    (hal : alignment s.mem h = al) (hne : al ≠ 0) :
    alloc (fuel + 1) s h n =
      (createRegion s h (newRegionSize al n)).bind fun s' => alloc fuel s' h n := by
  rw [roomFor] at hfind
  rw [alloc, hfind, hal]
  exact if_neg hne

theorem alloc_last_without_room {al : Int} (hfind : roomFor s h n = none)
    (hal : alignment s.mem h = al) (hne : al ≠ 0) : alloc 1 s h n = none := by
  rw [alloc_without_room hfind hal hne]
  cases createRegion s h (newRegionSize al n) <;> rfl

/-- No call of `create_region` in this call of `alloc` finds the kernel region full. -/
def KernelHasRoom : Nat → Machine → Nat → Nat → Prop
  | 0, _, _, _ => True
  | fuel + 1, s, h, n =>
      roomFor s h n = none → 8 ≤ kernelRoom s.mem h ∧
        ∀ s', createRegion s h (newRegionSize (alignment s.mem h) n) = some s' →
          KernelHasRoom fuel s' h n

/-- If the new regions have no room either, `alloc` never returns. -/
theorem alloc_never {v : Nat} (hH : HeapReady s h H) (hne : H.alignment ≠ 0)
    (hsize : newRegionSize H.alignment n = v) (hlo : n + 128 < v) (hpages : v % 4096 = 0)
    (hsmall : v < 2147483648) (hkernel : KernelHasRoom fuel s h n) (hfind : roomFor s h n = none)
    (hno : ¬ n + 160 < v) : alloc fuel s h n = none := by
  induction fuel generalizing s H with
  | zero => rfl
  | succ fuel ih =>
      rcases hkernel hfind with ⟨hroom, hnext⟩
      rw [hH.image.alignment, hsize] at hnext
      rw [alloc_without_room hfind hH.image.alignment hne, hsize]
      cases hcreate : createRegion s h v with
      | none => rfl
      | some s1 =>
          have hfits : RegionFits s h v := regionFits_of_small (by omega) hpages hsmall hroom
          rcases createRegion_spec hH (by omega) hfits hcreate with ⟨a, hH1, _⟩
          refine ih hH1 hne hsize (hnext s1 hcreate) ?_
          rw [roomFor, hH.findRoom_created hH1 (by omega) hfind, if_neg hno]

/-- If `alloc` returns, a region had room, or the one that was created fits and has room. -/
theorem allocFits_of_returns (hH : HeapReady s h H) (hal : WholePages H.alignment)
    (hn : n + 32 < 2147483648) (hkernel : KernelHasRoom fuel s h n)
    (hrun : alloc fuel s h n = some (p, s')) : AllocFits s h n := by
  intro hfind
  have hne : H.alignment ≠ 0 := by
    have hpos := hal.1
    omega
  have hint : H.alignment < 2147483648 := by
    rw [← hH.image.alignment, alignment, loadInt, i32_eq]
    omega
  rcases newRegionSize_eq hal hint hn with ⟨v, hsize, hlo, hhi, hpages⟩
  have hbound : v < 4294967296 := by
    have hmod := hal.2
    omega
  rw [hH.image.alignment, hsize]
  cases fuel with
  | zero => cases hrun
  | succ fuel =>
      by_cases hsmall : v < 2147483648
      · have hexact : i32 (v : Int) = v := i32_of_range (by omega) (by omega)
        rw [hexact] at hsize ⊢
        refine ⟨regionFits_of_small (by omega) hpages hsmall (hkernel hfind).1, ?_⟩
        by_contra hno
        rw [alloc_never hH hne hsize hlo hpages hsmall hkernel hfind (by omega)] at hrun
        cases hrun
      · rw [alloc_without_room hfind hH.image.alignment hne, hsize,
          createRegion_negative hH.pages hpages (by omega) hbound] at hrun
        cases hrun

/-! ## Heaps of whole pages of 4096 bytes -/

theorem newRegionSize_small (hn : n + 128 < 2147479552) :
    newRegionSize 4096 n = (4096 * ((n + 128) / 4096 + 1) : Nat) := by
  have hal : WholePages 4096 := by decide
  rcases newRegionSize_eq hal (by decide) (show n + 32 < 2147483648 by omega) with
    ⟨v, hsize, hlo, hhi, hpages⟩
  rw [hsize, i32_of_range (by omega) (by omega)]
  omega

/-- The new region has room for the request unless rounding up left less than the 32 bytes that
the test asks for once more. -/
theorem newRegionSize_room (hn : n + 128 < 2147479552) :
    (n : Int) + 160 < newRegionSize 4096 n ↔ (n + 128) % 4096 < 4064 := by
  rw [newRegionSize_small hn]
  omega

theorem regionFits_small (hn : n + 128 < 2147479552) (hroom : 8 ≤ kernelRoom s.mem h) :
    RegionFits s h (newRegionSize 4096 n) := by
  rw [newRegionSize_small hn]
  exact regionFits_of_small (by omega) (by omega) (by omega) hroom

/-! ## Termination -/

/-- `alloc` returns a block, and creates one region at most. -/
def ReturnsBlock (s : Machine) (h n : Nat) : Prop :=
  ∃ p s', alloc 2 s h n = some (p, s') ∧ p ≠ 0

/-- A region that passes the test serves the request. -/
theorem HeapReady.alloc_found {i : Nat} (hH : HeapReady s h H) (hfind : roomFor s h n = some i) :
    ∃ p s', alloc (fuel + 1) s h n = some (p, s') ∧ p ≠ 0 := by
  rcases hH.room hfind with ⟨us, R, vs, husers, rfl, hptr, _⟩
  have hp : Picked H us R vs := ⟨husers, hH.placed⟩
  rcases hp.sound.tail with ⟨pre, t, hb, _⟩
  rcases tailPtr_eq (hH.image.users R hp.mem) hb hptr with ⟨htail, hhead⟩
  have haddr : (carve s.mem h (us.length + 1) n).1 = t.addr := by
    rw [← hhead.addr, ← htail]
    rfl
  rw [roomFor] at hfind
  refine ⟨t.addr, { s with mem := (carve s.mem h (us.length + 1) n).2 }, ?_, Nat.succ_ne_zero _⟩
  rw [alloc, hfind, ← haddr]

/-- **Termination.** With pages and a slot for a new region, `alloc` returns after creating one
region at most exactly if a region has room or the new one has. -/
theorem alloc_returns_iff (hH : HeapReady s h H) (hal : H.alignment = 4096) (hn : n < 2147475456)
    (hres : (reserve s (u32 ((newRegionSize 4096 n).tdiv ALIGN)) MEM_U).isSome = true)
    (hroom : 8 ≤ kernelRoom s.mem h) :
    ReturnsBlock s h n ↔
      (∃ i : Nat, 1 ≤ i ∧ i < nRegions s.mem h ∧ (n : Int) + 32 < chunkSize s.mem (tailPtr s.mem h i)) ∨
        (n + 128) % 4096 < 4064 := by
  have halign : alignment s.mem h = 4096 := hH.image.alignment.trans hal
  have hfits : RegionFits s h (newRegionSize 4096 n) := regionFits_small (by omega) hroom
  have hnew := newRegionSize_room (n := n) (by omega)
  rw [newRegionSize_small (by omega)] at hres hfits hnew
  cases hfind : roomFor s h n with
  | some i =>
      obtain ⟨p, s', hrun, hp⟩ : ∃ p s', alloc 2 s h n = some (p, s') ∧ p ≠ 0 :=
        hH.alloc_found hfind
      refine iff_of_true ⟨p, s', hrun, hp⟩ (.inl ?_)
      rcases hH.room hfind with ⟨us, R, vs, husers, rfl, _, hfit⟩
      have hhi : ((us.length + 1 : Nat) : Int) < nRegions s.mem h := by
        rw [hH.image.nRegions, Heap.count, husers, List.length_append, List.length_cons]
        omega
      exact ⟨us.length + 1, Nat.le_add_left _ _, hhi,
        (hH.image.fits_iff_size hH.placed (Nat.le_add_left _ _) hhi (by omega)).1 hfit⟩
  | none =>
      have hmiss : ¬ ∃ i : Nat, 1 ≤ i ∧ i < nRegions s.mem h ∧
          (n : Int) + 32 < chunkSize s.mem (tailPtr s.mem h i) := by
        rintro ⟨i, hlo, hhi, hsize⟩
        have hfit := (hH.image.fits_iff_size hH.placed hlo hhi (by omega)).2 hsize
        rw [findRoom_complete hfind i hlo (by omega)] at hfit
        cases hfit
      rcases Option.isSome_iff_exists.1 hres with ⟨⟨a, s1⟩, hres⟩
      rcases createRegion_reserved hH (by omega) hfits hres with ⟨m2, hcreate, hH2, _⟩
      generalize { s1 with mem := m2 } = s2 at hcreate hH2
      have hfind2 := hH.findRoom_created hH2 (by omega) hfind
      have hunfold : alloc 2 s h n = alloc 1 s2 h n := by
        rw [alloc_without_room hfind halign (by decide), newRegionSize_small (by omega), hcreate,
          Option.bind_some]
      rw [or_iff_right hmiss, ← hnew, ReturnsBlock, hunfold]
      by_cases hfree : n + 160 < 4096 * ((n + 128) / 4096 + 1)
      · rw [if_pos hfree] at hfind2
        exact iff_of_true (hH2.alloc_found hfind2) (by omega)
      · rw [if_neg hfree] at hfind2
        refine iff_of_false ?_ (by omega)
        rintro ⟨p, s', hrun, _⟩
        -- A second region would have to be created.
        rw [alloc_last_without_room hfind2 (hH2.image.alignment.trans hal) (by decide)] at hrun
        cases hrun

theorem kernelRoom_new_heap {k a : Nat} {al : Int}
    (hH : HeapReady s h ⟨k, 4096, al, [Region.fresh a 4096]⟩) : kernelRoom s.mem h = 3872 := by
  rw [hH.image.kernelRoom_eq]
  simp [Heap.count]

/-- Eight bytes from a new heap. -/
theorem alloc_returns_new_heap : ∃ s, Created 4096 4096 4176 s ∧
    (ReturnsBlock s 4176 8 ↔
      (∃ i : Nat, 1 ≤ i ∧ i < nRegions s.mem 4176 ∧
        ((8 : Nat) : Int) + 32 < chunkSize s.mem (tailPtr s.mem 4176 i)) ∨ (8 + 128) % 4096 < 4064) := by
  rcases exists_created with ⟨s, hcreated, hready, hres, _⟩
  exact ⟨s, hcreated, alloc_returns_iff hready rfl (by decide) hres
    (by rw [kernelRoom_new_heap hready]; decide)⟩

/-- A new heap of one page has no room for 3936 bytes, nor has a region created for them. -/
theorem alloc_loops_new_heap : ∃ s, Created 4096 4096 4176 s ∧ (reserve s 1 MEM_U).isSome = true ∧
    8 ≤ kernelRoom s.mem 4176 ∧ ¬ ReturnsBlock s 4176 3936 := by
  rcases exists_created with ⟨s, hcreated, hready, hres, _⟩
  have hroom : 8 ≤ kernelRoom s.mem 4176 := by
    rw [kernelRoom_new_heap hready]
    decide
  have hH := hready.image
  have hcnt : nRegions s.mem 4176 = 2 := hH.nRegions
  have hptr : regionPtr s.mem 4176 1 = (Region.fresh 16777216 4096).record :=
    hH.regionPtr_eq (k := 0) rfl
  rcases tailPtr_eq (hH.users _ List.mem_cons_self) (show _ = [] ++ [_] from rfl) hptr with
    ⟨htail, hhead⟩
  have hfull : ¬ fits s.mem 4176 1 3936 = true := by
    rw [hH.fits_iff_size hready.placed (Nat.le_refl 1) (by rw [hcnt]; decide) (by decide), htail,
      hhead.size]
    decide
  have hfind : roomFor s 4176 3936 = none := by
    rw [roomFor, hcnt]
    exact if_neg hfull
  rcases Option.isSome_iff_exists.1 hres with ⟨⟨a, s1⟩, hres1⟩
  have hsize : newRegionSize 4096 3936 = (4096 : Nat) := newRegionSize_small (n := 3936) (by decide)
  have hfits : RegionFits s 4176 (newRegionSize 4096 3936) := regionFits_small (by decide) hroom
  rw [hsize] at hfits
  rcases createRegion_reserved hready (by decide) hfits hres1 with ⟨m2, hcreate, hH2, _⟩
  generalize { s1 with mem := m2 } = s2 at hcreate hH2
  have hfind2 := hready.findRoom_created hH2 (n := 3936) (by decide) hfind
  rw [if_neg (by decide)] at hfind2
  refine ⟨s, hcreated, hres, hroom, ?_⟩
  rintro ⟨p, s', hrun, _⟩
  have hal2 : alignment s2.mem 4176 = 4096 := hH2.image.alignment
  rw [alloc_without_room hfind hH.alignment (by decide), hsize, hcreate, Option.bind_some,
    alloc_last_without_room hfind2 hal2 (by decide)] at hrun
  cases hrun

end Memory
end EmbeddedOS
