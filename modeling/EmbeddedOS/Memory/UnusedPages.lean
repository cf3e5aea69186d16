import EmbeddedOS.Memory.AllocGrowth

/-!
# Pages that are not in use

The heap lies on pages that are marked as used, so two machines that differ on other pages only
hold the same heap. Calls through the heap pointer then go the same way on both, as what each call
does is determined by the heap. In particular no call depends on what a relinquished page holds.
-/

namespace EmbeddedOS
namespace Memory

open Base Base.ByteMem Stdlib

variable {m m' : ByteMem} {h i n p fuel size a : Nat} {H H' H2 : Heap} {us vs : List Region}
  {R R' : Region} {s s1 s2 t : Machine} {live : List (Nat × Nat)} {b : Nat × Nat}

/-! ## The memory says which heap it holds -/

theorem Flag.code_inj {f g : Flag} (h : f.code = g.code) : f = g := by
  cases f <;> cases g <;> first | rfl | cases h

theorem HeaderAt.unique {c d : Chunk} (hc : HeaderAt m c) (hd : HeaderAt m d)
    (hhdr : c.hdr = d.hdr) : c = d := by
  rcases c with ⟨x, size, flag⟩
  rcases d with ⟨y, size', flag'⟩
  obtain rfl : x = y := hhdr
  obtain rfl : size = size' := by
    exact_mod_cast hc.size.symm.trans hd.size
  obtain rfl : flag = flag' := Flag.code_inj (hc.flag.symm.trans hd.flag)
  rfl

theorem RegionAt.unique (hR : RegionAt m R) (hR' : RegionAt m R') (hrec : R.record = R'.record) :
    R = R' := by
  have hbase : R.base = R'.base := Nat.add_right_cancel hrec
  have hsize : R.size = R'.size := by
    have hboth := hR.allocSize.symm.trans (hrec ▸ hR'.allocSize)
    exact_mod_cast hboth
  have hcount : R.count = R'.count := by
    have hboth := hR.nChunks.symm.trans (hrec ▸ hR'.nChunks)
    exact_mod_cast hboth
  have harr : R.arr = R'.arr := by rw [Region.arr, Region.arr, hbase, hsize, hcount]
  have hlen : R.blocks.length = R'.blocks.length := Nat.add_right_cancel hcount
  have hblocks : R.blocks = R'.blocks := by
    refine List.ext_getElem hlen fun j hj hj' => ?_
    have hc : R.entries[j + 2]? = some R.blocks[j] := List.getElem?_eq_getElem hj
    have hc' : R'.entries[j + 2]? = some R'.blocks[j] := List.getElem?_eq_getElem hj'
    refine (hR.header hc).unique (hR'.header hc') ?_
    rw [← hR.entry hc, ← hR'.entry hc', harr]
  cases R
  cases R'
  simp only at hbase hsize hblocks
  rw [hbase, hsize, hblocks]

theorem HeapAt.unique (hH : HeapAt m h H) (hH' : HeapAt m h H') : H = H' := by
  have hbase : H.base = H'.base := Nat.add_right_cancel (hH.ptr.symm.trans hH'.ptr)
  have hal : H.alignment = H'.alignment := hH.alignment.symm.trans hH'.alignment
  have hcount : H.count = H'.count := by
    exact_mod_cast hH.nRegions.symm.trans hH'.nRegions
  have hrecord : H.kernel.record = H'.kernel.record := congrArg (· + 24) hbase
  have hsize : H.size = H'.size :=
    congrArg Region.size (hH.kernel.unique hH'.kernel hrecord)
  have hlen : H.users.length = H'.users.length := Nat.add_right_cancel hcount
  have husers : H.users = H'.users := by
    refine List.ext_getElem hlen fun j hj hj' => ?_
    have hQ := List.getElem?_eq_getElem hj
    have hQ' := List.getElem?_eq_getElem hj'
    exact (hH.users _ (List.getElem_mem hj)).unique (hH'.users _ (List.getElem_mem hj'))
      ((hH.regionPtr_eq hQ).symm.trans (hH'.regionPtr_eq hQ'))
  cases H
  cases H'
  simp only at hbase hsize hal husers
  rw [hbase, hsize, hal, husers]

/-! ## Machines that differ on pages that are not in use -/

/-- Address `x` lies on a page that is marked as used. -/
def OnUsedPage (s : Machine) (x : Nat) : Prop :=
  s.memOffset ≤ x ∧ used s.memoryMap ((x - s.memOffset) / 4096) = true

/-- The memory `m` is that of `s` on the pages in use. -/
def SameInUse (s : Machine) (m : ByteMem) : Prop :=
  ∀ x, OnUsedPage s x → m x = s.mem x

/-- The heap lies on pages in use. -/
theorem HeapReady.sameInUse (hH : HeapReady s h H) (hm : SameInUse s m) :
    HeapReady { s with mem := m } h H := by
  refine ⟨hH.pages.withMem m, hH.image.frame hH.placed fun x hx => ?_, hH.placed,
    fun x hx => (hH.owned x hx).withMem m⟩
  intro y hlo hhi
  exact hm y (hH.owned x hx y hlo hhi)

/-- Two machines with the same page map that hold the same heap, with the same live blocks. -/
structure Twins (h : Nat) (live : List (Nat × Nat)) (H : Heap) (s s2 : Machine) : Prop where
  inv : HeapInv h live s H
  inv2 : HeapInv h live s2 H
  pages : ∃ m, s2 = { s with mem := m }

theorem HeapInv.twins (hinv : HeapInv h live s H) (hm : SameInUse s m) :
    Twins h live H s { s with mem := m } :=
  ⟨hinv, ⟨hinv.ready.sameInUse hm, hinv.fenced, hinv.inUse, hinv.nodup⟩, m, rfl⟩

/-- What is said about the heap alone passes from one machine to the other. -/
theorem HeapInv.both (hinv : HeapInv h live s H) (hH : HeapReady s h H')
    (hH2 : HeapReady s2 h H') : HeapInv h live s H' ∧ HeapInv h live s2 H' := by
  have hsame := hinv.ready.image.unique hH.image
  subst hsame
  exact ⟨hinv, hH2, hinv.fenced, hinv.inUse, hinv.nodup⟩

/-! ## One call on both machines -/

/-- The search for room finds the same region. -/
theorem HeapReady.findRoom_eq (hH : HeapReady s h H) (hH2 : HeapReady s2 h H)
    (hn : n + 32 < 2147483648) : roomFor s2 h n = roomFor s h n := by
  have hfits : ∀ {i : Nat}, 1 ≤ i → i < nRegions s.mem h →
      fits s2.mem h i n = fits s.mem h i n := by
    intro i hlo hhi
    rcases hH.image.user_index hlo hhi with ⟨us, R, vs, husers, rfl, hptr⟩
    have hR : R ∈ H.users := by simp [husers]
    have hget : H.users[us.length]? = some R := by simp [husers]
    rcases (hH.placed.sound R hR).tail with ⟨pre, t, hb, hfree⟩
    refine Bool.eq_iff_iff.2 ?_
    rw [fits_iff (hH.image.users R hR) hb hfree hptr hn,
      fits_iff (hH2.image.users R hR) hb hfree (hH2.image.regionPtr_eq hget) hn]
  have hsearch : ∀ (left i : Nat), 1 ≤ i → (i : Int) + left ≤ nRegions s.mem h →
      findRoom s2.mem h n left i = findRoom s.mem h n left i := by
    intro left
    induction left with
    | zero => exact fun _ _ _ => rfl
    | succ left ih =>
        intro i hlo hhi
        rw [findRoom, findRoom, hfits hlo (by omega), ih (i + 1) (by omega) (by omega)]
  have hcnt : nRegions s2.mem h = nRegions s.mem h := hH2.image.nRegions.trans hH.image.nRegions.symm
  have hpos : (1 : Int) ≤ nRegions s.mem h := by
    rw [hH.image.nRegions, Heap.count]
    omega
  rw [roomFor, roomFor, hcnt]
  exact hsearch _ 1 (Nat.le_refl 1) (by omega)

/-- The tail of a region is clear of its chunk array on both machines. -/
theorem HeapReady.tailClear_of (hH : HeapReady s h H) (hH2 : HeapReady s2 h H) (hlo : 1 ≤ i)
    (hhi : i < nRegions s.mem h) (hclear : TailClear s.mem h i n) : TailClear s2.mem h i n := by
  rcases hH.image.user_index hlo hhi with ⟨us, R, vs, husers, rfl, hptr⟩
  have hR : R ∈ H.users := by simp [husers]
  have hptr2 := hH2.image.regionPtr_eq (k := us.length) (R := R) (by simp [husers])
  have hm := hH.image.users R hR
  have hm2 := hH2.image.users R hR
  rcases (hH.placed.sound R hR).tail with ⟨pre, t, hb, _⟩
  rcases tailPtr_eq hm hb hptr with ⟨htail, hhead⟩
  rcases tailPtr_eq hm2 hb hptr2 with ⟨htail2, hhead2⟩
  rw [TailClear, htail, hhead.addr, hptr, hm.chunks] at hclear
  rw [TailClear, htail2, hhead2.addr, hptr2, hm2.chunks]
  exact hclear

/-- A block is carved off at the same place. -/
theorem HeapReady.carved_both (hH : HeapReady s h H) (hH2 : HeapReady s2 h H)
    (hn : n + 32 < 2147483648) (hfind : roomFor s h n = some i) (hclear : TailClear s.mem h i n) :
    (carve s2.mem h i n).1 = (carve s.mem h i n).1 ∧
      ∃ us, HeapReady { s with mem := (carve s.mem h i n).2 } h (H.withUsers us) ∧
        HeapReady { s2 with mem := (carve s2.mem h i n).2 } h (H.withUsers us) := by
  have hfind2 := (hH.findRoom_eq hH2 hn).trans hfind
  rcases findRoom_sound hfind with ⟨hlo, hhi, _⟩
  have hclear2 := hH.tailClear_of hH2 hlo (by omega) hclear
  rcases hH.carved hn hfind hclear with ⟨us, R, vs, pre, t, husers, hi, hr, haddr, _, hready⟩
  rcases hH2.carved hn hfind2 hclear2 with
    ⟨us2, R2, vs2, pre2, t2, husers2, hi2, hr2, haddr2, _, hready2⟩
  obtain ⟨rfl, hcons⟩ : us2 = us ∧ R2 :: vs2 = R :: vs :=
    List.append_inj (husers2.symm.trans husers) (by omega)
  obtain ⟨rfl, rfl⟩ : R2 = R ∧ vs2 = vs := by simpa using hcons
  obtain ⟨rfl, rfl⟩ : pre2 = pre ∧ t2 = t := by
    rcases List.append_inj' (hr2.blocks.symm.trans hr.blocks) rfl with ⟨h1, h2⟩
    exact ⟨h1, by simpa using h2⟩
  exact ⟨haddr2.trans haddr.symm, _, hready, hready2⟩

/-- A region is created on the same pages. -/
theorem HeapReady.created_both (hH : HeapReady s h H) (hH2 : HeapReady { s with mem := m } h H)
    (hlo : 128 ≤ size) (hfits : RegionFits s h size) (hrun : createRegion s h size = some s1) :
    ∃ a m1, createRegion { s with mem := m } h size = some { s1 with mem := m1 } ∧
      HeapReady s1 h (H.withUsers (H.users ++ [Region.fresh a size])) ∧
      HeapReady { s1 with mem := m1 } h (H.withUsers (H.users ++ [Region.fresh a size])) := by
  have hroom : kernelRoom m h = kernelRoom s.mem h :=
    hH2.image.kernelRoom_eq.trans hH.image.kernelRoom_eq.symm
  have hfits2 : RegionFits { s with mem := m } h size :=
    ⟨hfits.small, hfits.pages, hroom ▸ hfits.room⟩
  cases hres : reserve s (u32 ((size : Int).tdiv ALIGN)) MEM_U with
  | none =>
      unfold createRegion at hrun
      rw [hres] at hrun
      cases hrun
  | some q =>
      rcases q with ⟨a, u⟩
      rcases reserve_withMem hres m with ⟨m', hres2⟩
      rcases createRegion_reserved hH hlo hfits hres with ⟨m1, hcreate, hready, _⟩
      rcases createRegion_reserved hH2 hlo hfits2 hres2 with ⟨m2, hcreate2, hready2, _⟩
      rw [hrun, Option.some.injEq] at hcreate
      subst hcreate
      exact ⟨a, m2, hcreate2, hready, hready2⟩

/-- `alloc` returns the same block if a region has room. -/
theorem HeapReady.alloc_found_both (hH : HeapReady s h H) (hH2 : HeapReady { s with mem := m } h H)
    (hn : n + 32 < 2147483648) (hfind : roomFor s h n = some i) (hclear : TailClear s.mem h i n)
    (hrun : Memory.alloc fuel s h n = some (p, t)) :
    ∃ m', Memory.alloc fuel { s with mem := m } h n = some (p, { t with mem := m' }) ∧
      ∃ us, HeapReady t h (H.withUsers us) ∧ HeapReady { t with mem := m' } h (H.withUsers us) := by
  cases fuel with
  | zero => cases hrun
  | succ fuel =>
      rcases hH.carved_both hH2 hn hfind hclear with ⟨hsame, us, hready, hready2⟩
      have hfind2 := (hH.findRoom_eq hH2 hn).trans hfind
      rw [roomFor] at hfind hfind2
      rw [Memory.alloc, hfind, Option.some.injEq, Prod.mk.injEq] at hrun
      rcases hrun with ⟨rfl, rfl⟩
      refine ⟨_, ?_, us, hready, hready2⟩
      rw [Memory.alloc, hfind2]
      exact congrArg (fun q => some (q, _)) hsame

/-- `alloc` returns the same block. -/
theorem HeapInv.alloc_both (hinv : HeapInv h live s H) (hinv2 : HeapInv h live { s with mem := m } H)
    (hn : n + 32 < 2147483648) (hfits : AllocFits s h n)
    (hclear : ∀ i, roomFor s h n = some i → TailClear s.mem h i n)
    (hrun : Memory.alloc fuel s h n = some (p, t)) :
    ∃ m', Memory.alloc fuel { s with mem := m } h n = some (p, { t with mem := m' }) ∧
      ∃ us, HeapReady t h (H.withUsers us) ∧ HeapReady { t with mem := m' } h (H.withUsers us) := by
  have hH := hinv.ready
  have hH2 := hinv2.ready
  have hfind2 := hH.findRoom_eq hH2 hn
  cases fuel with
  | zero => cases hrun
  | succ fuel =>
      cases hfind : roomFor s h n with
      | some i =>
          exact hH.alloc_found_both hH2 hn hfind (hclear i hfind) hrun
      | none =>
          rcases hfits hfind with ⟨hregion, hroom⟩
          rw [hfind] at hfind2
          have hne : H.alignment ≠ 0 := by
            intro hzero
            have hal : Memory.alignment s.mem h = 0 := hH.image.alignment.trans hzero
            rw [roomFor] at hfind
            rw [Memory.alloc, hfind, hal] at hrun
            cases hrun
          rw [hH.image.alignment] at hregion hroom
          rw [alloc_without_room hfind hH.image.alignment hne, Option.bind_eq_some_iff] at hrun
          rcases hrun with ⟨s1, hcreate, hrun⟩
          rw [alloc_without_room hfind2 hH2.image.alignment hne]
          generalize newRegionSize H.alignment n = size at hregion hroom hcreate ⊢
          rcases Int.eq_ofNat_of_zero_le (show 0 ≤ size by omega) with ⟨size, rfl⟩
          rcases hH.created_both hH2 (by omega) hregion hcreate with
            ⟨a, m1, hcreate2, hready1, hready2⟩
          rw [hcreate2, Option.bind_some]
          have hfind1 := hH.findRoom_created hready1 hn hfind
          rw [if_pos (by omega)] at hfind1
          have hsome : roomFor s1 h n = some (H.users.length + 1) := hfind1
          exact hready1.alloc_found_both hready2 hn hsome (hready1.tailClear_fresh (by omega) hn hsome) hrun

/-- `cull` leaves the same heap. -/
theorem HeapInv.culled_both (hinv : HeapInv h live s H) (hinv2 : HeapInv h live s2 H) (hb : b ∈ live) :
    ∃ us, HeapInv h (live.erase b) { s with mem := cull s.mem h b.1 } (H.withUsers us) ∧
      HeapInv h (live.erase b) { s2 with mem := cull s2.mem h b.1 } (H.withUsers us) := by
  rcases hinv.culled hb with ⟨_, hinv', _⟩
  rcases hinv.pick hb with ⟨us, R, vs, pre, c, rs, husers, hblocks, hflag, rfl⟩
  have hp : Picked H us R vs := ⟨husers, hinv.ready.placed⟩
  rcases hinv.ready.culled husers hblocks hflag with ⟨l, hrel, _, hready⟩
  rcases hinv2.ready.culled husers hblocks hflag with ⟨l2, hrel2, _, hready2⟩
  have hsame := hrel2.unique hrel hp.sound.toPlaced hblocks
  subst hsame
  generalize cull s.mem h c.addr = m at hinv' hready ⊢
  generalize cull s2.mem h c.addr = m2 at hready2 ⊢
  exact ⟨_, hinv'.both hready hready2⟩

/-- Whether a request fits is said by the heap. -/
theorem HeapReady.allocFits_of (hH : HeapReady s h H) (hH2 : HeapReady s2 h H)
    (hn : n + 32 < 2147483648) (hfits : AllocFits s h n) : AllocFits s2 h n := by
  intro hfind2
  have hfind : roomFor s h n = none := (hH.findRoom_eq hH2 hn).symm.trans hfind2
  rcases hfits hfind with ⟨hregion, hroom⟩
  have hal : alignment s2.mem h = alignment s.mem h :=
    hH2.image.alignment.trans hH.image.alignment.symm
  have hkernel : kernelRoom s2.mem h = kernelRoom s.mem h :=
    hH2.image.kernelRoom_eq.trans hH.image.kernelRoom_eq.symm
  rw [hal]
  exact ⟨⟨hregion.small, hregion.pages, hkernel ▸ hregion.room⟩, hroom⟩

theorem HeapReady.tailsClear_of (hH : HeapReady s h H) (hH2 : HeapReady s2 h H)
    (hn : n + 32 < 2147483648) (hclear : ∀ i, roomFor s h n = some i → TailClear s.mem h i n) :
    ∀ i, roomFor s2 h n = some i → TailClear s2.mem h i n := by
  intro i hfind2
  have hfind : roomFor s h n = some i := (hH.findRoom_eq hH2 hn).symm.trans hfind2
  rcases findRoom_sound hfind with ⟨hlo, hhi, _⟩
  exact hH.tailClear_of hH2 hlo (by omega) (hclear i hfind)

/-- `change` returns the same block, and leaves the same heap. -/
theorem HeapInv.change_both (hinv : HeapInv h live s H)
    (hinv2 : HeapInv h live { s with mem := m } H) (hb : b ∈ live) (hn : n + 32 < 2147483648)
    (hfits : AllocFits s h n) (hclear : ∀ i, roomFor s h n = some i → TailClear s.mem h i n)
    (hrun : Memory.change fuel s h b.1 n = some (p, t)) :
    ∃ m', Memory.change fuel { s with mem := m } h b.1 n = some (p, { t with mem := m' }) ∧
      ∃ us, Twins h ((p, n) :: live.erase b) (H.withUsers us) t { t with mem := m' } := by
  rcases hinv.change_cases hb hn hfits hclear hrun with ⟨s1, halloc, ht⟩
  rcases hinv.alloc_both hinv2 hn hfits hclear halloc with ⟨m1, halloc2, us, hready, hready2⟩
  rcases hinv.alloc hn hfits hclear halloc with ⟨_, hinv1, _⟩
  rcases hinv1.both hready hready2 with ⟨hinv1, hinv12⟩
  have hcopy : ∀ m, WritesOnly m (memcpy m p b.1 (min b.2 n)) p (p + n) := fun m =>
    (writesOnly_memcpy m p b.1 _).mono (Nat.le_refl _) (by omega)
  have hwritten := (hinv1.written List.mem_cons_self (hcopy s1.mem)).1
  have hwritten2 := (hinv12.written List.mem_cons_self (hcopy m1)).1
  have hne : (p, n) ≠ b := by
    rintro rfl
    exact (List.nodup_cons.1 hinv1.nodup).1 hb
  rcases hwritten.culled_both hwritten2 (List.mem_cons_of_mem _ hb) with ⟨vs, hculled, hculled2⟩
  rw [List.erase_cons_tail (by simpa using hne)] at hculled hculled2
  have hchange2 := hinv2.change_eq hb hn (hinv.ready.allocFits_of hinv2.ready hn hfits)
    (hinv.ready.tailsClear_of hinv2.ready hn hclear) halloc2
  generalize cull (memcpy s1.mem p b.1 (min b.2 n)) h b.1 = m3 at ht hculled
  generalize cull (memcpy m1 p b.1 (min b.2 n)) h b.1 = m4 at hchange2 hculled2
  subst ht
  exact ⟨m4, hchange2, vs, hculled, hculled2, m4, rfl⟩

/-! ## Runs -/

/-- The calls that keep a heap intact: a region that has to be created finds a slot in the kernel
region and has room for the request, and no block is carved across a chunk array. -/
def CallSafe (s : Machine) (h : Nat) : HeapCall → Prop
  | .alloc n => AllocFits s h n ∧ ∀ i, roomFor s h n = some i → TailClear s.mem h i n
  | .change _ n => AllocFits s h n ∧ ∀ i, roomFor s h n = some i → TailClear s.mem h i n
  | .cull _ => True
  | .write _ => True

def SafeStep (h : Nat) (s : HeapState) (c : HeapCall) (t : HeapState) : Prop :=
  CallSafe s.machine h c ∧ HeapStep h s c t

section Runs

variable {u v : HeapState} {c : HeapCall} {cs : List HeapCall}

/-- A step on one machine is one on the other, with the same blocks. -/
theorem Twins.step (htw : Twins h u.live H u.machine s2) (hstep : SafeStep h u c v) :
    ∃ us t2, HeapStep h ⟨s2, u.live⟩ c ⟨t2, v.live⟩ ∧
      Twins h v.live (H.withUsers us) v.machine t2 := by
  rcases htw with ⟨hinv, hinv2, m, rfl⟩
  rcases hstep with ⟨hsafe, hstep⟩
  cases hstep with
  | alloc hn hrun =>
      rcases hinv.alloc_both hinv2 hn hsafe.1 hsafe.2 hrun with ⟨m', hrun2, us, hready, hready2⟩
      rcases hinv.alloc hn hsafe.1 hsafe.2 hrun with ⟨_, hinv1, _⟩
      rcases hinv1.both hready hready2 with ⟨hinv1, hinv12⟩
      exact ⟨us, _, .alloc hn hrun2, hinv1, hinv12, m', rfl⟩
  | change hb hn hrun hp =>
      rcases hinv.change_both hinv2 hb hn hsafe.1 hsafe.2 hrun with ⟨m', hrun2, us, htw'⟩
      exact ⟨us, _, .change hb hn hrun2 hp, htw'⟩
  | changeFails hb hn hrun =>
      rcases hinv.change hb hn hsafe.1 hsafe.2 hrun with ⟨_, _, hmoved, _⟩
      exact absurd rfl hmoved.pos
  | @cull s live b hb =>
      rcases hinv.culled_both hinv2 hb with ⟨us, hinv', hinv2'⟩
      have hstep2 := HeapStep.cull (s := { s with mem := m }) (h := h) hb
      generalize Memory.cull s.mem h b.1 = m1 at hinv' ⊢
      generalize Memory.cull m h b.1 = m2 at hinv2' hstep2
      exact ⟨us, _, hstep2, hinv', hinv2', m2, rfl⟩
  | @write s live b m1 hb hw =>
      -- The same bytes are written.
      let m2 : ByteMem := fun x => if b.1 ≤ x ∧ x < b.1 + b.2 then m1 x else m x
      have hw2 : WritesOnly m m2 b.1 (b.1 + b.2) := by
        intro x hx
        exact if_neg (by omega)
      exact ⟨H.users, { s with mem := m2 }, .write hb hw2, (hinv.written hb hw).1,
        (hinv2.written hb hw2).1, m2, rfl⟩

theorem Twins.run (hrun : Run (SafeStep h) u cs v) :
    ∀ {H : Heap} {s2 : Machine}, Twins h u.live H u.machine s2 →
      ∃ us t2, Run (HeapStep h) ⟨s2, u.live⟩ cs ⟨t2, v.live⟩ ∧
        Twins h v.live (H.withUsers us) v.machine t2 := by
  induction hrun with
  | nil u => exact fun htw => ⟨_, _, .nil _, htw⟩
  | cons hstep _ ih =>
      intro H s2 htw
      rcases htw.step hstep with ⟨us, s3, hstep2, htw3⟩
      rcases ih htw3 with ⟨vs, t2, hrun2, htw2⟩
      exact ⟨vs, t2, .cons hstep2 hrun2, htw2⟩

/-- A run of safe calls changes the user regions only. -/
theorem HeapInv.safeRun (hinv : HeapInv h u.live u.machine H) (hrun : Run (SafeStep h) u cs v) :
    ∃ us, HeapInv h v.live v.machine (H.withUsers us) := by
  have htw : Twins h u.live H u.machine u.machine := ⟨hinv, hinv, u.machine.mem, rfl⟩
  rcases htw.run hrun with ⟨us, t2, _, htw'⟩
  exact ⟨us, htw'.inv⟩

end Runs

end Memory
end EmbeddedOS
