import EmbeddedOS.Memory.HeapInvariant

/-!
# The calls of the heap

`alloc`, `cull` and `change` keep the invariant under their conditions. What `alloc` leaves in
place is said by `Extends`: regions stay where they are, and blocks in use keep their index.
-/

namespace EmbeddedOS
namespace Memory

open Base Base.ByteMem Stdlib

variable {m m' : ByteMem} {h i n p fuel : Nat} {H H' H'' : Heap} {us vs : List Region}
  {R R' R'' : Region} {s s' : Machine} {live : List (Nat × Nat)} {b : Nat × Nat}

/-! ## What stays in place -/

/-- `R'` has the blocks in use of `R`, under the same indices, and no new free chunk among
them. -/
structure Region.Extends (R R' : Region) : Prop where
  base : R'.base = R.base
  size : R'.size = R.size
  blocks : ∀ (j : Nat) (c : Chunk), R.blocks[j]? = some c → c.flag = .reserved →
    R'.blocks[j]? = some c
  free : ∀ (j : Nat) (c : Chunk), R'.blocks[j]? = some c → c.flag ≠ .reserved →
    R.blocks[j]? = some c ∨ R.blocks.length ≤ j
  length : R.blocks.length ≤ R'.blocks.length

/-- `H'` has the regions of `H`, under the same indices, with their blocks in use. -/
structure Heap.Extends (H H' : Heap) : Prop where
  base : H'.base = H.base
  size : H'.size = H.size
  alignment : H'.alignment = H.alignment
  users : ∀ (i : Nat) (R : Region), H.users[i]? = some R →
    ∃ R', H'.users[i]? = some R' ∧ R.Extends R'

theorem Region.Extends.refl (R : Region) : R.Extends R :=
  ⟨rfl, rfl, fun _ _ hc _ => hc, fun _ _ hc _ => .inl hc, Nat.le_refl _⟩

theorem Region.Extends.trans (h : R.Extends R') (h' : R'.Extends R'') : R.Extends R'' := by
  refine ⟨h'.base.trans h.base, h'.size.trans h.size, ?_, ?_, h.length.trans h'.length⟩
  · intro j c hc hflag
    exact h'.blocks j c (h.blocks j c hc hflag) hflag
  · intro j c hc hflag
    rcases h'.free j c hc hflag with hc' | hge
    · exact h.free j c hc' hflag
    · exact .inr (h.length.trans hge)

theorem Heap.Extends.trans (h : H.Extends H') (h' : H'.Extends H'') : H.Extends H'' := by
  refine ⟨h'.base.trans h.base, h'.size.trans h.size, h'.alignment.trans h.alignment, ?_⟩
  intro i R hR
  rcases h.users i R hR with ⟨R', hR', hext⟩
  rcases h'.users i R' hR' with ⟨R'', hR'', hext'⟩
  exact ⟨R'', hR'', hext.trans hext'⟩

theorem Heap.Extends.replace (husers : H.users = us ++ R :: vs) (hext : R.Extends R') :
    H.Extends (H.withUsers (us ++ R' :: vs)) := by
  refine ⟨rfl, rfl, rfl, ?_⟩
  intro i Q hQ
  rw [husers] at hQ
  change ∃ Q', (us ++ R' :: vs)[i]? = some Q' ∧ Q.Extends Q'
  rcases Nat.lt_trichotomy i us.length with hlt | rfl | hgt
  · rw [List.getElem?_append_left hlt] at hQ ⊢
    exact ⟨Q, hQ, .refl Q⟩
  · rw [List.getElem?_append_right (Nat.le_refl _), Nat.sub_self] at hQ ⊢
    cases hQ
    exact ⟨R', rfl, hext⟩
  · rw [List.getElem?_append_right (Nat.le_of_lt hgt)] at hQ ⊢
    rcases Nat.exists_eq_add_of_lt hgt with ⟨d, rfl⟩
    have hidx : us.length + d + 1 - us.length = d + 1 := by omega
    rw [hidx] at hQ ⊢
    exact ⟨Q, hQ, .refl Q⟩

theorem Heap.Extends.append (H : Heap) (R : Region) :
    H.Extends (H.withUsers (H.users ++ [R])) := by
  refine ⟨rfl, rfl, rfl, ?_⟩
  intro i Q hQ
  exact ⟨Q, by
    rw [← hQ]
    exact List.getElem?_append_left (List.getElem?_eq_some_iff.1 hQ).1, .refl Q⟩

/-! ## `alloc` -/

/-- What `alloc` does to a heap where the search for room gives `room`: in the region that was
found the tail becomes the block, and if there was none a region is listed at the end. -/
structure Allocated (room : Option Nat) (H H' : Heap) : Prop where
  ext : H.Extends H'
  full : ∀ (k : Nat) (R R' : Region) (c : Chunk), room = some (k + 1) → H.users[k]? = some R →
    H'.users[k]? = some R' → R'.blocks[R.blocks.length - 1]? = some c → c.flag = .reserved
  same : room ≠ none → H'.extents = H.extents
  grew : room = none → ∃ a size, H'.extents = H.extents ++ [(a, size)]
  tiled : H.Tiled → H'.Tiled

/-- The element at an index splits a list. -/
theorem exists_split {α : Type} {l : List α} {k : Nat} {a : α} (h : l[k]? = some a) :
    ∃ us vs, l = us ++ a :: vs ∧ us.length = k := by
  rcases List.getElem?_eq_some_iff.1 h with ⟨hlt, rfl⟩
  refine ⟨l.take k, l.drop (k + 1), ?_, List.length_take_of_le (Nat.le_of_lt hlt)⟩
  rw [List.getElem_cons_drop, List.take_append_drop]

theorem HasRoom.extends {pre : List Chunk} {t : Chunk} (hr : HasRoom R pre t n) :
    R.Extends (R.withBlocks (carved pre t n)) := by
  refine ⟨rfl, rfl, ?_, ?_, by simp [hr.blocks, carved]⟩
  · intro j c hc hflag
    rw [hr.blocks, List.getElem?_append] at hc
    rw [Region.withBlocks_blocks, carved, List.getElem?_append]
    split at hc
    · rwa [if_pos ‹_›]
    · rw [List.getElem?_singleton] at hc
      split at hc
      · cases hc
        rw [hr.free] at hflag
        exact absurd hflag (by decide)
      · cases hc
  · intro j c hc hflag
    rw [Region.withBlocks_blocks, carved, List.getElem?_append] at hc
    rw [hr.blocks, List.getElem?_append, List.length_append, List.length_singleton]
    split at hc
    · exact .inl (by rwa [if_pos ‹_›])
    · refine .inr ?_
      rcases Nat.eq_or_lt_of_le (Nat.le_of_not_lt ‹_›) with rfl | hlt
      · rw [Nat.sub_self, List.getElem?_cons_zero] at hc
        cases hc
        exact absurd rfl hflag
      · exact hlt

/-- The region that the search for room finds. -/
theorem HeapReady.room (hH : HeapReady s h H)
    (hfind : findRoom s.mem h n (nRegions s.mem h - 1).toNat 1 = some i) :
    ∃ us R vs, H.users = us ++ R :: vs ∧ i = us.length + 1 ∧ regionPtr s.mem h i = R.record ∧
      fits s.mem h i n = true := by
  rcases findRoom_sound hfind with ⟨hlo, hhi, hfit⟩
  have hcount : (nRegions s.mem h - 1).toNat = H.users.length := by
    have hcnt : H.count = H.users.length + 1 := rfl
    rw [hH.image.nRegions]
    omega
  rw [hcount] at hhi
  rcases Nat.exists_eq_add_of_le' hlo with ⟨k, rfl⟩
  have hk : k < H.users.length := by omega
  have hget : H.users[k]? = some H.users[k] := List.getElem?_eq_getElem hk
  rcases exists_split hget with ⟨us, vs, husers, hlen⟩
  exact ⟨us, _, vs, husers, by rw [hlen], hH.image.regionPtr_eq hget, hfit⟩

/-- In a tiled heap no block runs into a chunk array. -/
theorem HeapReady.tailClear (hH : HeapReady s h H) (ht : H.Tiled) (hn : n + 32 < 2147483648)
    (hfind : findRoom s.mem h n (nRegions s.mem h - 1).toNat 1 = some i) :
    TailClear s.mem h i n := by
  rcases hH.room hfind with ⟨us, R, vs, husers, rfl, hptr, hfit⟩
  have hp : Picked H us R vs := ⟨husers, hH.placed⟩
  exact tailClear_of_tiled (hH.image.users R hp.mem) hp.sound (ht R hp.mem) hptr hn hfit

/-- Carving a block off a region that passed the test. -/
theorem HeapReady.carved (hH : HeapReady s h H) (hn : n + 32 < 2147483648)
    (hfind : findRoom s.mem h n (nRegions s.mem h - 1).toNat 1 = some i)
    (hclear : TailClear s.mem h i n) :
    ∃ us R vs pre t, H.users = us ++ R :: vs ∧ i = us.length + 1 ∧ HasRoom R pre t n ∧
      (carve s.mem h i n).1 = t.addr ∧ WritesWithin s.mem (carve s.mem h i n).2 (CarveCell R t n) ∧
      HeapReady { s with mem := (carve s.mem h i n).2 } h
        (H.withUsers (us ++ R.withBlocks (Memory.carved pre t n) :: vs)) := by
  rcases hH.room hfind with ⟨us, R, vs, husers, rfl, hptr, hfit⟩
  have hp : Picked H us R vs := ⟨husers, hH.placed⟩
  have hR := hH.image.users R hp.mem
  rcases hasRoom_of_fits hR hp.sound hptr hn hfit hclear with ⟨pre, t, hr⟩
  rcases carve_spec hR hr (hH.image.outside hp) with ⟨haddr, hR', hw⟩
  exact ⟨us, R, vs, pre, t, husers, rfl, hr, haddr, hw,
    hH.replace husers (hr.writesOnly hw) hR' rfl rfl hr.sound_carved⟩

/-- Carving writes into no block in use. -/
theorem HasRoom.apart {pre : List Chunk} {c t : Chunk} {x : Nat} (hr : HasRoom R pre t n)
    (hf : R.Fenced) (hc : c ∈ R.blocks) (hflag : c.flag = .reserved) (hx : CarveCell R t n x) :
    x < c.addr ∨ c.stop ≤ x := by
  have hb := hr.bounds
  have hcb := hr.sound.inUse_bounds hf hc hflag
  have hne : t ≠ c := by
    rintro rfl
    rw [hr.free] at hflag
    cases hflag
  have hapart := hr.sound.inUse_apart hf hc hflag (by simp [hr.blocks]) hne
  have hcR := hc
  rw [hr.blocks, List.mem_append, List.mem_singleton] at hcR
  have hle := (hr.ordered.bounds (hcR.resolve_right (Ne.symm hne))).2.2
  have hrec : R.record = R.base + 24 := rfl
  have haddr : c.addr = c.hdr + 24 := rfl
  have htaddr : t.addr = t.hdr + 24 := rfl
  unfold CarveCell at hx
  omega

theorem HeapInv.carved (hinv : HeapInv h live s H) (hn : n + 32 < 2147483648)
    (hfind : findRoom s.mem h n (nRegions s.mem h - 1).toNat 1 = some i)
    (hclear : TailClear s.mem h i n) :
    ∃ H', HeapInv h (((carve s.mem h i n).1, n) :: live) { s with mem := (carve s.mem h i n).2 } H' ∧
      SameBlocks s.mem (carve s.mem h i n).2 live ∧ Allocated (some i) H H' := by
  rcases hinv.ready.carved hn hfind hclear with
    ⟨us, R, vs, pre, t, husers, rfl, hr, haddr, hw, hready⟩
  have hs := hr.sound
  have ht : t ∈ R.blocks := by simp [hr.blocks]
  have hRmem : R ∈ H.users := by simp [husers]
  have hf := hinv.fenced R hRmem
  have hspared : SameBlocks s.mem (carve s.mem h (us.length + 1) n).2 live := by
    refine hinv.spares husers hw (fun x hx => ?_) (fun c hc hflag x => hr.apart hf hc hflag)
      (List.Subset.refl _)
    have hb := hr.bounds
    have hrec : R.record = R.base + 24 := rfl
    have htaddr : t.addr = t.hdr + 24 := rfl
    unfold CarveCell at hx
    omega
  refine ⟨_, hinv.replace husers hready (hr.fenced hf) ?_ ?_, hspared, ?_⟩
  · intro b hb
    rcases List.mem_cons.1 hb with rfl | hb
    · refine .inl ⟨t.block n, by simp [Memory.carved], rfl, ?_⟩
      rw [haddr]
      rfl
    · rcases hinv.inUse b hb with ⟨Q, hQ, c, hc, hflag, hcb⟩
      rw [husers] at hQ
      rcases List.mem_append.1 hQ with hQ | hQ
      · exact .inr ⟨Q, .inl hQ, c, hc, hflag, hcb⟩
      · rcases List.mem_cons.1 hQ with rfl | hQ
        · exact .inl ⟨c, hr.keeps hc hflag, hflag, hcb⟩
        · exact .inr ⟨Q, .inr hQ, c, hc, hflag, hcb⟩
  · refine List.nodup_cons.2 ⟨?_, hinv.nodup⟩
    rw [haddr]
    intro hb
    -- The tail is not in use.
    rcases hinv.inUse _ hb with ⟨Q, hQ, c, hc, hflag, hcb⟩
    have hca : c.addr = t.addr := congrArg Prod.fst hcb
    rw [husers] at hQ
    have hother : Q ∈ us ∨ Q ∈ vs → False := fun hQ' =>
      hinv.ready.placed.addr_region husers hQ' ht hc hca.symm
    rcases List.mem_append.1 hQ with hQ | hQ
    · exact hother (.inl hQ)
    · rcases List.mem_cons.1 hQ with rfl | hQ
      · rw [hs.block_unique hc ht hca, hr.free] at hflag
        exact absurd hflag (by decide)
      · exact hother (.inr hQ)
  · refine ⟨.replace husers hr.extends, ?_, fun _ => extents_replace husers rfl rfl, by rintro ⟨⟩,
      fun ht => forall_replace husers ht (hr.tiled (ht R hRmem))⟩
    intro k Q Q' c hk hQ hQ' hc
    cases hk
    have hQR : Q = R := by simpa [husers] using hQ.symm
    have hQR' : Q' = R.withBlocks (Memory.carved pre t n) := by
      simpa [Heap.withUsers] using hQ'.symm
    rw [hQR, hQR', hr.blocks] at hc
    have hblock : t.block n = c := by simpa [Memory.carved] using hc
    rw [← hblock]
    rfl

/-- A created region takes nothing from the others. -/
theorem HeapInv.grown {size : Nat} (hinv : HeapInv h live s H) (hlo : 128 ≤ size)
    (hfits : RegionFits s h size) (hrun : createRegion s h size = some s') :
    ∃ a, HeapInv h live s' (H.withUsers (H.users ++ [Region.fresh a size])) ∧
      SameBlocks s.mem s'.mem live := by
  rcases createRegion_spec hinv.ready hlo hfits hrun with ⟨a, hready, hsame⟩
  refine ⟨a, ⟨hready, ?_, ?_, hinv.nodup⟩, ?_⟩
  · intro R hR
    rcases List.mem_append.1 hR with hR | hR
    · exact hinv.fenced R hR
    · rw [List.mem_singleton.1 hR]
      exact fenced_fresh a size
  · intro b hb
    rcases hinv.inUse b hb with ⟨R, hR, huse⟩
    exact ⟨R, List.mem_append_left _ hR, huse⟩
  · intro b hb
    rcases hinv.inUse b hb with ⟨R, hR, c, hc, hflag, rfl⟩
    have hs := hinv.ready.placed.sound R hR
    have hcb := hs.inUse_bounds (hinv.fenced R hR) hc hflag
    have harr := hs.arr_eq
    refine (hsame R hR).mono ?_ ?_ <;> simp only [Chunk.addr, Chunk.stop] at hcb ⊢ <;> omega

theorem Heap.Tiled.append {a size : Nat} (ht : H.Tiled) (hlo : 128 ≤ size) :
    (H.withUsers (H.users ++ [Region.fresh a size])).Tiled := by
  intro R hR
  rcases List.mem_append.1 hR with hR | hR
  · exact ht R hR
  · rw [List.mem_singleton.1 hR]
    exact Region.tiled_fresh hlo

/-- A call of `alloc` for which a region has room, or the region that is created for it fits and
has room. -/
def AllocFits (s : Machine) (h n : Nat) : Prop :=
  findRoom s.mem h n (nRegions s.mem h - 1).toNat 1 = none →
    RegionFits s h (newRegionSize (alignment s.mem h) n) ∧
      (n : Int) + 160 < newRegionSize (alignment s.mem h) n

/-- After a region was created because no other had room, the search finds it, if it has room. -/
theorem HeapReady.findRoom_created {s1 : Machine} {a size : Nat} (hH : HeapReady s h H)
    (hH1 : HeapReady s1 h (H.withUsers (H.users ++ [Region.fresh a size])))
    (hn : n + 32 < 2147483648)
    (hfind : findRoom s.mem h n (nRegions s.mem h - 1).toNat 1 = none) :
    findRoom s1.mem h n (nRegions s1.mem h - 1).toNat 1 =
      if n + 160 < size then some (H.users.length + 1) else none := by
  have hnew : (H.withUsers (H.users ++ [Region.fresh a size])).users[H.users.length]? =
      some (Region.fresh a size) := by
    simp [Heap.withUsers]
  have hblocks : (Region.fresh a size).blocks =
      [] ++ [⟨a + 56, size - 128, .unallocated⟩] := rfl
  have hfits : fits s1.mem h (H.users.length + 1) n = true ↔ n + 160 < size :=
    (fits_iff (hH1.image.users _ (List.mem_of_getElem? hnew)) hblocks rfl
      (hH1.image.regionPtr_eq hnew) hn).trans (by simp only []; omega)
  have hcnt : (nRegions s.mem h - 1).toNat = H.users.length := by
    rw [hH.image.nRegions, Heap.count]
    omega
  have hcnt1 : (nRegions s1.mem h - 1).toNat = H.users.length + 1 := by
    rw [hH1.image.nRegions, Heap.count, Heap.withUsers, List.length_append, List.length_singleton]
    omega
  have hmiss := findRoom_complete hfind
  cases hfind1 : findRoom s1.mem h n (nRegions s1.mem h - 1).toNat 1 with
  | none =>
      have hmiss1 := findRoom_complete hfind1 (H.users.length + 1) (Nat.le_add_left _ _)
        (by rw [hcnt1]; omega)
      rw [if_neg fun hroom => by rw [hfits.2 hroom] at hmiss1; cases hmiss1]
  | some i =>
      rcases hH1.room hfind1 with ⟨us, R, vs, husers, rfl, hptr1, hfit1⟩
      have hR1 : (H.users ++ [Region.fresh a size])[us.length]? = some R := by
        rw [show H.users ++ [Region.fresh a size] = us ++ R :: vs from husers]
        simp
      rcases Nat.lt_or_ge us.length H.users.length with hlt | hge
      · -- The other regions fail the test, as before.
        rw [List.getElem?_append_left hlt] at hR1
        have hR := List.mem_of_getElem? hR1
        rcases (hH.placed.sound R hR).tail with ⟨pre, t, hb, hfree⟩
        have hroom := (fits_iff (hH1.image.users R (by simp [husers])) hb hfree hptr1 hn).1 hfit1
        have hfit := (fits_iff (hH.image.users R hR) hb hfree (hH.image.regionPtr_eq hR1) hn).2 hroom
        rw [hmiss (us.length + 1) (Nat.le_add_left _ _) (by rw [hcnt]; omega)] at hfit
        cases hfit
      · have hlen := congrArg List.length husers
        simp only [Heap.withUsers, List.length_append, List.length_cons, List.length_nil] at hlen
        have hidx : us.length = H.users.length := by omega
        rw [hidx] at hfit1 ⊢
        rw [if_pos (hfits.1 hfit1)]

/-- A region that was just created is clear of its chunk array if the search finds it. -/
theorem HeapReady.tailClear_fresh {a size : Nat}
    (hH : HeapReady s h (H.withUsers (H.users ++ [Region.fresh a size]))) (hlo : 128 ≤ size)
    (hn : n + 32 < 2147483648)
    (hfind : findRoom s.mem h n (nRegions s.mem h - 1).toNat 1 = some (H.users.length + 1)) :
    TailClear s.mem h (H.users.length + 1) n := by
  have hnew : (H.withUsers (H.users ++ [Region.fresh a size])).users[H.users.length]? =
      some (Region.fresh a size) := by
    simp [Heap.withUsers]
  have hmem := List.mem_of_getElem? hnew
  exact tailClear_of_tiled (hH.image.users _ hmem) (hH.placed.sound _ hmem)
    (Region.tiled_fresh hlo) (hH.image.regionPtr_eq hnew) hn (findRoom_sound hfind).2.2

theorem HeapInv.alloc (hinv : HeapInv h live s H) (hn : n + 32 < 2147483648)
    (hfits : AllocFits s h n)
    (hclear : ∀ i, findRoom s.mem h n (nRegions s.mem h - 1).toNat 1 = some i →
      TailClear s.mem h i n) (hrun : alloc fuel s h n = some (p, s')) :
    ∃ H', HeapInv h ((p, n) :: live) s' H' ∧ SameBlocks s.mem s'.mem live ∧
      Allocated (findRoom s.mem h n (nRegions s.mem h - 1).toNat 1) H H' := by
  cases fuel with
  | zero => cases hrun
  | succ fuel =>
      rw [Memory.alloc] at hrun
      cases hfind : findRoom s.mem h n (nRegions s.mem h - 1).toNat 1 with
      | some i =>
          simp only [hfind, Option.some.injEq, Prod.mk.injEq] at hrun
          rcases hrun with ⟨rfl, rfl⟩
          exact hinv.carved hn hfind (hclear i hfind)
      | none =>
          rcases hfits hfind with ⟨hregion, hroom⟩
          simp only [hfind] at hrun
          generalize newRegionSize (Memory.alignment s.mem h) n = size at hregion hroom hrun
          rcases Int.eq_ofNat_of_zero_le (show 0 ≤ size by omega) with ⟨size, rfl⟩
          split at hrun
          · cases hrun
          rw [Option.bind_eq_bind, Option.bind_eq_some_iff] at hrun
          rcases hrun with ⟨s1, hcreate, hrun⟩
          rcases hinv.grown (by omega) hregion hcreate with ⟨a, hinv1, hsame⟩
          have hfind1 := hinv.ready.findRoom_created hinv1.ready hn hfind
          rw [if_pos (by omega)] at hfind1
          cases fuel with
          | zero => cases hrun
          | succ fuel =>
              rw [Memory.alloc] at hrun
              simp only [hfind1, Option.some.injEq, Prod.mk.injEq] at hrun
              rcases hrun with ⟨rfl, rfl⟩
              have hclear1 := hinv1.ready.tailClear_fresh (by omega) hn hfind1
              rcases hinv1.carved hn hfind1 hclear1 with ⟨H', hinv', hsame', hcarved⟩
              refine ⟨H', hinv', hsame.trans hsame', (Heap.Extends.append H _).trans hcarved.ext, nofun,
                fun hnone => absurd rfl hnone, fun _ => ⟨a, size, ?_⟩,
                fun ht => hcarved.tiled (ht.append (by omega))⟩
              rw [hcarved.same nofun, extents_append]
              rfl

/-! ## `cull` -/

/-- `cull` of `ptr` merges on both sides, where the last chunk of region `room` is not there. -/
def MergesTwice (m : ByteMem) (h ptr : Nat) (room : Option Nat) : Prop :=
  let (found, i, j) := findBlock m h ptr (nRegions m h - 1).toNat 1 0
  found = true ∧ flagAt m h i ((j : Int) - 1) ≠ RESERVED ∧ flagAt m h i ((j : Int) + 1) ≠ RESERVED ∧
    ¬ (room = some i ∧ nChunks m (regionPtr m h i) = j + 2)

instance (m : ByteMem) (h ptr : Nat) (room : Option Nat) : Decidable (MergesTwice m h ptr room) :=
  inferInstanceAs (Decidable (_ ∧ _ ∧ _ ∧ ¬ (_ ∧ _)))

theorem code_reserved {f : Flag} (hf : f ≠ .reserved) : f.code ≠ RESERVED := by
  cases f with
  | reserved => exact absurd rfl hf
  | unallocated => decide
  | culled => decide

/-- A block between two free chunks is one that `cull` merges twice. -/
theorem mergesTwice_of_between {pre rs : List Chunk} {a c d : Chunk} {room : Option Nat}
    (hH : HeapAt m h H) (hp : Picked H us R vs) (hb : R.blocks = pre ++ a :: c :: d :: rs)
    (ha : a.flag ≠ .reserved) (hd : d.flag ≠ .reserved)
    (hroom : room = some (us.length + 1) → rs ≠ []) : MergesTwice m h c.addr room := by
  have hR := hH.users R hp.mem
  have ho := hH.outside hp
  have hb' : R.blocks = (pre ++ [a]) ++ c :: d :: rs := by simp [hb]
  have hea : R.entries[pre.length + 2]? = some a := by
    simp [Region.entries, hb]
  have hed : R.entries[pre.length + 4]? = some d := by
    simp [Region.entries, hb]
  have hlen : (pre ++ [a]).length + 2 = pre.length + 3 := by simp
  have hcount : nChunks m (regionPtr m h (us.length + 1)) = (pre.length + rs.length + 5 : Nat) := by
    rw [ho.ptr, hR.nChunks]
    simp only [Region.count, hb, List.length_append, List.length_cons]
    omega
  unfold MergesTwice
  rw [findBlock_found hH hp hb']
  simp only [hlen]
  refine ⟨trivial, ?_, ?_, ?_⟩
  · rw [flagAt_eq hR.shape ho (by omega) hea]
    exact code_reserved ha
  · rw [flagAt_eq hR.shape ho (by omega) hed]
    exact code_reserved hd
  · rintro ⟨hsome, hlast⟩
    rw [hcount] at hlast
    exact hroom hsome (List.length_eq_zero_iff.1 (by omega))

/-- The block `b` of the heap lies between two free chunks. -/
def Heap.Between (H : Heap) (b : Nat × Nat) : Prop :=
  ∃ us R vs pre a c d rs, H.users = us ++ R :: vs ∧ R.blocks = pre ++ a :: c :: d :: rs ∧
    (c.addr, c.size) = b ∧ a.flag ≠ .reserved ∧ d.flag ≠ .reserved

theorem HeapInv.mergesTwice (hinv : HeapInv h live s H) (hbetween : H.Between b) :
    MergesTwice s.mem h b.1 none := by
  rcases hbetween with ⟨us, R, vs, pre, a, c, d, rs, husers, hblocks, rfl, ha, hd⟩
  exact mergesTwice_of_between hinv.ready.image ⟨husers, hinv.ready.placed⟩ hblocks ha hd nofun

/-- `cull` of a block in use, whatever its neighbours are. -/
theorem HeapReady.culled {pre rs : List Chunk} {c : Chunk} (hH : HeapReady s h H)
    (husers : H.users = us ++ R :: vs) (hb : R.blocks = pre ++ c :: rs)
    (hc : c.flag = .reserved) :
    ∃ l, Released c R.blocks l ∧ WritesWithin s.mem (cull s.mem h c.addr) R.Bookkeeping ∧
      HeapReady { s with mem := cull s.mem h c.addr } h
        (H.withUsers (us ++ R.withBlocks l :: vs)) := by
  have hp : Picked H us R vs := ⟨husers, hH.placed⟩
  rcases cull_spec (hH.image.users R hp.mem) hp.sound (hH.image.outside hp) hb hc
    (findBlock_found hH.image hp hb) with ⟨l, hrel, hR', hw, hs'⟩
  exact ⟨l, hrel, hw, hH.replace husers (hp.sound.writesOnly hw) hR' rfl rfl hs'⟩

/-- `cull` of a block in use; it keeps a tiling unless it merges twice. -/
theorem HeapInv.culled (hinv : HeapInv h live s H) (hb : b ∈ live) :
    ∃ H', HeapInv h (live.erase b) { s with mem := cull s.mem h b.1 } H' ∧
      SameBlocks s.mem (cull s.mem h b.1) (live.erase b) ∧ (∀ Q ∈ H'.users, ∀ z, ¬ Q.InUse (b.1, z)) ∧
      H'.extents = H.extents ∧ (¬ H.Between b → H.Tiled → H'.Tiled) := by
  rcases hinv.pick hb with ⟨us, R, vs, pre, c, rs, husers, hblocks, hflag, rfl⟩
  have hp : Picked H us R vs := ⟨husers, hinv.ready.placed⟩
  have hs := hp.sound
  have hc : c ∈ R.blocks := by simp [hblocks]
  rcases hinv.ready.culled husers hblocks hflag with ⟨l, hrel, hw, hready⟩
  have hf := hinv.fenced R hp.mem
  refine ⟨_, hinv.replace husers hready (hrel.fenced hs hf) ?_ (hinv.nodup.erase _), ?_, ?_,
    extents_replace husers rfl rfl, ?_⟩
  rotate_left
  · exact hinv.spares husers hw (fun _ => hs.bookkeeping_bounds)
      (fun d hd hdflag _ => hs.bookkeeping_apart hf hd hdflag) List.erase_subset
  · rintro Q hQ z ⟨d, hd, hdflag, hdz⟩
    have hdc : c.addr = d.addr := (congrArg Prod.fst hdz).symm
    rcases List.mem_append.1 hQ with hQ | hQ
    · exact hinv.ready.placed.addr_region husers (.inl hQ) hc hd hdc
    · rcases List.mem_cons.1 hQ with rfl | hQ
      · rcases hrel.mem_before hs hblocks (hs.after_reserved hblocks hflag) hd hdflag with ⟨hd, hne⟩
        exact hne (hs.block_unique hd hc hdc.symm)
      · exact hinv.ready.placed.addr_region husers (.inr hQ) hc hd hdc
  · intro hnot ht
    refine forall_replace husers ht (hrel.tiled hs (ht R hp.mem) hflag ?_)
    rintro ⟨pre', a, d, rs', hl, ha, hd⟩
    exact hnot ⟨us, R, vs, pre', a, c, d, rs', husers, hl, rfl, ha, hd⟩
  intro d hd
  rcases hinv.nodup.mem_erase_iff.1 hd with ⟨hne, hd⟩
  rcases hinv.other hd husers hc hne with ⟨e, he, heflag, hed, hec⟩ | hother
  · exact .inl ⟨e, hrel.keeps hs he heflag hec, heflag, hed⟩
  · exact .inr hother

/-! ## `change` -/

/-- A block that lies between free chunks of the larger region did so before. -/
theorem Region.Extends.between {pre rs pre' rs' : List Chunk} {a c d : Chunk} (hext : R.Extends R')
    (hs : R.Sound) (hp' : R'.Placed) (hb : R.blocks = pre ++ c :: rs) (hc : c.flag = .reserved)
    (hb' : R'.blocks = pre' ++ a :: c :: d :: rs') (ha : a.flag ≠ .reserved)
    (hd : d.flag ≠ .reserved) : ∃ ls l, pre = ls ++ [a] ∧ rs = d :: l ∧ ls.length = pre'.length := by
  have hlen : R.blocks.length = pre.length + rs.length + 1 := by
    rw [hb, List.length_append, List.length_cons]
    omega
  have hrs := List.length_pos_iff.2 (hs.after_reserved hb hc)
  -- `c` has the same index in both lists.
  have hcR : R.blocks[pre.length]? = some c := by simp [hb]
  have hcR' := hext.blocks _ _ hcR hc
  have hcR'' : R'.blocks[pre'.length + 1]? = some c := by simp [hb']
  have hidx : pre.length = pre'.length + 1 := by
    rcases List.getElem?_eq_some_iff.1 hcR' with ⟨h1, e1⟩
    rcases List.getElem?_eq_some_iff.1 hcR'' with ⟨h2, e2⟩
    exact (List.Nodup.getElem_inj_iff hp'.nodup).1 (e1.trans e2.symm)
  have haR : R.blocks[pre'.length]? = some a := by
    refine (hext.free pre'.length a (by simp [hb']) ha).resolve_right ?_
    omega
  have hdR : R.blocks[pre'.length + 2]? = some d := by
    refine (hext.free (pre'.length + 2) d (by simp [hb']) hd).resolve_right ?_
    omega
  rcases List.eq_nil_or_concat' pre with rfl | ⟨ls, x, rfl⟩
  · simp at hidx
  · have hls : ls.length = pre'.length := by simpa using hidx
    have hx : x = a := by
      rw [hb, ← hls] at haR
      simpa using haR
    cases rs with
    | nil => simp at hrs
    | cons y l =>
        have hy : y = d := by
          rw [hb, ← hls] at hdR
          simpa using hdR
        exact ⟨ls, l, by rw [hx], by rw [hy], hls⟩

/-- A block that lies between free chunks after `alloc` is one that `cull` would have merged twice,
and the chunk after it is not the tail that `alloc` took. -/
theorem HeapInv.mergesTwice_of_allocated {live' : List (Nat × Nat)} {room : Option Nat}
    (hinv : HeapInv h live s H) (hinv' : HeapInv h live' s' H') (hall : Allocated room H H')
    (hb : b ∈ live) (hbetween : H'.Between b) : MergesTwice s.mem h b.1 room := by
  rcases hinv.pick hb with ⟨us, R, vs, pre, c, rs, husers, hblocks, hflag, rfl⟩
  rcases hbetween with ⟨us', Q, vs', pre', a, e, d, rs', husers', hblocks', heq, ha, hd⟩
  have hpick : H.users[us.length]? = some R := by simp [husers]
  rcases hall.ext.users _ _ hpick with ⟨R', hR', hext⟩
  have hp : Picked H us R vs := ⟨husers, hinv.ready.placed⟩
  have hp' : Picked H' us' Q vs' := ⟨husers', hinv'.ready.placed⟩
  have hcR' : c ∈ R'.blocks := List.mem_of_getElem? (hext.blocks pre.length c (by simp [hblocks]) hflag)
  have heQ : e ∈ Q.blocks := by simp [hblocks']
  have hca : e.addr = c.addr := congrArg Prod.fst heq
  -- The region is the same one.
  have hsame : us'.length = us.length := by
    by_contra hne
    refine hp'.placed.addr_region husers' ?_ heQ hcR' hca
    rw [husers'] at hR'
    rcases Nat.lt_or_gt_of_ne hne with hlt | hgt
    · rw [List.getElem?_append_right (Nat.le_of_lt hlt)] at hR'
      rcases Nat.exists_eq_add_of_lt hlt with ⟨x, hx⟩
      rw [show us.length - us'.length = x + 1 by omega] at hR'
      exact .inr (List.mem_of_getElem? hR')
    · rw [List.getElem?_append_left hgt] at hR'
      exact .inl (List.mem_of_getElem? hR')
  have hQ : Q = R' := by
    rw [← hsame, husers'] at hR'
    simpa using hR'
  subst hQ
  have hec : e = c := hp'.sound.block_unique heQ hcR' hca
  subst hec
  rcases hext.between hp.sound hp'.sound.toPlaced hblocks hflag hblocks' ha hd with
    ⟨ls, l, rfl, rfl, hlen⟩
  have hblocks2 : R.blocks = ls ++ a :: e :: d :: l := by simp [hblocks]
  refine mergesTwice_of_between hinv.ready.image hp hblocks2 ha hd ?_
  rintro hroom rfl
  -- `alloc` took the tail `d`.
  refine hd (hall.full _ _ _ d hroom hpick hR' ?_)
  rw [hblocks2, hblocks']
  simp [hlen]

/-- The address of a block in use is never zero. -/
theorem HeapInv.pos (hinv : HeapInv h live s H) (hb : b ∈ live) : b.1 ≠ 0 := by
  rcases hinv.pick hb with ⟨_, _, _, _, c, _, _, _, _, rfl⟩
  exact Nat.succ_ne_zero _

/-- What `change` of the block `b` to `n` bytes does: the block at `p` has the contents of `b`, which
is in use no longer, and the other blocks keep theirs. -/
structure Moved (s s' : Machine) (H' : Heap) (live : List (Nat × Nat)) (b : Nat × Nat)
    (p n : Nat) : Prop where
  pos : p ≠ 0
  copied : ∀ k, k < b.2 → k < n → s'.mem (p + k) = s.mem (b.1 + k)
  same : SameBlocks s.mem s'.mem (live.erase b)
  released : ∀ Q ∈ H'.users, ∀ z, ¬ Q.InUse (b.1, z)

/-- `change` of a block in use copies the smaller of the two sizes, and culls the block. -/
theorem HeapInv.change_eq {q : Nat} {s1 : Machine} (hinv : HeapInv h live s H) (hb : b ∈ live)
    (hn : n + 32 < 2147483648) (hfits : AllocFits s h n)
    (hclear : ∀ i, findRoom s.mem h n (nRegions s.mem h - 1).toNat 1 = some i →
      TailClear s.mem h i n) (halloc : Memory.alloc fuel s h n = some (q, s1)) :
    Memory.change fuel s h b.1 n =
      some (q, { s1 with mem := cull (memcpy s1.mem q b.1 (min b.2 n)) h b.1 }) := by
  rcases hinv.pick hb with ⟨us, R, vs, pre, c, rs, husers, hblocks, hflag, rfl⟩
  have hH := hinv.ready.image
  have hp : Picked H us R vs := ⟨husers, hinv.ready.placed⟩
  rcases hinv.alloc hn hfits hclear halloc with ⟨H1, hinv1, _, hall⟩
  have hq := hinv1.pos List.mem_cons_self
  have hpick : H.users[us.length]? = some R := by simp [husers]
  rcases hall.ext.users _ _ hpick with ⟨R', hR', hext⟩
  have hcR' : R'.entries[pre.length + 2]? = some c :=
    hext.blocks pre.length c (by simp [hblocks]) hflag
  have hRm' := hinv1.ready.image.users R' (List.mem_of_getElem? hR')
  have hold : chunkSize s1.mem (chunkPtr s1.mem (regionPtr s1.mem h (us.length + 1))
      (pre.length + 2 : Nat)) = c.size := by
    rw [hinv1.ready.image.regionPtr_eq hR', hRm'.chunkPtr hcR']
    exact (hRm'.header hcR').size
  have hlen : (if (n : Int) > c.size then u32 (c.size : Int) else n) = min c.size n := by
    split
    · rw [u32_of_range rfl (by omega)]
      omega
    · omega
  rw [Memory.change, findBlock_found hH hp hblocks]
  simp only [Bool.true_eq_false, if_false, u32_of_range (x := (n : Int)) rfl (by omega)]
  rw [halloc, Option.bind_eq_bind, Option.bind_some, if_neg hq]
  simp only [hold, hlen]

/-- What a call of `change` that returns did. -/
theorem HeapInv.change_cases (hinv : HeapInv h live s H) (hb : b ∈ live)
    (hn : n + 32 < 2147483648) (hfits : AllocFits s h n)
    (hclear : ∀ i, findRoom s.mem h n (nRegions s.mem h - 1).toNat 1 = some i →
      TailClear s.mem h i n) (hrun : Memory.change fuel s h b.1 n = some (p, s')) :
    ∃ s1, Memory.alloc fuel s h n = some (p, s1) ∧
      s' = { s1 with mem := cull (memcpy s1.mem p b.1 (min b.2 n)) h b.1 } := by
  obtain ⟨q, s1, halloc⟩ : ∃ q s1, Memory.alloc fuel s h n = some (q, s1) := by
    rcases hinv.pick hb with ⟨us, R, vs, pre, c, rs, husers, hblocks, _, rfl⟩
    rw [Memory.change, findBlock_found hinv.ready.image ⟨husers, hinv.ready.placed⟩ hblocks] at hrun
    simp only [Bool.true_eq_false, if_false, u32_of_range (x := (n : Int)) rfl (by omega)] at hrun
    rw [Option.bind_eq_bind, Option.bind_eq_some_iff] at hrun
    rcases hrun with ⟨⟨q, s1⟩, halloc, _⟩
    exact ⟨q, s1, halloc⟩
  have hchange := hinv.change_eq hb hn hfits hclear halloc
  rw [hrun, Option.some.injEq, Prod.mk.injEq] at hchange
  rcases hchange with ⟨rfl, hs'⟩
  exact ⟨s1, halloc, hs'⟩

/-- `change` of a block in use; it keeps a tiling unless its `cull` merges twice. -/
theorem HeapInv.change (hinv : HeapInv h live s H) (hb : b ∈ live) (hn : n + 32 < 2147483648)
    (hfits : AllocFits s h n)
    (hclear : ∀ i, findRoom s.mem h n (nRegions s.mem h - 1).toNat 1 = some i →
      TailClear s.mem h i n) (hrun : change fuel s h b.1 n = some (p, s')) :
    ∃ H', HeapInv h ((p, n) :: live.erase b) s' H' ∧ Moved s s' H' live b p n ∧
      (¬ MergesTwice s.mem h b.1 (findRoom s.mem h n (nRegions s.mem h - 1).toNat 1) →
        H.Tiled → H'.Tiled) := by
  rcases hinv.pick hb with ⟨us, R, vs, pre, c, rs, husers, hblocks, hflag, rfl⟩
  rcases hinv.change_cases hb hn hfits hclear hrun with ⟨s1, halloc, rfl⟩
  rcases hinv.alloc hn hfits hclear halloc with ⟨H1, hinv1, hsame, hall⟩
  have hq := hinv1.pos List.mem_cons_self
  have hne : (c.addr, c.size) ≠ (p, n) := by
    rintro heq
    exact (List.nodup_cons.1 hinv1.nodup).1 (heq ▸ hb)
  have hapart := hinv1.noOverlap List.mem_cons_self (List.mem_cons_of_mem _ hb) hne.symm
  simp only [NoOverlap] at hapart
  have hcopy : WritesOnly s1.mem (memcpy s1.mem p c.addr (min c.size n)) p (p + n) :=
    (writesOnly_memcpy s1.mem p c.addr _).mono (Nat.le_refl _) (by omega)
  have hcontents : ∀ k, k < c.size → k < n →
      memcpy s1.mem p c.addr (min c.size n) (p + k) = s.mem (c.addr + k) := by
    intro k hk hkn
    rw [memcpy_eq_copy s1.mem hq (by omega), copy_inside (by omega), Nat.add_sub_cancel_left]
    exact hsame _ hb _ (by simp only []; omega) (by simp only []; omega)
  have hwritten := hinv1.written List.mem_cons_self hcopy
  rw [List.erase_cons_head] at hwritten
  generalize memcpy s1.mem p c.addr (min c.size n) = m2 at hwritten hcontents ⊢
  rcases hwritten.1.culled (List.mem_cons_of_mem _ hb) with ⟨H', hinv', hspared, hreleased, _, htiled⟩
  rw [List.erase_cons_tail (by simpa using hne.symm)] at hinv' hspared
  generalize cull m2 h c.addr = m3 at hinv' hspared ⊢
  have hsub : live.erase (c.addr, c.size) ⊆ live := List.erase_subset
  refine ⟨H', hinv', ⟨hq, ?_, ?_, hreleased⟩, fun hnot ht => htiled ?_ (hall.tiled ht)⟩
  · intro k hk hkn
    rw [← hcontents k hk hkn]
    exact hspared _ List.mem_cons_self _ (Nat.le_add_right _ _) (Nat.add_lt_add_left hkn p)
  · intro d hd
    exact (hspared d (List.mem_cons_of_mem _ hd)).trans
      ((hwritten.2 d (hsub hd)).trans (hsame d (hsub hd)))
  · exact fun hbetween => hnot (hinv.mergesTwice_of_allocated hinv1 hall hb hbetween)

end Memory
end EmbeddedOS
