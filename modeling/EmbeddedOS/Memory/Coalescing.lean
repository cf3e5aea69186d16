import EmbeddedOS.Memory.SizeAccounting

/-!
# Coalescing

A region serves some blocks, and all of them are culled again. `cull` merges with every free
neighbour, so no two free chunks stand next to each other and a single chunk is left, with the size
of the first tail. It starts where the block that was culled last started, as a merge on both sides
puts the merged chunk there.
-/

namespace EmbeddedOS
namespace Memory

open Base Base.ByteMem Stdlib

variable {m : ByteMem} {h i base size : Nat} {H : Heap} {R : Region} {us vs : List Region}
  {s s' t : Machine} {pre rs l : List Chunk} {a b c x : Chunk} {d : Nat × Nat}
  {blocks order rest : List (Nat × Nat)}

/-! ## Free chunks apart -/

/-- No two free chunks are neighbours. -/
def Separate (l : List Chunk) : Prop :=
  l.IsChain fun a b => a.flag = .reserved ∨ b.flag = .reserved

theorem separate_of_reserved (hl : ∀ a ∈ l, a.flag = .reserved) (x : Chunk) :
    Separate (l ++ [x]) := by
  induction l with
  | nil => exact List.isChain_singleton x
  | cons a l ih =>
      refine List.isChain_cons.2 ⟨fun _ _ => .inl (hl a List.mem_cons_self), ih fun b hb => ?_⟩
      exact hl b (List.mem_cons_of_mem _ hb)

/-- A free chunk needs chunks in use, or none, on both sides. -/
theorem separate_free (hx : x.flag ≠ .reserved) :
    Separate (pre ++ x :: rs) ↔
      Separate pre ∧ Separate rs ∧ NoFreeBefore pre ∧ NoFreeAfter rs := by
  simp only [Separate, List.isChain_append, List.isChain_cons, List.head?_cons, NoFreeBefore,
    NoFreeAfter, Option.mem_def, Option.some.injEq, forall_eq', hx, or_false, false_or]
  constructor
  · rintro ⟨hpre, ⟨hafter, hrs⟩, hbefore⟩
    exact ⟨hpre, hrs, hbefore, hafter⟩
  · rintro ⟨hpre, hrs, hbefore, hafter⟩
    exact ⟨hpre, ⟨hafter, hrs⟩, hbefore⟩

/-- A chunk in use may have any neighbours. -/
theorem separate_inUse (hx : x.flag = .reserved) :
    Separate (pre ++ x :: rs) ↔ Separate pre ∧ Separate rs := by
  simp [Separate, List.isChain_append, List.isChain_cons, hx]

theorem Separate.tail (h : Separate (x :: l)) : Separate l :=
  List.IsChain.tail h

theorem Separate.after_free (h : Separate (x :: l)) (hx : x.flag ≠ .reserved) : NoFreeAfter l := by
  have hl : Separate ([] ++ x :: l) := h
  exact ((separate_free hx).1 hl).2.2.2

/-- Growing the tail changes no flag. -/
theorem noFreeAfter_growLast : NoFreeAfter (growLast l) ↔ NoFreeAfter l := by
  cases l with
  | nil => rfl
  | cons a l =>
      cases l with
      | nil => simp [NoFreeAfter, growLast, Chunk.grow]
      | cons b l => rfl

theorem separate_growLast : Separate (growLast l) ↔ Separate l := by
  rcases List.eq_nil_or_concat' l with rfl | ⟨pre, t, rfl⟩
  · rfl
  · rw [growLast_concat]
    by_cases ht : t.flag = .reserved
    · rw [separate_inUse ht, separate_inUse (x := t.grow) ht]
    · rw [separate_free ht, separate_free (x := t.grow) ht]

theorem separate_joined (hdr : Nat) (a b : Chunk) (hpre : Separate pre) (hrs : Separate rs)
    (hbefore : NoFreeBefore pre) (hafter : NoFreeAfter rs) : Separate (joined hdr pre a b rs) := by
  rw [joined, ← growLast_append pre (by simp), separate_growLast]
  exact (separate_free (by simp [Chunk.merged])).2 ⟨hpre, hrs, hbefore, hafter⟩

/-- `cull` leaves no two free chunks next to each other. -/
theorem Released.separate (hrel : Released c R.blocks l) (hc : c.flag = .reserved)
    (hsep : Separate R.blocks) : Separate l := by
  have hmark : c.culled.flag ≠ .reserved := by simp [Chunk.culled]
  generalize R.blocks = l₀ at hrel hsep
  cases hrel with
  | alone hbefore hafter =>
      rcases (separate_inUse hc).1 hsep with ⟨hpre, hrs⟩
      exact (separate_free hmark).2 ⟨hpre, hrs, hbefore, hafter⟩
  | @left pre rs a ha hafter =>
      rcases (separate_free ha).1 hsep with ⟨hpre, hcrs, hbefore, _⟩
      exact separate_joined _ _ _ hpre hcrs.tail hbefore hafter
  | @right pre rs b hbefore hb =>
      rcases (separate_inUse hc).1 hsep with ⟨hpre, hbrs⟩
      exact separate_joined _ _ _ hpre hbrs.tail hbefore (hbrs.after_free hb)
  | @both pre rs rs' a b b' ha hb hg =>
      rcases (separate_free ha).1 hsep with ⟨hpre, hcrs, hbefore, _⟩
      have hbrs := hcrs.tail
      -- The chunk after the first merge is `b`, but for its size.
      have hgrown : Separate (b' :: rs') := hg ▸ separate_growLast.2 hbrs
      have hb' : b'.flag ≠ .reserved := by
        have hnot : ¬ NoFreeAfter (b' :: rs') := by
          rw [← hg, noFreeAfter_growLast]
          exact fun hafter => hb (hafter b rfl)
        exact fun hflag => hnot fun e he => by
          cases he
          exact hflag
      exact separate_joined _ _ _ hpre hgrown.tail hbefore (hgrown.after_free hb')

/-- When `c` is the only chunk in use, `cull` leaves one chunk, where `c` was. -/
theorem Released.single (hrel : Released c R.blocks l) (hs : R.Sound) (hc : c.flag = .reserved)
    (hb : R.blocks = pre ++ c :: rs) (hsep : Separate R.blocks)
    (honly : ∀ b ∈ R.blocks, b.flag = .reserved → b = c) :
    ∃ x, l = [x] ∧ x.hdr = c.hdr ∧ x.flag = .unallocated := by
  have hnd := hs.nodup
  rw [hb] at hsep honly hnd
  rcases (separate_inUse hc).1 hsep with ⟨hpre, hrs⟩
  have hprefree : ∀ a ∈ pre, a.flag ≠ .reserved := by
    intro a ha hflag
    have hac := honly a (by simp [ha]) hflag
    exact (List.nodup_append.1 hnd).2.2 a ha c List.mem_cons_self hac
  have hrsfree : ∀ b ∈ rs, b.flag ≠ .reserved := by
    intro b hb hflag
    have hbc := honly b (by simp [hb]) hflag
    exact (List.nodup_cons.1 (List.nodup_append.1 hnd).2.1).1 (hbc ▸ hb)
  -- Neighbours that are both free do not occur, so there is one chunk on each side at most.
  obtain ⟨b, rfl⟩ : ∃ b, rs = [b] := by
    rcases List.exists_cons_of_ne_nil (hs.after_reserved hb hc) with ⟨b, r, rfl⟩
    cases r with
    | nil => exact ⟨b, rfl⟩
    | cons e r =>
        rcases (List.isChain_cons_cons.1 hrs).1 with hflag | hflag
        · exact absurd hflag (hrsfree b List.mem_cons_self)
        · exact absurd hflag (hrsfree e (List.mem_cons_of_mem _ List.mem_cons_self))
  have hbfree := hrsfree b List.mem_cons_self
  rcases hrel.outcome hs.toPlaced hb with ⟨_, hafter, _⟩ | ⟨_, _, _, _, hafter, _⟩ |
    ⟨b', r, hbr, hbefore, _, rfl⟩ | ⟨p, a, b', r, e, r', rfl, hbr, ha, _, hg, rfl⟩
  · exact absurd (hafter b rfl) hbfree
  · exact absurd (hafter b rfl) hbfree
  · obtain rfl : pre = [] := by
      rcases List.eq_nil_or_concat' pre with rfl | ⟨p, a, rfl⟩
      · rfl
      · exact absurd (hbefore a (by simp)) (hprefree a (by simp))
    simp only [List.cons.injEq] at hbr
    rcases hbr with ⟨rfl, rfl⟩
    exact ⟨(Chunk.merged c.hdr c.culled b).grow, rfl, rfl, rfl⟩
  · obtain rfl : p = [] := by
      rcases List.eq_nil_or_concat' p with rfl | ⟨q, d, rfl⟩
      · rfl
      · rcases (separate_free ha).1 hpre with ⟨_, _, hbefore, _⟩
        exact absurd (hbefore d (by simp)) (hprefree d (by simp))
    simp only [List.cons.injEq] at hbr
    rcases hbr with ⟨rfl, rfl⟩
    simp only [growLast, List.cons.injEq] at hg
    rcases hg with ⟨rfl, rfl⟩
    exact ⟨(Chunk.merged c.hdr (Chunk.merged a.hdr a c.culled) b.grow).grow, rfl, rfl, rfl⟩

/-! ## A fresh region in memory -/

/-- The region with the record at `r` is as it was created: `size` bytes at `base`, with the chunk
array, the record and the tail. -/
structure FreshAt (m : ByteMem) (r base size : Nat) : Prop where
  allocSize : allocSize m r = size
  usedSize : usedSize m r = 128
  nChunks : nChunks m r = 3
  baseAddr : baseAddr m r = base
  chunks : chunks m r = base + size - 24
  array : HeaderIs m (chunkPtr m r 0) 24 RESERVED (base + size - 24)
  info : HeaderIs m (chunkPtr m r 1) REGION_INFO_SIZE RESERVED (base + 24)
  tail : HeaderIs m (chunkPtr m r 2) (size - 128) UNALLOCATED (base + 80)

theorem HeaderAt.headerIs (hc : HeaderAt m c) : HeaderIs m c.hdr c.size c.flag.code c.addr :=
  ⟨hc.size, hc.flag, hc.addr⟩

/-- In memory a region is fresh exactly if its only chunk is a tail right after the record. -/
theorem RegionAt.freshAt_iff (hR : RegionAt m R) (hs : R.Sound) :
    FreshAt m R.record R.base R.size ↔
      ∃ x, R.blocks = [x] ∧ x.hdr = R.base + 56 ∧ x.flag = .unallocated := by
  have hcnt : R.count = R.blocks.length + 2 := rfl
  constructor
  · intro hfresh
    have hlen : R.blocks.length = 1 := by
      have hn := hR.nChunks.symm.trans hfresh.nChunks
      omega
    rcases List.length_eq_one_iff.1 hlen with ⟨x, hx⟩
    have hentry : R.entries[2]? = some x := by simp [Region.entries, hx]
    have haddr := (hR.header hentry).addr.symm.trans
      ((congrArg (chunkAddr m) (hR.chunkPtr hentry)).symm.trans hfresh.tail.addr)
    rcases hs.tail with ⟨pre, t, hts, hfree⟩
    obtain rfl : x = t := by
      have hsame : [] ++ [x] = pre ++ [t] := hx.symm.trans hts
      simpa using (List.append_inj' hsame rfl).2
    refine ⟨x, hx, ?_, hfree⟩
    simp only [Chunk.addr] at haddr
    omega
  · rintro ⟨x, hx, hhdr, hflag⟩
    have hsize : (x.size : Int) = R.size - 128 := by
      have hacc := hs.account
      simp only [hcnt, hx, total_cons, total_nil, List.length_singleton] at hacc
      omega
    have hc3 : R.count = 3 := by simp [hcnt, hx]
    have harr : R.arr = R.base + R.size - 24 := by simp [Region.arr, hc3]
    have hheader : ∀ {j : Nat} {c : Chunk}, R.entries[j]? = some c →
        HeaderIs m (Memory.chunkPtr m R.record j) c.size c.flag.code c.addr := by
      intro j c hc
      rw [hR.chunkPtr hc]
      exact (hR.header hc).headerIs
    refine ⟨hR.allocSize, ?_, ?_, hR.baseAddr, hR.chunks.trans harr, ?_, ?_, ?_⟩
    · rw [hR.usedSize, Region.used, hx, usedBy_cons, hflag]
      rfl
    · rw [hR.nChunks, hc3]
      rfl
    · have harray := hheader (j := 0) (c := R.arrayChunk) rfl
      have hroom := hs.room
      simp only [Region.arrayChunk, Chunk.addr, hc3, harr, Flag.code] at harray
      rwa [show R.base + R.size - 24 - 24 + 24 = R.base + R.size - 24 by omega] at harray
    · exact hheader (j := 1) (c := R.infoChunk) rfl
    · have htail := hheader (j := 2) (c := x) (by simp [Region.entries, hx])
      rwa [hsize, hflag, show x.addr = R.base + 80 by rw [Chunk.addr, hhdr]] at htail

/-! ## The blocks of one region -/

/-- Region `us.length + 1` of the heap is `R`, and `blocks` are its blocks in use. -/
structure RegionHolds (h : Nat) (us : List Region) (R : Region) (vs : List Region)
    (blocks : List (Nat × Nat)) (s : Machine) : Prop where
  ready : ∃ H, HeapReady s h H ∧ H.users = us ++ R :: vs
  separate : Separate R.blocks
  inUse : ∀ b, R.InUse b ↔ b ∈ blocks

theorem RegionHolds.sound (hh : RegionHolds h us R vs blocks s) : R.Sound := by
  rcases hh.ready with ⟨H, hH, husers⟩
  exact hH.placed.sound R (by simp [husers])

theorem RegionHolds.freshAt_iff (hh : RegionHolds h us R vs blocks s) :
    FreshAt s.mem (regionPtr s.mem h (us.length + 1)) R.base R.size ↔
      ∃ x, R.blocks = [x] ∧ x.hdr = R.base + 56 ∧ x.flag = .unallocated := by
  rcases hh.ready with ⟨H, hH, husers⟩
  have hptr := hH.image.regionPtr_eq (k := us.length) (R := R) (by simp [husers])
  rw [hptr]
  exact (hH.image.users R (by simp [husers])).freshAt_iff hh.sound

/-- `cull` of one of the blocks. -/
theorem RegionHolds.culled (hh : RegionHolds h us R vs (d :: rest) s) (hd : d ∉ rest) :
    ∃ l, RegionHolds h us (R.withBlocks l) vs rest { s with mem := cull s.mem h d.1 } ∧
      (rest = [] → ∃ x, l = [x] ∧ x.addr = d.1 ∧ x.flag = .unallocated) := by
  have hs := hh.sound
  rcases hh.ready with ⟨H, hH, husers⟩
  rcases (hh.inUse d).2 List.mem_cons_self with ⟨c, hc, hflag, rfl⟩
  rcases List.append_of_mem hc with ⟨pre, rs, hb⟩
  rcases hH.culled husers hb hflag with ⟨l, hrel, _, hready⟩
  have hnext := hs.after_reserved hb hflag
  refine ⟨l, ⟨⟨_, hready, rfl⟩, hrel.separate hflag hh.separate, ?_⟩, ?_⟩
  · intro b
    constructor
    · rintro ⟨e, he, heflag, rfl⟩
      rcases hrel.mem_before hs hb hnext he heflag with ⟨hmem, hne⟩
      refine (List.mem_cons.1 ((hh.inUse _).1 ⟨e, hmem, heflag, rfl⟩)).resolve_left ?_
      exact fun heq => hne (hs.block_unique hmem hc (congrArg Prod.fst heq))
    · intro hb'
      rcases (hh.inUse b).2 (List.mem_cons_of_mem _ hb') with ⟨e, he, heflag, rfl⟩
      refine ⟨e, hrel.keeps hs he heflag ?_, heflag, rfl⟩
      rintro rfl
      exact hd hb'
  · rintro rfl
    have honly : ∀ b ∈ R.blocks, b.flag = .reserved → b = c := by
      intro b hbmem hbflag
      have hmem := (hh.inUse _).1 ⟨b, hbmem, hbflag, rfl⟩
      rw [List.mem_singleton] at hmem
      exact hs.block_unique hbmem hc (congrArg Prod.fst hmem)
    rcases hrel.single hs hflag hb hh.separate honly with ⟨x, hx, hhdr, hfree⟩
    exact ⟨x, hx, congrArg (· + 24) hhdr, hfree⟩

/-- `cull` of the blocks at `ptrs`, one after the other. -/
def cullAll (m : ByteMem) (h : Nat) (ptrs : List Nat) : ByteMem :=
  ptrs.foldl (fun m ptr => cull m h ptr) m

theorem cullAll_cons (m : ByteMem) (h ptr : Nat) (ptrs : List Nat) :
    cullAll m h (ptr :: ptrs) = cullAll (cull m h ptr) h ptrs := by
  unfold cullAll
  exact List.foldl_cons ..

/-- After all blocks were culled one chunk is left, where the last one was. -/
theorem RegionHolds.cullAll (horder : order.Nodup) (hne : order ≠ []) :
    ∀ {R : Region} {s : Machine}, RegionHolds h us R vs order s →
      ∃ x, RegionHolds h us (R.withBlocks [x]) vs []
          { s with mem := cullAll s.mem h (order.map Prod.fst) } ∧
        x.addr = (order.getLast hne).1 ∧ x.flag = .unallocated := by
  induction order with
  | nil => exact absurd rfl hne
  | cons d rest ih =>
      intro R s hh
      rcases List.nodup_cons.1 horder with ⟨hd, hrest⟩
      have hstep := hh.culled hd
      rw [List.map_cons, cullAll_cons]
      generalize cull s.mem h d.1 = m' at hstep ⊢
      rcases hstep with ⟨l, hh', hlast⟩
      by_cases hnil : rest = []
      · subst hnil
        rcases hlast rfl with ⟨x, rfl, haddr, hfree⟩
        exact ⟨x, hh', haddr, hfree⟩
      · rcases ih hrest hnil hh' with ⟨x, hh'', haddr, hfree⟩
        refine ⟨x, hh'', ?_, hfree⟩
        rw [haddr, List.getLast_cons hnil]

/-! ## Serving from one region -/

/-- Region `i` serves a request for `b.2` bytes at `b.1`: the search for room finds it, and the block
lies inside. -/
def ServedFrom (h i : Nat) (s : Machine) (b : Nat × Nat) (s' : Machine) : Prop :=
  roomFor s h b.2 = some i ∧ (∃ fuel, alloc fuel s h b.2 = some (b.1, s')) ∧
    b.1 + b.2 ≤ baseAddr s.mem (regionPtr s.mem h i) + (allocSize s.mem (regionPtr s.mem h i)).toNat

/-- Region `us.length + 1` of the heap is `R`, and holds `blocks`, in their order, before its
tail. -/
structure RegionServes (h : Nat) (us : List Region) (R : Region) (vs : List Region)
    (blocks : List (Nat × Nat)) (s : Machine) : Prop where
  ready : ∃ H, HeapReady s h H ∧ H.users = us ++ R :: vs
  tiled : R.Tiled
  carved : ∃ l t, R.blocks = l ++ [t] ∧ (∀ c ∈ l, c.flag = .reserved) ∧ t.flag = .unallocated ∧
    l.map (fun c => (c.addr, c.size)) = blocks

/-- The tail becomes the next block. -/
theorem RegionServes.step (hh : RegionServes h us R vs blocks s)
    (hstep : ServedFrom h (us.length + 1) s d s') :
    ∃ R', R'.base = R.base ∧ R'.size = R.size ∧ RegionServes h us R' vs (blocks ++ [d]) s' := by
  rcases hh with ⟨⟨H, hH, husers⟩, htiled, l, t, hb, hl, hfree, hblocks⟩
  rcases hstep with ⟨hfind, ⟨fuel, hrun⟩, hinside⟩
  have hp : Picked H us R vs := ⟨husers, hH.placed⟩
  have hs := hp.sound
  have hR := hH.image.users R hp.mem
  have hptr := hH.image.regionPtr_eq (k := us.length) (R := R) (by simp [husers])
  obtain ⟨haddr, rfl⟩ : (carve s.mem h (us.length + 1) d.2).1 = d.1 ∧
      { s with mem := (carve s.mem h (us.length + 1) d.2).2 } = s' := by
    cases fuel with
    | zero => cases hrun
    | succ fuel =>
        rw [alloc_of_room hfind, Option.some.injEq, Prod.mk.injEq] at hrun
        exact hrun
  have htail : (carve s.mem h (us.length + 1) d.2).1 = t.addr := by
    rcases tailPtr_eq hR hb hptr with ⟨htail, hhead⟩
    rw [← hhead.addr, ← htail]
    rfl
  -- The block lies in the region, so its size is an `int`.
  have hn : d.2 + 32 < 2147483648 := by
    rw [hptr, hR.baseAddr, hR.allocSize, Int.toNat_natCast, ← haddr, htail] at hinside
    have hbt := hs.header_bounds (c := t) (by simp [hb])
    have hsmall := hs.small
    simp only [Chunk.addr] at hinside
    omega
  have hclear : TailClear s.mem h (us.length + 1) d.2 :=
    tailClear_of_tiled hR hs htiled hptr hn (findRoom_sound hfind).2.2
  rcases hH.carved hn hfind hclear with ⟨us', Q, vs', pre', t', husers', hidx, hr, _, _, hready⟩
  obtain ⟨rfl, hcons⟩ : us' = us ∧ Q :: vs' = R :: vs :=
    List.append_inj (husers'.symm.trans husers) (by omega)
  obtain ⟨rfl, rfl⟩ : Q = R ∧ vs' = vs := by simpa using hcons
  obtain ⟨rfl, rfl⟩ : pre' = l ∧ t' = t := by
    rcases List.append_inj' (hr.blocks.symm.trans hb) rfl with ⟨h1, h2⟩
    exact ⟨h1, by simpa using h2⟩
  refine ⟨Q.withBlocks (Memory.carved pre' t' d.2), rfl, rfl, ⟨_, hready, rfl⟩, hr.tiled htiled,
    pre' ++ [t'.block d.2], t'.remainder d.2, by simp [Memory.carved], ?_, rfl, ?_⟩
  · intro c hc
    rcases List.mem_append.1 hc with hc | hc
    · exact hl c hc
    · rw [List.mem_singleton.1 hc]
      rfl
  · rw [List.map_append, hblocks, List.map_singleton]
    exact congrArg (blocks ++ [·]) (Prod.ext (htail.symm.trans haddr) rfl)

theorem RegionServes.run (hrun : Run (ServedFrom h (us.length + 1)) s rest t) :
    ∀ {R : Region} {blocks : List (Nat × Nat)}, RegionServes h us R vs blocks s →
      ∃ R', R'.base = R.base ∧ R'.size = R.size ∧ RegionServes h us R' vs (blocks ++ rest) t := by
  induction hrun with
  | nil s =>
      intro R blocks hh
      rw [List.append_nil]
      exact ⟨R, rfl, rfl, hh⟩
  | @cons s u t d rest hstep _ ih =>
      intro R blocks hh
      rcases hh.step hstep with ⟨R1, hbase1, hsize1, hh1⟩
      rcases ih hh1 with ⟨R2, hbase2, hsize2, hh2⟩
      refine ⟨R2, hbase2.trans hbase1, hsize2.trans hsize1, ?_⟩
      rwa [List.append_assoc, List.singleton_append] at hh2

namespace RegionServes

/-- The blocks in use are those that were served. -/
theorem holds (hh : RegionServes h us R vs blocks s) : RegionHolds h us R vs blocks s := by
  rcases hh with ⟨hready, _, l, t, hb, hl, hfree, rfl⟩
  refine ⟨hready, ?_, fun b => ?_⟩
  · rw [hb]
    exact separate_of_reserved hl t
  · simp only [Region.InUse, hb, List.mem_map]
    constructor
    · rintro ⟨c, hc, hflag, rfl⟩
      rcases List.mem_append.1 hc with hc | hc
      · exact ⟨c, hc, rfl⟩
      · rw [List.mem_singleton.1 hc, hfree] at hflag
        cases hflag
    · rintro ⟨c, hc, rfl⟩
      exact ⟨c, List.mem_append_left _ hc, hl c hc, rfl⟩

theorem nodup (hh : RegionServes h us R vs blocks s) : blocks.Nodup := by
  have hs := hh.holds.sound
  rcases hh with ⟨_, _, l, t, hb, _, _, rfl⟩
  have hl : ∀ c ∈ l, c ∈ R.blocks := fun c hc => by
    rw [hb]
    exact List.mem_append_left _ hc
  have hnd := hs.nodup
  rw [hb] at hnd
  refine (List.nodup_append.1 hnd).1.map_on fun c hc e he heq => ?_
  exact hs.block_unique (hl c hc) (hl e he) (congrArg Prod.fst heq)

/-- The first chunk of a tiled region begins right after the record. -/
theorem first (hh : RegionServes h us R vs blocks s) (hb : R.blocks = c :: l) :
    c.hdr = R.base + 56 := by
  have htiles := (hh.holds.sound.toPlaced.tiled_iff).1 hh.tiled
  rw [hb] at htiles
  exact htiles.1.symm

/-- A block begins right after the record exactly if it is the one that was served first. -/
theorem first_iff (hh : RegionServes h us R vs blocks s) (hd : d ∈ blocks) :
    d.1 = R.base + 80 ↔ blocks.head? = some d := by
  have hs := hh.holds.sound
  rcases (hh.holds.inUse d).2 hd with ⟨c, hc, _, rfl⟩
  rcases hh.carved with ⟨l, t, hb, _, _, rfl⟩
  cases l with
  | nil => simp at hd
  | cons e l =>
      have he : e.hdr = R.base + 56 := hh.first hb
      have hemem : e ∈ R.blocks := by simp [hb]
      rw [List.map_cons, List.head?_cons, Option.some.injEq]
      constructor
      · intro haddr
        have hec : e.addr = c.addr := (congrArg (· + 24) he).trans haddr.symm
        rw [hs.block_unique hemem hc hec]
      · intro heq
        rw [← heq]
        simp only [Chunk.addr, he]

/-- After all blocks were culled the region is fresh exactly if the block that was served first was
culled last. -/
theorem freshAt_culled_iff (hh : RegionServes h us R vs blocks s) (horder : order.Perm blocks)
    {m' : ByteMem} (hm : m' = cullAll s.mem h (order.map Prod.fst)) :
    FreshAt m' (regionPtr m' h (us.length + 1)) R.base R.size ↔
      blocks = [] ∨ order.getLast? = blocks.head? := by
  by_cases hnil : order = []
  · subst hnil
    obtain rfl : blocks = [] := List.nil_perm.1 horder
    have hfirst : ∃ x, R.blocks = [x] ∧ x.hdr = R.base + 56 ∧ x.flag = .unallocated := by
      rcases hh.carved with ⟨l, t, hb, _, hfree, hl⟩
      obtain rfl : l = [] := List.map_eq_nil_iff.1 hl
      exact ⟨t, hb, hh.first hb, hfree⟩
    obtain rfl : m' = s.mem := hm
    exact iff_of_true (hh.holds.freshAt_iff.2 hfirst) (.inl rfl)
  · have hne : blocks ≠ [] := fun hempty => hnil (List.perm_nil.1 (hempty ▸ horder))
    have hheld : RegionHolds h us R vs order s :=
      ⟨hh.holds.ready, hh.holds.separate, fun b => (hh.holds.inUse b).trans horder.mem_iff.symm⟩
    rcases hheld.cullAll (horder.nodup_iff.2 hh.nodup) hnil with ⟨x, hheld', haddr, hfree⟩
    rw [← hm] at hheld'
    have hlast := List.getLast_mem hnil
    have hhdr : x.hdr = R.base + 56 ↔ (order.getLast hnil).1 = R.base + 80 := by
      rw [← haddr, Chunk.addr]
      omega
    rw [or_iff_right hne, List.getLast?_eq_some_getLast hnil, eq_comm,
      ← hh.first_iff (horder.mem_iff.1 hlast), ← hhdr]
    refine (hheld'.freshAt_iff).trans ⟨?_, fun hx => ⟨x, rfl, hx, hfree⟩⟩
    rintro ⟨y, hy, hyhdr, _⟩
    obtain rfl : x = y := by simpa using hy
    exact hyhdr

end RegionServes

/-! ## Full coalescing -/

/-- A fresh region has served no blocks yet. -/
theorem HeapReady.serves (hH : HeapReady s h H) (hlo : 1 ≤ i) (hhi : i < nRegions s.mem h)
    (hfresh : FreshAt s.mem (regionPtr s.mem h i) base size) :
    ∃ us R vs, us.length + 1 = i ∧ R.base = base ∧ R.size = size ∧ RegionServes h us R vs [] s := by
  rcases hH.image.user_index hlo hhi with ⟨us, R, vs, husers, rfl, hptr⟩
  have hR := hH.image.users R (by simp [husers])
  have hs := hH.placed.sound R (by simp [husers])
  rw [hptr] at hfresh
  have hbase : R.base = base := hR.baseAddr.symm.trans hfresh.baseAddr
  have hsize : R.size = size := by
    exact_mod_cast hR.allocSize.symm.trans hfresh.allocSize
  subst hbase hsize
  rcases (hR.freshAt_iff hs).1 hfresh with ⟨x, hx, hhdr, hfree⟩
  refine ⟨us, R, vs, rfl, rfl, rfl, ⟨H, hH, husers⟩, ?_, [], x, hx, nofun, hfree, rfl⟩
  have hacc := hs.account
  have hcnt : R.count = 3 := by simp [Region.count, hx]
  rw [hx, hcnt, total_cons, total_nil] at hacc
  have harr := hs.arr_eq
  rw [hs.tiled_iff, hx]
  refine ⟨hhdr.symm, (Nat.le_add_right _ _).trans (Nat.le_add_right _ _), ?_⟩
  simp only [Tiles, Chunk.stop]
  omega

/-- **Full coalescing.** A fresh region serves some blocks, and they are all culled in any order.
The region is as it was created exactly if there were no blocks, or the one that was served first
was culled last. -/
theorem coalesces_iff (hH : HeapReady s h H) (hlo : 1 ≤ i) (hhi : i < nRegions s.mem h)
    (hfresh : FreshAt s.mem (regionPtr s.mem h i) base size)
    (hrun : Run (ServedFrom h i) s blocks t) (horder : order.Perm blocks) {m' : ByteMem}
    (hm : m' = cullAll t.mem h (order.map Prod.fst)) :
    FreshAt m' (regionPtr m' h i) base size ↔ blocks = [] ∨ order.getLast? = blocks.head? := by
  rcases hH.serves hlo hhi hfresh with ⟨us, R, vs, rfl, rfl, rfl, hserves⟩
  rcases hserves.run hrun with ⟨R', hbase, hsize, hh⟩
  rw [← hbase, ← hsize]
  exact hh.freshAt_culled_iff horder hm

/-- In a new heap the first region is fresh. -/
theorem freshAt_new_heap
    (hH : HeapReady s 4176 ⟨4096, 4096, 4096, [Region.fresh 16777216 4096]⟩) :
    1 < nRegions s.mem 4176 ∧ FreshAt s.mem (regionPtr s.mem 4176 1) 16777216 4096 := by
  have hmem : Region.fresh 16777216 4096 ∈ [Region.fresh 16777216 4096] := List.mem_singleton_self _
  refine ⟨(tail_new_heap hH).1 ▸ by decide, ?_⟩
  rw [hH.image.regionPtr_eq (k := 0) rfl]
  exact ((hH.image.users _ hmem).freshAt_iff (hH.placed.sound _ hmem)).2 ⟨_, rfl, rfl, rfl⟩

/-- Two blocks of 8 bytes from a new heap. -/
theorem served_new_heap
    (hH : HeapReady s 4176 ⟨4096, 4096, 4096, [Region.fresh 16777216 4096]⟩) :
    ∃ t, Run (ServedFrom 4176 1) s [(16777296, 8), (16777328, 8)] t := by
  let b : Chunk := ⟨16777272, 8, .reserved⟩
  have hblocks : (Region.fresh 16777216 4096).blocks = [] ++ [⟨16777272, 3968, .unallocated⟩] := rfl
  rcases hH.alloc_first (n := 8) rfl tiled_new_heap hblocks rfl (by decide) (by decide) with
    ⟨s1, _, halloc, hready1⟩
  have htiled1 : ∀ Q ∈ [Region.mk 16777216 4096 [b, ⟨16777304, 3928, .unallocated⟩]], Q.Tiled := by
    intro Q hQ
    rw [List.mem_singleton.1 hQ]
    simp [Region.Tiled, Region.pieces, Tiles, Region.infoChunk, Region.arrayChunk, Region.arr,
      Region.count, Chunk.stop, b]
  have hblocks1 : (Region.mk 16777216 4096 [b, ⟨16777304, 3928, .unallocated⟩]).blocks =
      [b] ++ [⟨16777304, 3928, .unallocated⟩] := rfl
  rcases hready1.alloc_first (n := 8) rfl htiled1 hblocks1 rfl (by decide) (by decide) with
    ⟨s2, _, halloc2, _⟩
  have hR := hH.image.users _ List.mem_cons_self
  have hR1 := hready1.image.users _ List.mem_cons_self
  refine ⟨s2, .cons ⟨hH.roomFor_first rfl hblocks rfl (by decide) (by decide), ⟨1, halloc⟩, ?_⟩
    (.single ⟨hready1.roomFor_first rfl hblocks1 rfl (by decide) (by decide), ⟨1, halloc2⟩, ?_⟩)⟩
  · rw [hH.image.regionPtr_eq (k := 0) rfl, hR.baseAddr, hR.allocSize]
    decide
  · rw [hready1.image.regionPtr_eq (k := 0) rfl, hR1.baseAddr, hR1.allocSize]
    decide

/-- The second block is culled first. -/
theorem coalesces_backwards : ∃ s t : Machine, Created 4096 4096 4176 s ∧
    FreshAt s.mem (regionPtr s.mem 4176 1) 16777216 4096 ∧
    Run (ServedFrom 4176 1) s [(16777296, 8), (16777328, 8)] t ∧
    ∃ m', m' = cullAll t.mem 4176 [16777328, 16777296] ∧
      FreshAt m' (regionPtr m' 4176 1) 16777216 4096 := by
  rcases exists_created with ⟨s, hcreated, hready, _⟩
  rcases freshAt_new_heap hready with ⟨hcnt, hfresh⟩
  rcases served_new_heap hready with ⟨t, hrun⟩
  have horder : [(16777328, 8), (16777296, 8)].Perm [(16777296, 8), (16777328, 8)] := .swap _ _ []
  refine ⟨s, t, hcreated, hfresh, hrun, _, rfl, ?_⟩
  exact (coalesces_iff hready (Nat.le_refl 1) hcnt hfresh hrun horder rfl).2 (.inr rfl)

/-- The blocks are culled in the order of their addresses: the region ends up with a tail that
begins where the second block did. -/
theorem coalesces_not_forwards : ∃ s t : Machine, Created 4096 4096 4176 s ∧
    FreshAt s.mem (regionPtr s.mem 4176 1) 16777216 4096 ∧
    Run (ServedFrom 4176 1) s [(16777296, 8), (16777328, 8)] t ∧
    ∃ m', m' = cullAll t.mem 4176 [16777296, 16777328] ∧
      ¬ FreshAt m' (regionPtr m' 4176 1) 16777216 4096 := by
  rcases exists_created with ⟨s, hcreated, hready, _⟩
  rcases freshAt_new_heap hready with ⟨hcnt, hfresh⟩
  rcases served_new_heap hready with ⟨t, hrun⟩
  refine ⟨s, t, hcreated, hfresh, hrun, _, rfl, ?_⟩
  rcases hready.serves (Nat.le_refl 1) hcnt hfresh with ⟨us, R, vs, hidx, hbase, hsize, hserves⟩
  obtain rfl : us = [] := List.length_eq_zero_iff.1 (by omega)
  rcases hserves.run hrun with ⟨R', hbase', hsize', hh⟩
  have hculled : cullAll t.mem 4176 [16777296, 16777328] = cullAll t.mem 4176
      (List.map Prod.fst [(16777296, 8), (16777328, 8)]) := rfl
  have hiff := hh.freshAt_culled_iff (.refl _) hculled
  rw [hbase', hsize', hbase, hsize] at hiff
  intro hagain
  exact absurd (hiff.1 hagain) (by decide)

end Memory
end EmbeddedOS
