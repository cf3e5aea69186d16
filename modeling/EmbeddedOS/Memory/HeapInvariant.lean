import EmbeddedOS.Memory.HeapGrowth
import EmbeddedOS.Memory.HeapSearch

/-!
# The invariant of the heap

No header lies in a block in use, and each block that was handed out and not culled yet is such a
block. Whoever holds a block may write into it.
-/

namespace EmbeddedOS
namespace Memory

open Base Base.ByteMem Stdlib

variable {m m' : ByteMem} {h i n : Nat} {H H' : Heap} {us vs : List Region} {R R' : Region}
  {s s' : Machine} {live : List (Nat × Nat)} {b : Nat × Nat}

/-! ## Blocks in use -/

/-- `b` is the address and the size of a block in use of `R`. -/
def Region.InUse (R : Region) (b : Nat × Nat) : Prop :=
  ∃ c ∈ R.blocks, c.flag = .reserved ∧ (c.addr, c.size) = b

/-- The pieces of every user region tile it. -/
def Heap.Tiled (H : Heap) : Prop := ∀ R ∈ H.users, R.Tiled

/-- The blocks of `live` are in use, and no header lies in a block in use. -/
structure HeapInv (h : Nat) (live : List (Nat × Nat)) (s : Machine) (H : Heap) : Prop where
  ready : HeapReady s h H
  fenced : ∀ R ∈ H.users, R.Fenced
  inUse : ∀ b ∈ live, ∃ R ∈ H.users, R.InUse b
  nodup : live.Nodup

/-- In a region the address of a chunk says which chunk it is. -/
theorem Region.Placed.block_unique (hp : R.Placed) {c d : Chunk} (hc : c ∈ R.blocks)
    (hd : d ∈ R.blocks) (heq : c.addr = d.addr) : c = d := by
  rcases List.append_of_mem hc with ⟨pre, rs, hb⟩
  have hord := hp.ordered
  rw [hb] at hord hd
  rcases List.mem_append.1 hd with hd | hd
  · have hbd := hord.split.1.bounds hd
    simp only [Chunk.addr] at hbd heq
    omega
  · rcases List.mem_cons.1 hd with rfl | hd
    · rfl
    · have hbd := hord.split.2.2.bounds hd
      simp only [Chunk.addr] at hbd heq
      omega

/-- In a heap the address of a chunk says in which region it is. -/
theorem HeapPlaced.addr_region (hP : HeapPlaced H) (husers : H.users = us ++ R :: vs) {Q : Region}
    (hQ : Q ∈ us ∨ Q ∈ vs) {c d : Chunk} (hc : c ∈ R.blocks) (hd : d ∈ Q.blocks) :
    c.addr ≠ d.addr := by
  have hp : Picked H us R vs := ⟨husers, hP⟩
  have hQH : Q ∈ H.users := by
    rw [husers]
    rcases hQ with hQ | hQ <;> simp [hQ]
  have hapart := hp.otherApart hQ
  have hcb := hp.sound.addr_bounds (List.mem_cons_of_mem _ (List.mem_cons_of_mem _ hc))
  have hdb := (hP.sound Q hQH).addr_bounds (List.mem_cons_of_mem _ (List.mem_cons_of_mem _ hd))
  omega

/-! ## Changing one region -/

theorem extents_replace (husers : H.users = us ++ R :: vs) (hbase : R'.base = R.base)
    (hsize : R'.size = R.size) : (H.withUsers (us ++ R' :: vs)).extents = H.extents := by
  simp [Heap.extents, Heap.withUsers, husers, hbase, hsize]

/-- A statement about every region survives if it holds of the new one. -/
theorem forall_replace {P : Region → Prop} (husers : H.users = us ++ R :: vs)
    (hall : ∀ Q ∈ H.users, P Q) (hP : P R') :
    ∀ Q ∈ (H.withUsers (us ++ R' :: vs)).users, P Q := by
  rw [husers] at hall
  intro Q hQ
  rcases List.mem_append.1 hQ with hQ | hQ
  · exact hall Q (List.mem_append_left _ hQ)
  · rcases List.mem_cons.1 hQ with rfl | hQ
    · exact hP
    · exact hall Q (List.mem_append_right _ (List.mem_cons_of_mem _ hQ))

theorem HeapReady.replace (hr : HeapReady s h H) (husers : H.users = us ++ R :: vs)
    (hw : WritesOnly s.mem m' R.base (R.base + R.size)) (hR : RegionAt m' R')
    (hbase : R'.base = R.base) (hsize : R'.size = R.size) (hs : R'.Sound) :
    HeapReady { s with mem := m' } h (H.withUsers (us ++ R' :: vs)) := by
  have hP := hr.placed
  have hext := extents_replace husers hbase hsize
  have hcnt : (H.withUsers (us ++ R' :: vs)).count = H.count := by
    simp [Heap.count, Heap.withUsers, husers]
  refine ⟨hr.pages.withMem m', hr.image.write ⟨husers, hP⟩ hw hR hbase, ⟨hP.small, hP.addressable,
    by rw [hcnt]; exact hP.room, by rw [hext]; exact hP.apart,
    forall_replace husers hP.sound hs⟩, ?_⟩
  · rw [hext]
    exact fun x hx => (hr.owned x hx).withMem m'

/-- A region in the place of another one keeps the invariant for blocks in use in it or beside
it. -/
theorem HeapInv.replace {live' : List (Nat × Nat)} (hinv : HeapInv h live s H)
    (husers : H.users = us ++ R :: vs)
    (hready : HeapReady { s with mem := m' } h (H.withUsers (us ++ R' :: vs))) (hf : R'.Fenced)
    (hlive : ∀ b ∈ live', R'.InUse b ∨ ∃ Q, (Q ∈ us ∨ Q ∈ vs) ∧ Q.InUse b)
    (hnodup : live'.Nodup) :
    HeapInv h live' { s with mem := m' } (H.withUsers (us ++ R' :: vs)) := by
  refine ⟨hready, forall_replace husers hinv.fenced hf, ?_, hnodup⟩
  · intro b hb
    rcases hlive b hb with huse | ⟨Q, hQ, huse⟩
    · exact ⟨R', by simp [Heap.withUsers], huse⟩
    · refine ⟨Q, ?_, huse⟩
      rcases hQ with hQ | hQ <;> simp [Heap.withUsers, hQ]

/-- A block in use is a chunk of one of the regions. -/
theorem HeapInv.pick (hinv : HeapInv h live s H) (hb : b ∈ live) :
    ∃ us R vs pre c rs, H.users = us ++ R :: vs ∧ R.blocks = pre ++ c :: rs ∧
      c.flag = .reserved ∧ (c.addr, c.size) = b := by
  rcases hinv.inUse b hb with ⟨R, hR, c, hc, hflag, hcb⟩
  rcases List.append_of_mem hR with ⟨us, vs, husers⟩
  rcases List.append_of_mem hc with ⟨pre, rs, hblocks⟩
  exact ⟨us, R, vs, pre, c, rs, husers, hblocks, hflag, hcb⟩

/-- Another block in use lies in another region or is another chunk. -/
theorem HeapInv.other {d : Nat × Nat} {c : Chunk} (hinv : HeapInv h live s H) (hd : d ∈ live)
    (husers : H.users = us ++ R :: vs) (hc : c ∈ R.blocks) (hne : d ≠ (c.addr, c.size)) :
    (∃ e ∈ R.blocks, e.flag = .reserved ∧ (e.addr, e.size) = d ∧ e ≠ c) ∨
      ∃ Q, (Q ∈ us ∨ Q ∈ vs) ∧ Q.InUse d := by
  rcases hinv.inUse d hd with ⟨Q, hQ, e, he, hflag, hed⟩
  rw [husers] at hQ
  rcases List.mem_append.1 hQ with hQ | hQ
  · exact .inr ⟨Q, .inl hQ, e, he, hflag, hed⟩
  · rcases List.mem_cons.1 hQ with rfl | hQ
    · refine .inl ⟨e, he, hflag, hed, ?_⟩
      rintro rfl
      exact hne hed.symm
    · exact .inr ⟨Q, .inr hQ, e, he, hflag, hed⟩

/-! ## Writing into a block -/

/-- The payload of a block in use lies between the headers around it. -/
theorem Region.Sound.payload (hs : R.Sound) (hf : R.Fenced) {pre rs : List Chunk} {c : Chunk}
    (hb : R.blocks = pre ++ c :: rs) (hflag : c.flag = .reserved) :
    R.base + 56 ≤ c.hdr ∧ c.stop + 48 ≤ R.arr ∧ (∀ d ∈ pre, d.addr ≤ c.hdr) ∧
      ∀ d ∈ rs, c.stop ≤ d.hdr := by
  have harr := hs.arr_eq
  have hord := hs.ordered
  rw [hb] at hord
  have hsplit := hord.split
  have hafter : ∀ d ∈ rs, c.stop ≤ d.hdr := by
    unfold Region.Fenced at hf
    rw [hb, List.pairwise_append, List.pairwise_cons] at hf
    exact fun d hd => hf.2.1.1 d hd hflag
  refine ⟨hsplit.1.le, ?_, fun d hd => (hsplit.1.bounds hd).2.2, hafter⟩
  -- The tail follows.
  rcases List.exists_mem_of_ne_nil rs (hs.after_reserved hb hflag) with ⟨d, hd⟩
  have hstop := hafter d hd
  have hdb := hsplit.2.2.bounds hd
  have haddr : d.addr = d.hdr + 24 := rfl
  omega

/-- A block in use lies between the region record and the header of the chunk array. -/
theorem Region.Sound.inUse_bounds (hs : R.Sound) (hf : R.Fenced) (hc : c ∈ R.blocks)
    (hflag : c.flag = .reserved) : R.base + 56 ≤ c.hdr ∧ c.stop + 48 ≤ R.arr := by
  rcases List.append_of_mem hc with ⟨pre, rs, hb⟩
  rcases hs.payload hf hb hflag with ⟨hlo, hhi, _⟩
  exact ⟨hlo, hhi⟩

/-- A block in use and another chunk have neither header nor block in common. -/
theorem Region.Sound.inUse_apart (hs : R.Sound) (hf : R.Fenced) (hc : c ∈ R.blocks)
    (hflag : c.flag = .reserved) (hd : d ∈ R.blocks) (hne : d ≠ c) :
    c.stop ≤ d.hdr ∨ d.addr ≤ c.hdr ∧ (d.flag = .reserved → d.stop ≤ c.hdr) := by
  rcases List.append_of_mem hc with ⟨pre, rs, hb⟩
  rcases hs.payload hf hb hflag with ⟨_, _, hbefore, hafter⟩
  unfold Region.Fenced at hf
  rw [hb] at hd hf
  rcases List.mem_append.1 hd with hd | hd
  · exact .inr ⟨hbefore d hd, (List.pairwise_append.1 hf).2.2 d hd c List.mem_cons_self⟩
  · rcases List.mem_cons.1 hd with rfl | hd
    · exact absurd rfl hne
    · exact .inl (hafter d hd)

/-- No bookkeeping lies in a block in use. -/
theorem Region.Sound.bookkeeping_apart (hs : R.Sound) (hf : R.Fenced) {c : Chunk}
    (hc : c ∈ R.blocks) (hflag : c.flag = .reserved) {x : Nat} (hx : R.Bookkeeping x) :
    x < c.addr ∨ c.stop ≤ x := by
  have hb := hs.inUse_bounds hf hc hflag
  have harr := hs.arr_eq
  have haddr : c.addr = c.hdr + 24 := rfl
  rcases hx with hx | hx | ⟨d, hd, hx⟩
  · omega
  · omega
  · by_cases heq : d = c
    · subst heq
      omega
    · have hapart := hs.inUse_apart hf hc hflag hd heq
      omega

/-- A write into a block in use leaves the bookkeeping of its region alone. -/
theorem RegionAt.payload {pre rs : List Chunk} {c : Chunk} (hR : RegionAt m R) (hs : R.Sound)
    (hf : R.Fenced) (hb : R.blocks = pre ++ c :: rs) (hflag : c.flag = .reserved)
    (hw : WritesOnly m m' c.addr c.stop) : RegionAt m' R := by
  have harr := hs.arr_eq
  have hrec : R.record = R.base + 24 := rfl
  have hlen : (R.entries.map Chunk.hdr).length = R.count := by
    simp [Region.entries, Region.count]
  rcases hs.payload hf hb hflag with ⟨hlo, hhi, hbefore, hafter⟩
  have haddr : c.addr = c.hdr + 24 := rfl
  have hstop : c.addr ≤ c.stop := Nat.le_add_right _ _
  have hagree := fun lo hi => @WritesOnly.agreeOn m m' c.addr c.stop lo hi hw
  refine ⟨?_, ?_, ?_, ?_, ?_, ?_, ?_⟩
  · exact (loadInt_congr (hagree R.record _ (by omega))).trans hR.allocSize
  · exact (loadInt_congr (hagree (R.record + 4) _ (by omega))).trans hR.usedSize
  · exact (loadInt_congr (hagree (R.record + 8) _ (by omega))).trans hR.nChunks
  · exact (loadPtr_congr (hagree (R.record + 16) _ (by omega))).trans hR.baseAddr
  · exact (loadPtr_congr (hagree (R.record + 24) _ (by omega))).trans hR.chunks
  · refine hR.array.frame (hagree _ _ ?_)
    omega
  · intro d hd
    refine (hR.headers d hd).frame (hagree _ _ ?_)
    simp only [Region.entries, List.mem_cons, hb, List.mem_append] at hd
    rcases hd with rfl | rfl | hd | rfl | hd
    · simp only [Region.arrayChunk]
      omega
    · simp only [Region.infoChunk, Chunk.addr] at haddr ⊢
      omega
    · have hle := hbefore d hd
      omega
    · simp only [Chunk.addr]
      omega
    · have hle := hafter d hd
      omega

/-- Two blocks in use lie beside each other. -/
theorem HeapInv.noOverlap {b' : Nat × Nat} (hinv : HeapInv h live s H) (hb : b ∈ live)
    (hb' : b' ∈ live) (hne : b ≠ b') : NoOverlap b b' := by
  rcases hinv.pick hb with ⟨us, R, vs, pre, c, rs, husers, hblocks, hflag, rfl⟩
  have hp : Picked H us R vs := ⟨husers, hinv.ready.placed⟩
  have hc : c ∈ R.blocks := by simp [hblocks]
  have hf := hinv.fenced R hp.mem
  have hcb := hp.sound.inUse_bounds hf hc hflag
  have haddr : c.addr = c.hdr + 24 := rfl
  have hstop : c.stop = c.hdr + 24 + c.size := rfl
  have harr := hp.sound.arr_eq
  rcases hinv.other hb' husers hc (Ne.symm hne) with ⟨d, hd, hdflag, rfl, hdc⟩ | ⟨Q, hQ, d, hd, hdflag, rfl⟩
  · have hapart := hp.sound.inUse_apart hf hc hflag hd hdc
    simp only [hdflag, forall_const] at hapart
    have hdaddr : d.addr = d.hdr + 24 := rfl
    have hdstop : d.stop = d.hdr + 24 + d.size := rfl
    simp only [NoOverlap]
    omega
  · have hapart := hp.otherApart hQ
    have hQH : Q ∈ H.users := by
      rw [husers]
      rcases hQ with hQ | hQ <;> simp [hQ]
    have hsQ := hinv.ready.placed.sound Q hQH
    have hdb := hsQ.inUse_bounds (hinv.fenced Q hQH) hd hdflag
    have harrQ := hsQ.arr_eq
    have hdaddr : d.addr = d.hdr + 24 := rfl
    have hdstop : d.stop = d.hdr + 24 + d.size := rfl
    simp only [NoOverlap]
    omega

/-- The blocks of `live` hold the same bytes in both memories. -/
def SameBlocks (m m' : ByteMem) (live : List (Nat × Nat)) : Prop :=
  ∀ b ∈ live, AgreeOn m' m b.1 (b.1 + b.2)

theorem SameBlocks.trans {m'' : ByteMem} (h : SameBlocks m m' live) (h' : SameBlocks m' m'' live) :
    SameBlocks m m'' live := by
  intro b hb
  exact (h' b hb).trans (h b hb)

/-- A write to one region that spares the blocks in use there spares all blocks in use. -/
theorem HeapInv.spares {P : Nat → Prop} {live' : List (Nat × Nat)} (hinv : HeapInv h live s H)
    (husers : H.users = us ++ R :: vs) (hw : WritesWithin s.mem m' P)
    (hin : ∀ x, P x → R.base ≤ x ∧ x < R.base + R.size)
    (hspare : ∀ c ∈ R.blocks, c.flag = .reserved → ∀ x, P x → x < c.addr ∨ c.stop ≤ x)
    (hsub : live' ⊆ live) : SameBlocks s.mem m' live' := by
  intro b hb
  rcases hinv.inUse b (hsub hb) with ⟨Q, hQ, c, hc, hflag, rfl⟩
  have hp : Picked H us R vs := ⟨husers, hinv.ready.placed⟩
  have hbeside : Q ∈ us ∨ Q ∈ vs → AgreeOn m' s.mem c.addr (c.addr + c.size) := by
    intro hother
    have hapart := hp.otherApart hother
    have hsQ := hinv.ready.placed.sound Q hQ
    have hcb := hsQ.inUse_bounds (hinv.fenced Q hQ) hc hflag
    have harr := hsQ.arr_eq
    refine (hw.writesOnly hin).agreeOn ?_
    simp only [Chunk.addr, Chunk.stop] at hcb ⊢
    omega
  have hQ' := hQ
  rw [husers, List.mem_append, List.mem_cons] at hQ'
  rcases hQ' with hQ' | rfl | hQ'
  · exact hbeside (.inl hQ')
  · exact hw.agreeOn (hspare c hc hflag)
  · exact hbeside (.inr hQ')

/-- Whoever holds a block may write to it. -/
theorem HeapInv.written (hinv : HeapInv h live s H) (hb : b ∈ live)
    (hw : WritesOnly s.mem m' b.1 (b.1 + b.2)) :
    HeapInv h live { s with mem := m' } H ∧ SameBlocks s.mem m' (live.erase b) := by
  refine ⟨?_, fun d hd => ?_⟩
  swap
  · rcases hinv.nodup.mem_erase_iff.1 hd with ⟨hne, hd⟩
    have hapart := hinv.noOverlap hb hd (Ne.symm hne)
    unfold NoOverlap at hapart
    exact hw.agreeOn (by omega)
  rcases hinv.pick hb with ⟨us, R, vs, pre, c, rs, husers, hblocks, hflag, rfl⟩
  have hRmem : R ∈ H.users := by simp [husers]
  have hs := hinv.ready.placed.sound R hRmem
  have hf := hinv.fenced R hRmem
  have hbounds := hs.payload hf hblocks hflag
  have harr := hs.arr_eq
  have haddr : c.addr = c.hdr + 24 := rfl
  have hready := hinv.ready.replace husers (hw.mono (by omega) (by simp only [Chunk.stop] at *; omega))
    ((hinv.ready.image.users R hRmem).payload hs hf hblocks hflag hw) rfl rfl hs
  have hsame : H.withUsers (us ++ R :: vs) = H := by
    rw [← husers]
    rfl
  rw [hsame] at hready
  exact ⟨hready, hinv.fenced, hinv.inUse, hinv.nodup⟩

end Memory
end EmbeddedOS
