import EmbeddedOS.Memory.HeapLayout
import EmbeddedOS.Memory.RegionTiling

/-!
# The searches of the heap

`cull` and `change` look a block up by its address, through every chunk of every region. Sound
regions that do not overlap give every chunk an address of its own, so the search ends at the
block that was meant. `alloc` looks for the first region whose tail has room.
-/

namespace EmbeddedOS
namespace Memory

open Base Base.ByteMem Stdlib

variable {m : ByteMem} {h i n ptr : Nat} {H : Heap} {us vs : List Region} {R : Region}
  {pre rs : List Chunk} {c : Chunk}

/-! ## Addresses -/

namespace Region

/-- The address of a chunk lies inside its region. -/
theorem Placed.addr_bounds (hp : R.Placed) (hc : c ∈ R.entries) :
    R.base ≤ c.addr ∧ c.addr < R.base + R.size := by
  have harr := hp.arr_eq
  have hcnt : 2 ≤ R.count := Nat.le_add_left _ _
  simp only [entries, List.mem_cons] at hc
  rcases hc with rfl | rfl | hc
  · simp only [arrayChunk, Chunk.addr]
    omega
  · simp only [infoChunk, Chunk.addr]
    omega
  · have hb := hp.header_bounds hc
    simp only [Chunk.addr]
    omega

/-- No chunk before a block has the address of the block. -/
theorem Placed.addr_ne (hp : R.Placed) (hb : R.blocks = pre ++ c :: rs) {j : Nat} {d : Chunk}
    (hj : j < pre.length + 2) (hd : R.entries[j]? = some d) : d.addr ≠ c.addr := by
  have hord := hp.ordered
  rw [hb] at hord
  have hsplit := hord.split
  have hlo := hsplit.1.le
  have hhi := hsplit.2.2.le
  have harr := hp.arr_eq
  match j with
  | 0 =>
      simp only [entries, List.getElem?_cons_zero, Option.some.injEq] at hd
      subst hd
      simp only [arrayChunk, Chunk.addr] at *
      omega
  | 1 =>
      simp only [entries, List.getElem?_cons_succ, List.getElem?_cons_zero, Option.some.injEq] at hd
      subst hd
      simp only [infoChunk, Chunk.addr] at *
      omega
  | j + 2 =>
      simp only [entries, List.getElem?_cons_succ, hb] at hd
      rw [List.getElem?_append_left (by omega)] at hd
      have hmem := hsplit.1.bounds (List.mem_of_getElem? hd)
      simp only [Chunk.addr] at *
      omega

end Region

/-! ## Finding a block -/

/-- The inner loop passes over chunks with other addresses. -/
theorem findChunk_skip {r left : Nat} {d j : Nat}
    (hno : ∀ x, x < d → chunkAddr m (chunkPtr m r (j + x : Nat)) ≠ ptr) :
    findChunk m r ptr (d + left) j = findChunk m r ptr left (j + d) := by
  induction d generalizing j with
  | zero => rw [Nat.zero_add, Nat.add_zero]
  | succ d ih =>
      have hhere := hno 0 (Nat.succ_pos d)
      rw [show d + 1 + left = (d + left) + 1 by omega, findChunk, if_neg (by simpa using hhere), ih]
      · congr 1
        omega
      · intro x hx
        rw [show j + 1 + x = j + (x + 1) by omega]
        exact hno (x + 1) (by omega)

theorem chunkAddr_entry (hR : RegionAt m R) {j : Nat} {d : Chunk} (hd : R.entries[j]? = some d) :
    chunkAddr m (chunkPtr m R.record j) = d.addr := by
  rw [hR.chunkPtr hd]
  exact (hR.header hd).addr

theorem entries_length : R.entries.length = R.count := rfl

theorem findChunk_found (hR : RegionAt m R) (hp : R.Placed) (hb : R.blocks = pre ++ c :: rs) :
    findChunk m R.record c.addr R.count 0 = (true, pre.length + 2) := by
  have hcnt : R.count = (pre.length + 2) + (rs.length + 1) := by
    simp [Region.count, hb]
    omega
  have hc : R.entries[pre.length + 2]? = some c := by
    simp [Region.entries, hb]
  rw [hcnt, findChunk_skip, findChunk, Nat.zero_add, if_pos (chunkAddr_entry hR hc)]
  intro x hx
  rw [Nat.zero_add]
  have hlt : x < R.entries.length := by
    rw [entries_length]
    omega
  have hd : R.entries[x]? = some R.entries[x] := List.getElem?_eq_getElem hlt
  rw [chunkAddr_entry hR hd]
  exact hp.addr_ne hb hx hd

theorem findChunk_missing (hR : RegionAt m R) (hno : ∀ d ∈ R.entries, d.addr ≠ ptr) :
    findChunk m R.record ptr R.count 0 = (false, R.count) := by
  have hskip : findChunk m R.record ptr (R.count + 0) 0
      = findChunk m R.record ptr 0 (0 + R.count) := findChunk_skip ?_
  · rw [Nat.add_zero, Nat.zero_add] at hskip
    rw [hskip, findChunk]
  · intro x hx
    rw [Nat.zero_add]
    have hlt : x < R.entries.length := hx
    have hd : R.entries[x]? = some R.entries[x] := List.getElem?_eq_getElem hlt
    rw [chunkAddr_entry hR hd]
    exact hno _ (List.mem_of_getElem? hd)

theorem HeapAt.regionPtr_eq (hH : HeapAt m h H) {k : Nat} (hk : H.users[k]? = some R) :
    regionPtr m h (k + 1) = R.record := by
  unfold Memory.regionPtr
  rw [hH.regions]
  exact hH.array (k + 1) _ (by simp [hk])

/-- The outer loop passes over regions without the address. -/
theorem findBlock_skip (hH : HeapAt m h H) (left : Nat) :
    ∀ {us vs : List Region} {k : Nat} (j : Nat), H.users.drop k = us ++ vs →
      (∀ Q ∈ us, ∀ d ∈ Q.entries, d.addr ≠ ptr) →
      ∃ j', findBlock m h ptr (us.length + left) (k + 1) j
        = findBlock m h ptr left (k + us.length + 1) j' := by
  intro us
  induction us with
  | nil =>
      intro vs k j _ _
      exact ⟨j, by simp⟩
  | cons Q us ih =>
      intro vs k j hdrop hno
      have hQ : H.users[k]? = some Q := by
        have := congrArg (fun l => l[0]?) hdrop
        simpa using this
      have hmem : Q ∈ H.users := List.mem_of_getElem? hQ
      have hdrop' : H.users.drop (k + 1) = us ++ vs := by
        have := congrArg List.tail hdrop
        simpa using this
      have hQm := hH.users Q hmem
      rcases ih Q.count hdrop' (fun P hP => hno P (List.mem_cons_of_mem Q hP)) with ⟨j', hj'⟩
      refine ⟨j', ?_⟩
      have hmiss := findChunk_missing hQm (hno Q List.mem_cons_self)
      have hcount : (nChunks m Q.record).toNat = Q.count := by
        rw [hQm.nChunks]
        rfl
      rw [List.length_cons, show us.length + 1 + left = (us.length + left) + 1 by omega, findBlock]
      simp only [hH.regionPtr_eq hQ, hcount, hmiss]
      rw [hj', show k + 1 + us.length + 1 = k + (us.length + 1) + 1 by omega]

/-- The search for a block of a heap ends at that block. -/
theorem findBlock_found (hH : HeapAt m h H) (hp : Picked H us R vs)
    (hb : R.blocks = pre ++ c :: rs) :
    findBlock m h c.addr (nRegions m h - 1).toNat 1 0 = (true, us.length + 1, pre.length + 2) := by
  have hlen : (nRegions m h - 1).toNat = us.length + (vs.length + 1) := by
    have hcnt : H.count = us.length + vs.length + 2 := by
      simp [Heap.count, hp.users]
      omega
    rw [hH.nRegions, hcnt]
    omega
  have hR := hH.users R hp.mem
  have hcR : c ∈ R.entries := by
    simp [Region.entries, hb]
  have hno : ∀ Q ∈ us, ∀ d ∈ Q.entries, d.addr ≠ c.addr := by
    intro Q hQ d hd
    have hQH : Q ∈ H.users := by
      rw [hp.users]
      simp [hQ]
    have h1 := (hp.placed.sound Q hQH).addr_bounds hd
    have h2 := hp.sound.addr_bounds hcR
    have h3 := hp.otherApart (.inl hQ)
    omega
  have hpick : H.users[us.length]? = some R := by
    simp [hp.users]
  have hdrop : H.users.drop 0 = us ++ (R :: vs) := hp.users
  rcases findBlock_skip hH (vs.length + 1) 0 hdrop hno with ⟨j', hj'⟩
  have hcount : (nChunks m R.record).toNat = R.count := by
    rw [hR.nChunks]
    rfl
  have hfound := findChunk_found hR hp.sound.toPlaced hb
  rw [hlen]
  rw [Nat.zero_add] at hj'
  rw [hj', findBlock, Nat.zero_add]
  simp only [hH.regionPtr_eq hpick, hcount, hfound]

/-! ## Finding room -/

/-- What the search for room returns passes the test. -/
theorem findRoom_sound : ∀ {left k : Nat}, findRoom m h n left k = some i →
    k ≤ i ∧ i < k + left ∧ fits m h i n = true := by
  intro left
  induction left with
  | zero =>
      intro k hfind
      simp [findRoom] at hfind
  | succ left ih =>
      intro k hfind
      rw [findRoom] at hfind
      by_cases hfit : fits m h k n = true
      · rw [if_pos hfit, Option.some.injEq] at hfind
        subst hfind
        exact ⟨Nat.le_refl _, by omega, hfit⟩
      · rw [if_neg hfit] at hfind
        have hrest := ih hfind
        exact ⟨by omega, by omega, hrest.2.2⟩

/-- If the search for room fails, every region fails the test. -/
theorem findRoom_complete : ∀ {left k : Nat}, findRoom m h n left k = none →
    ∀ i, k ≤ i → i < k + left → fits m h i n = false := by
  intro left
  induction left with
  | zero =>
      intro k _ i hlo hhi
      omega
  | succ left ih =>
      intro k hfind i hlo hhi
      rw [findRoom] at hfind
      by_cases hfit : fits m h k n = true
      · rw [if_pos hfit] at hfind
        cases hfind
      · rw [if_neg hfit] at hfind
        rcases Nat.eq_or_lt_of_le hlo with rfl | hlt
        · simpa using hfit
        · exact ih hfind i hlt (by omega)

/-- The search for room returns the first region that passes the test. -/
theorem findRoom_first : ∀ {left k : Nat}, k ≤ i → i < k + left → fits m h i n = true →
    (∀ x, k ≤ x → x < i → fits m h x n = false) → findRoom m h n left k = some i := by
  intro left
  induction left with
  | zero =>
      intro k hlo hhi
      omega
  | succ left ih =>
      intro k hlo hhi hfit hmiss
      rw [findRoom]
      rcases Nat.eq_or_lt_of_le hlo with rfl | hlt
      · rw [if_pos hfit]
      · rw [if_neg (by simp [hmiss k (Nat.le_refl _) hlt])]
        exact ih hlt (by omega) hfit fun x hx => hmiss x (Nat.le_of_succ_le hx)

section Tail

variable {t : Chunk}

theorem tailPtr_eq (hR : RegionAt m R) (hb : R.blocks = pre ++ [t])
    (hptr : regionPtr m h i = R.record) : tailPtr m h i = t.hdr ∧ HeaderAt m t := by
  have hentry : R.entries[pre.length + 2]? = some t := by
    simp [Region.entries, hb]
  have hcnt : R.count = pre.length + 3 := by
    simp [Region.count, hb]
  have hidx : ((pre.length + 3 : Nat) : Int) - 1 = (pre.length + 2 : Nat) := by omega
  refine ⟨?_, hR.header hentry⟩
  rw [tailPtr, hptr, hR.nChunks, hcnt, hidx, hR.chunkPtr hentry]

/-- The test of `alloc` compares the size of the tail with an `int`. -/
theorem fits_iff_i32 (hR : RegionAt m R) (hb : R.blocks = pre ++ [t]) (hfree : t.flag = .unallocated)
    (hptr : regionPtr m h i = R.record) : fits m h i n = true ↔ i32 ((n : Int) + 32) < t.size := by
  rcases tailPtr_eq hR hb hptr with ⟨htail, hhead⟩
  have hreq : (n : Int) + CHUNK_INFO_SIZE + CHUNK_ARR = n + 32 := by
    simp only [CHUNK_INFO_SIZE, CHUNK_ARR]
    omega
  rw [fits, htail, hhead.size, hhead.flag, hreq, hfree, Bool.and_eq_true, decide_eq_true_eq,
    decide_eq_true_eq]
  exact and_iff_left (by decide)

/-- The test of `alloc` looks at the size of the tail. -/
theorem fits_iff (hR : RegionAt m R) (hb : R.blocks = pre ++ [t]) (hfree : t.flag = .unallocated)
    (hptr : regionPtr m h i = R.record) (hn : n + 32 < 2147483648) :
    fits m h i n = true ↔ n + 32 < t.size := by
  rw [fits_iff_i32 hR hb hfree hptr, i32_of_range (by omega) (by omega)]
  omega

/-- A block of `n` bytes at the tail of region `i`, and a header behind it, end before the header
of the chunk array when the array comes a slot closer. -/
def TailClear (m : ByteMem) (h i n : Nat) : Prop :=
  chunkAddr m (tailPtr m h i) + n + 56 ≤ chunks m (regionPtr m h i)

/-- A region that passes the test of `alloc` has room, if its tail is clear of the chunk array. -/
theorem hasRoom_of_fits (hR : RegionAt m R) (hs : R.Sound) (hptr : regionPtr m h i = R.record)
    (hn : n + 32 < 2147483648) (hfit : fits m h i n = true) (hclear : TailClear m h i n) :
    ∃ pre t, HasRoom R pre t n := by
  rcases hs.tail with ⟨pre, t, hb, hfree⟩
  rcases tailPtr_eq hR hb hptr with ⟨htail, hhead⟩
  rw [TailClear, htail, hhead.addr, hptr, hR.chunks] at hclear
  exact ⟨pre, t, hb, hs, hfree, hclear, (fits_iff hR hb hfree hptr hn).1 hfit⟩

/-- In a tiled region the tail that passes the test is clear of the chunk array. -/
theorem tailClear_of_tiled (hR : RegionAt m R) (hs : R.Sound) (ht : R.Tiled)
    (hptr : regionPtr m h i = R.record) (hn : n + 32 < 2147483648) (hfit : fits m h i n = true) :
    TailClear m h i n := by
  rcases hs.tail with ⟨pre, t, hb, hfree⟩
  rcases tailPtr_eq hR hb hptr with ⟨htail, hhead⟩
  have hroom := (fits_iff hR hb hfree hptr hn).1 hfit
  have hstop := ht.tail_stop hb
  have harr := hs.arr_eq
  rw [TailClear, htail, hhead.addr, hptr, hR.chunks]
  simp only [Chunk.stop, Chunk.addr] at hstop ⊢
  omega

end Tail

end Memory
end EmbeddedOS
