import EmbeddedOS.Base.Tiling
import EmbeddedOS.Memory.Malloc

/-!
# Regions as lists of chunks

A region is described by its extent and the list of the chunks between the region record and the
chunk array. `RegionAt m R` says that the memory holds exactly the bookkeeping of `R`. Two
conditions on `R` matter: `Sound` (headers in order, sizes adding up), which every operation
keeps, and `Tiled` (the pieces cover the region), which a merge on both sides breaks.
-/

namespace EmbeddedOS
namespace Memory

open Base Base.ByteMem

/-! ## Chunks and regions -/

inductive Flag where
  | unallocated
  | reserved
  | culled
  deriving DecidableEq, Repr

def Flag.code : Flag → Int
  | .unallocated => UNALLOCATED
  | .reserved => RESERVED
  | .culled => CULLED

/-- A header at `hdr` and the payload right after it. -/
structure Chunk where
  hdr : Nat
  size : Nat
  flag : Flag
  deriving DecidableEq, Repr

namespace Chunk

def addr (c : Chunk) : Nat := c.hdr + 24

def stop (c : Chunk) : Nat := c.hdr + 24 + c.size

/-- The chunk that a merge of `a` and `b` leaves at `hdr`. -/
def merged (hdr : Nat) (a b : Chunk) : Chunk :=
  { hdr := hdr, size := a.size + 24 + b.size, flag := .unallocated }

/-- The tail gains the array slot that a merge frees. -/
def grow (c : Chunk) : Chunk := { c with size := c.size + 8 }

end Chunk

/-- The bytes that the pieces of `l` account for. -/
def total (l : List Chunk) : Nat := (l.map (fun c => c.size + 24)).sum

/-- What the blocks of `l` in use add to `used_size`. -/
def usedBy (l : List Chunk) : Nat :=
  ((l.filter (fun c => c.flag = .reserved)).map
    (fun c => c.size + 24 + 8)).sum

/-- A user region; `blocks` are the chunks from `chunks[2]` on. -/
structure Region where
  base : Nat
  size : Nat
  blocks : List Chunk

namespace Region

def count (R : Region) : Nat := R.blocks.length + 2

/-- Address of the `region_t`. -/
def record (R : Region) : Nat := R.base + 24

/-- Address of the chunk array. -/
def arr (R : Region) : Nat := R.base + R.size - 8 * R.count

def used (R : Region) : Nat := 128 + usedBy R.blocks

def arrayChunk (R : Region) : Chunk :=
  { hdr := R.arr - 24, size := 8 * R.count, flag := .reserved }

def infoChunk (R : Region) : Chunk :=
  { hdr := R.base, size := 32, flag := .reserved }

/-- The chunks in the order of the chunk array. -/
def entries (R : Region) : List Chunk := R.arrayChunk :: R.infoChunk :: R.blocks

/-- The chunks in the order of their addresses. -/
def pieces (R : Region) : List Chunk := R.infoChunk :: R.blocks ++ [R.arrayChunk]

/-- The headers lie in order between the region record and the chunk array. -/
structure Placed (R : Region) : Prop where
  small : R.size < 2147483648
  addressable : R.base + R.size < 18446744073709551616
  room : 8 * R.count + 80 ≤ R.size
  ordered : Ascends Chunk.hdr Chunk.addr (R.base + 56) R.blocks (R.arr - 24)

/-- What every operation keeps: the headers are in order, the sizes add up to the size of the
region, and the last chunk is the unallocated tail. -/
structure Sound (R : Region) : Prop extends Placed R where
  account : total R.blocks + 8 * R.count + 80 = R.size
  tail : ∃ pre t, R.blocks = pre ++ [t] ∧ t.flag = .unallocated

/-- The pieces cover the region, with no gap and no overlap. -/
def Tiled (R : Region) : Prop :=
  Tiles Chunk.hdr Chunk.stop R.base R.pieces (R.base + R.size)

/-- Address `x` belongs to the bookkeeping: to the region record, to a header or to the chunk
array. -/
def Bookkeeping (R : Region) (x : Nat) : Prop :=
  (R.base ≤ x ∧ x < R.base + 56) ∨ (R.arr - 24 ≤ x ∧ x < R.base + R.size) ∨
    ∃ c ∈ R.blocks, c.hdr ≤ x ∧ x < c.addr

/-- The region that `initUserRegion` lays out. -/
def fresh (base size : Nat) : Region :=
  { base := base, size := size
    blocks := [{ hdr := base + 56, size := size - 128, flag := .unallocated }] }

/-- `R` with the blocks `l`. -/
def withBlocks (R : Region) (l : List Chunk) : Region := { R with blocks := l }

section WithBlocks

variable {R : Region}

@[simp] theorem withBlocks_base (l : List Chunk) : (R.withBlocks l).base = R.base := rfl
@[simp] theorem withBlocks_size (l : List Chunk) : (R.withBlocks l).size = R.size := rfl
@[simp] theorem withBlocks_record (l : List Chunk) :
    (R.withBlocks l).record = R.record := rfl
@[simp] theorem withBlocks_blocks (l : List Chunk) : (R.withBlocks l).blocks = l := rfl

end WithBlocks

end Region

/-! ## Sizes -/

@[simp] theorem total_nil : total [] = 0 := rfl

@[simp] theorem total_cons (c : Chunk) (l : List Chunk) :
    total (c :: l) = c.size + 24 + total l := by
  simp [total]

@[simp] theorem total_append (l l' : List Chunk) : total (l ++ l') = total l + total l' := by
  simp [total]

@[simp] theorem usedBy_nil : usedBy [] = 0 := rfl

theorem usedBy_cons (c : Chunk) (l : List Chunk) :
    usedBy (c :: l) = (if c.flag = .reserved then c.size + 32 else 0) + usedBy l := by
  by_cases h : c.flag = .reserved
  · simp [usedBy, h]
  · simp [usedBy, h]

@[simp] theorem usedBy_append (l l' : List Chunk) :
    usedBy (l ++ l') = usedBy l + usedBy l' := by
  simp [usedBy]

theorem size_le_total {c : Chunk} {l : List Chunk} (h : c ∈ l) : c.size + 24 ≤ total l := by
  rcases List.append_of_mem h with ⟨pre, post, rfl⟩
  simp only [total_append, total_cons]
  omega

/-- Each block in use has one slot of the chunk array for itself. -/
theorem usedBy_le (l : List Chunk) : usedBy l ≤ total l + 8 * l.length := by
  induction l with
  | nil => simp
  | cons c l ih =>
      rw [usedBy_cons, total_cons, List.length_cons]
      split <;> omega

/-! ## The tail -/

/-- The last chunk gains one array slot. -/
def growLast : List Chunk → List Chunk
  | [] => []
  | [c] => [c.grow]
  | c :: d :: l => c :: growLast (d :: l)

@[simp] theorem growLast_concat (l : List Chunk) (t : Chunk) :
    growLast (l ++ [t]) = l ++ [t.grow] := by
  induction l with
  | nil => rfl
  | cons c l ih =>
      cases l with
      | nil => rfl
      | cons d l => simpa [growLast] using ih

theorem growLast_cons {l : List Chunk} (c : Chunk) (h : l ≠ []) :
    growLast (c :: l) = c :: growLast l := by
  cases l with
  | nil => exact absurd rfl h
  | cons d l => rfl

@[simp] theorem growLast_length (l : List Chunk) : (growLast l).length = l.length := by
  rcases List.eq_nil_or_concat l with rfl | ⟨pre, t, rfl⟩
  · rfl
  · simp

theorem growLast_hdrs (l : List Chunk) : (growLast l).map Chunk.hdr = l.map Chunk.hdr := by
  rcases List.eq_nil_or_concat l with rfl | ⟨pre, t, rfl⟩
  · rfl
  · simp [Chunk.grow]

theorem total_growLast {l : List Chunk} (h : l ≠ []) : total (growLast l) = total l + 8 := by
  rcases List.eq_nil_or_concat l with rfl | ⟨pre, t, rfl⟩
  · exact absurd rfl h
  · simp [Chunk.grow]
    omega

/-! ## Where the parts lie -/

namespace Region

variable {R : Region}

theorem Placed.arr_eq (hp : R.Placed) :
    R.arr + 8 * R.count = R.base + R.size ∧ R.base + 80 ≤ R.arr := by
  have := hp.room
  unfold arr
  omega

theorem Placed.header_bounds (hp : R.Placed) {c : Chunk} (hc : c ∈ R.blocks) :
    R.base + 56 ≤ c.hdr ∧ c.hdr + 48 ≤ R.arr := by
  have hb := hp.ordered.bounds hc
  have harr := hp.arr_eq
  simp only [Chunk.addr] at hb
  omega

theorem Placed.bookkeeping_bounds (hp : R.Placed) {x : Nat} (hx : R.Bookkeeping x) :
    R.base ≤ x ∧ x < R.base + R.size := by
  have harr := hp.arr_eq
  rcases hx with hx | hx | ⟨c, hc, hx⟩
  · omega
  · omega
  · have hb := hp.header_bounds hc
    simp only [Chunk.addr] at hx
    omega

/-- With fewer chunks at old headers there is no new bookkeeping. -/
theorem Bookkeeping.of_withBlocks {l : List Chunk} {x : Nat} (hlen : l.length ≤ R.blocks.length)
    (hsub : l.map Chunk.hdr ⊆ R.blocks.map Chunk.hdr) (hx : (R.withBlocks l).Bookkeeping x) :
    R.Bookkeeping x := by
  have harr : R.arr ≤ (R.withBlocks l).arr := by
    simp only [arr, count, withBlocks_base, withBlocks_size, withBlocks_blocks]
    omega
  rcases hx with hx | hx | ⟨c, hc, hx⟩
  · exact .inl hx
  · exact .inr (.inl ⟨by omega, hx.2⟩)
  · rcases List.mem_map.1 (hsub (List.mem_map_of_mem hc)) with ⟨d, hd, hdc⟩
    refine .inr (.inr ⟨d, hd, ?_⟩)
    rw [Chunk.addr, hdc]
    exact hx

/-- Writes to the bookkeeping stay inside the region. -/
theorem Placed.writesOnly (hp : R.Placed) {m m' : ByteMem} (hw : WritesWithin m m' R.Bookkeeping) :
    WritesOnly m m' R.base (R.base + R.size) :=
  hw.writesOnly fun _ => hp.bookkeeping_bounds

/-- The blocks in use and the metadata fit into the region. -/
theorem Sound.used_le (hs : R.Sound) : R.used ≤ R.size := by
  rcases hs.tail with ⟨pre, t, hts, hfree⟩
  have hle := usedBy_le pre
  have hacc := hs.account
  simp only [Region.used, Region.count, hts, usedBy_append, usedBy_cons, usedBy_nil, total_append,
    total_cons, total_nil, List.length_append, List.length_cons, List.length_nil, hfree,
    reduceCtorEq, if_false] at hacc ⊢
  generalize usedBy pre = u at hle ⊢
  generalize total pre = v at hle hacc
  omega

end Region

/-! ## The image of a region in memory -/

/-- The header of `c` is in memory. -/
structure HeaderAt (m : ByteMem) (c : Chunk) : Prop where
  size : chunkSize m c.hdr = c.size
  flag : chunkFlag m c.hdr = c.flag.code
  addr : chunkAddr m c.hdr = c.addr

/-- The pointers `l` are stored one after another from `a` on. -/
def PointersAt (m : ByteMem) (a : Nat) (l : List Nat) : Prop :=
  ∀ k v, l[k]? = some v → loadPtr m (a + 8 * k) = v

/-- The memory holds the bookkeeping of `R`. -/
structure RegionAt (m : ByteMem) (R : Region) : Prop where
  allocSize : allocSize m R.record = R.size
  usedSize : usedSize m R.record = R.used
  nChunks : nChunks m R.record = R.count
  baseAddr : baseAddr m R.record = R.base
  chunks : chunks m R.record = R.arr
  array : PointersAt m R.arr (R.entries.map Chunk.hdr)
  headers : ∀ c ∈ R.entries, HeaderAt m c

/-- The memory holds the bookkeeping of `R`, whatever `used_size` says. -/
structure RegionShape (m : ByteMem) (R : Region) : Prop where
  allocSize : Memory.allocSize m R.record = R.size
  nChunks : Memory.nChunks m R.record = R.count
  baseAddr : Memory.baseAddr m R.record = R.base
  chunks : Memory.chunks m R.record = R.arr
  array : PointersAt m R.arr (R.entries.map Chunk.hdr)
  headers : ∀ c ∈ R.entries, HeaderAt m c

theorem RegionAt.shape {m : ByteMem} {R : Region} (h : RegionAt m R) : RegionShape m R :=
  ⟨h.allocSize, h.nChunks, h.baseAddr, h.chunks, h.array, h.headers⟩

theorem RegionShape.used {m : ByteMem} {R : Region} (h : RegionShape m R)
    (hused : usedSize m R.record = R.used) : RegionAt m R :=
  ⟨h.allocSize, hused, h.nChunks, h.baseAddr, h.chunks, h.array, h.headers⟩

namespace HeaderAt

variable {m m' : ByteMem} {c : Chunk}

theorem frame (h : HeaderAt m c) (ha : AgreeOn m' m c.hdr c.addr) : HeaderAt m' c := by
  simp only [Chunk.addr] at ha
  refine ⟨?_, ?_, ?_⟩
  · exact (loadInt_congr (ha.mono (Nat.le_refl _) (by omega))).trans h.size
  · exact (loadInt_congr (ha.mono (by omega) (by omega))).trans h.flag
  · exact (loadPtr_congr (ha.mono (by omega) (by omega))).trans h.addr

end HeaderAt

namespace PointersAt

variable {m m' : ByteMem} {a : Nat} {l l' : List Nat}

@[simp] theorem nil : PointersAt m a [] := by
  intro k v h
  simp at h

theorem cons_iff {v : Nat} :
    PointersAt m a (v :: l) ↔ loadPtr m a = v ∧ PointersAt m (a + 8) l := by
  constructor
  · intro h
    refine ⟨by simpa using h 0 v (by simp), ?_⟩
    intro k w hk
    have := h (k + 1) w (by simpa using hk)
    rwa [show a + 8 * (k + 1) = a + 8 + 8 * k by omega] at this
  · rintro ⟨h0, h⟩ k w hk
    cases k with
    | zero => simpa [h0] using hk
    | succ k =>
        rw [show a + 8 * (k + 1) = a + 8 + 8 * k by omega]
        exact h k w (by simpa using hk)

theorem append_iff :
    PointersAt m a (l ++ l') ↔ PointersAt m a l ∧ PointersAt m (a + 8 * l.length) l' := by
  induction l generalizing a with
  | nil => simp
  | cons v l ih =>
      rw [List.cons_append, cons_iff, ih, cons_iff, and_assoc, List.length_cons,
        show a + 8 * (l.length + 1) = a + 8 + 8 * l.length by omega]

theorem frame (h : PointersAt m a l) (ha : AgreeOn m' m a (a + 8 * l.length)) :
    PointersAt m' a l := by
  intro k v hk
  have hlt : k < l.length := (List.getElem?_eq_some_iff.1 hk).1
  rw [← h k v hk]
  exact loadPtr_congr (ha.mono (by omega) (by omega))

/-- The pointers move with the bytes. -/
theorem copied {d s n x : Nat} (h : PointersAt m (s + x) l) (hn : x + 8 * l.length ≤ n) :
    PointersAt (copy m d s n) (d + x) l := by
  intro k v hk
  have hlt : k < l.length := (List.getElem?_eq_some_iff.1 hk).1
  rw [← h k v hk]
  unfold loadPtr
  rw [load_copy_inside (by omega) (by omega)]
  congr 1
  omega

end PointersAt

namespace RegionShape

variable {m : ByteMem} {R : Region}

theorem entry (h : RegionShape m R) {j : Nat} {c : Chunk} (hc : R.entries[j]? = some c) :
    loadPtr m (R.arr + 8 * j) = c.hdr :=
  h.array j c.hdr (by simp [hc])

theorem header (h : RegionShape m R) {j : Nat} {c : Chunk} (hc : R.entries[j]? = some c) :
    HeaderAt m c :=
  h.headers c (List.mem_of_getElem? hc)

theorem chunkPtr (h : RegionShape m R) {j : Nat} {c : Chunk} (hc : R.entries[j]? = some c) :
    chunkPtr m R.record j = c.hdr := by
  unfold Memory.chunkPtr entryAddr
  rw [h.chunks, ← h.entry hc]
  congr 1

end RegionShape

namespace RegionAt

variable {m m' : ByteMem} {R : Region}

theorem entry (h : RegionAt m R) {j : Nat} {c : Chunk} (hc : R.entries[j]? = some c) :
    loadPtr m (R.arr + 8 * j) = c.hdr :=
  h.shape.entry hc

theorem header (h : RegionAt m R) {j : Nat} {c : Chunk} (hc : R.entries[j]? = some c) :
    HeaderAt m c :=
  h.shape.header hc

theorem chunkPtr (h : RegionAt m R) {j : Nat} {c : Chunk} (hc : R.entries[j]? = some c) :
    chunkPtr m R.record j = c.hdr :=
  h.shape.chunkPtr hc

/-- Only the bytes of the region matter. -/
theorem frame (h : RegionAt m R) (hp : R.Placed)
    (ha : AgreeOn m' m R.base (R.base + R.size)) : RegionAt m' R := by
  have harr := hp.arr_eq
  have hrec : R.record = R.base + 24 := rfl
  refine ⟨?_, ?_, ?_, ?_, ?_, ?_, ?_⟩
  · exact (loadInt_congr (ha.mono (by omega) (by omega))).trans h.allocSize
  · exact (loadInt_congr (ha.mono (by omega) (by omega))).trans h.usedSize
  · exact (loadInt_congr (ha.mono (by omega) (by omega))).trans h.nChunks
  · exact (loadPtr_congr (ha.mono (by omega) (by omega))).trans h.baseAddr
  · exact (loadPtr_congr (ha.mono (by omega) (by omega))).trans h.chunks
  · refine h.array.frame (ha.mono (by omega) ?_)
    have hlen : (R.entries.map Chunk.hdr).length = R.count := by
      simp [Region.entries, Region.count]
    rw [hlen]
    omega
  · intro c hc
    refine (h.headers c hc).frame ?_
    simp only [Region.entries, List.mem_cons] at hc
    rcases hc with rfl | rfl | hc
    · simp only [Region.arrayChunk, Chunk.addr]
      exact ha.mono (by omega) (by omega)
    · simp only [Region.infoChunk, Chunk.addr]
      exact ha.mono (by omega) (by omega)
    · have hb := hp.header_bounds hc
      simp only [Chunk.addr]
      exact ha.mono (by omega) (by omega)

end RegionAt

end Memory
end EmbeddedOS
