import EmbeddedOS.Memory.PageOwner
import EmbeddedOS.Memory.RegionCarve
import EmbeddedOS.Memory.RegionInit

/-!
# The heap as a list of regions

`HeapAt m h H` says that the memory holds the heap `H`: the kernel region with the heap record and
the region array, and the user regions that the array lists. `HeapSound` adds what makes the
regions independent of each other: they do not overlap, and the pages under them are reserved.
-/

namespace EmbeddedOS
namespace Memory

open Base Base.ByteMem Stdlib

/-! ## Heaps -/

/-- A kernel region and the user regions that it lists. -/
structure Heap where
  base : Nat
  size : Nat
  alignment : Int
  users : List Region

namespace Heap

/-- `h->n_regions` -/
def count (H : Heap) : Nat := H.users.length + 1

/-- The first address and the length of every region. -/
def extents (H : Heap) : List (Nat × Nat) :=
  (H.base, H.size) :: H.users.map (fun R => (R.base, R.size))

/-- The kernel region. -/
def kernel (H : Heap) : Region := Region.kernel H.base H.size H.count

def withUsers (H : Heap) (l : List Region) : Heap := { H with users := l }

end Heap

/-- The memory holds the heap `H`, and `h` points to its record. -/
structure HeapAt (m : ByteMem) (h : Nat) (H : Heap) : Prop where
  ptr : h = H.base + 80
  alignment : alignment m h = H.alignment
  nRegions : nRegions m h = H.count
  regions : regions m h = H.base + 120
  array : PointersAt m (H.base + 120) ((H.base + 24) :: H.users.map Region.record)
  kernel : RegionAt m H.kernel
  users : ∀ R ∈ H.users, RegionAt m R

/-- The layout of the regions among each other. -/
structure HeapPlaced (H : Heap) : Prop where
  small : H.size < 2147483648
  addressable : H.base + H.size < 18446744073709551616
  room : 208 + 8 * H.count ≤ H.size
  apart : H.extents.Pairwise NoOverlap
  sound : ∀ R ∈ H.users, R.Sound

/-- The kernel region has room for its array. -/
theorem HeapPlaced.kernel {H : Heap} (hP : HeapPlaced H) : H.kernel.Sound :=
  Region.sound_kernel hP.room hP.small hP.addressable

/-! ## One region among the others -/

section OneRegion

variable {m m' : ByteMem} {h : Nat} {H : Heap} {us vs : List Region} {R R' : Region}

/-- Region `us.length + 1` of the heap. -/
structure Picked (H : Heap) (us : List Region) (R : Region) (vs : List Region) : Prop where
  users : H.users = us ++ R :: vs
  placed : HeapPlaced H

namespace Picked

theorem mem (hp : Picked H us R vs) : R ∈ H.users := by
  rw [hp.users]
  simp

theorem sound (hp : Picked H us R vs) : R.Sound :=
  hp.placed.sound R hp.mem

/-- The kernel region lies beside the region. -/
theorem kernelApart (hp : Picked H us R vs) :
    H.base + H.size ≤ R.base ∨ R.base + R.size ≤ H.base := by
  have hapart := hp.placed.apart
  rw [Heap.extents, hp.users] at hapart
  exact (List.pairwise_cons.1 hapart).1 (R.base, R.size) (by simp)

/-- Every other user region lies beside the region. -/
theorem otherApart (hp : Picked H us R vs) {Q : Region} (hQ : Q ∈ us ∨ Q ∈ vs) :
    Q.base + Q.size ≤ R.base ∨ R.base + R.size ≤ Q.base := by
  have hapart := hp.placed.apart
  rw [Heap.extents, hp.users, List.pairwise_cons, List.map_append, List.map_cons,
    List.pairwise_append, List.pairwise_cons] at hapart
  rcases hapart with ⟨_, _, ⟨hvs, _⟩, hus⟩
  rcases hQ with hQ | hQ
  · exact hus _ (List.mem_map_of_mem hQ) _ List.mem_cons_self
  · exact (hvs _ (List.mem_map_of_mem hQ)).symm

end Picked

/-- The pointers of the heap record lead to the region, and lie outside it. -/
theorem HeapAt.outside (hH : HeapAt m h H) (hp : Picked H us R vs) :
    Outside m h (us.length + 1) R := by
  have hroom := hp.placed.room
  have hk := hp.kernelApart
  have hcnt : H.count = us.length + vs.length + 2 := by
    simp [Heap.count, hp.users]
    omega
  have hslot : loadPtr m (H.base + 120 + 8 * (us.length + 1)) = R.record := by
    refine hH.array (us.length + 1) _ ?_
    simp [hp.users]
  have hptr := hH.ptr
  refine ⟨?_, by omega, ?_⟩
  · unfold regionPtr
    rw [hH.regions, hslot]
  · rw [hH.regions]
    omega

/-- A write inside one region that leaves it well described leaves the heap well described. -/
theorem HeapAt.write (hH : HeapAt m h H) (hp : Picked H us R vs)
    (hw : WritesOnly m m' R.base (R.base + R.size)) (hR : RegionAt m' R')
    (hbase : R'.base = R.base) : HeapAt m' h (H.withUsers (us ++ R' :: vs)) := by
  have hroom := hp.placed.room
  have hk := hp.kernelApart
  have hptr := hH.ptr
  have hagree : AgreeOn m' m H.base (H.base + H.size) := hw.agreeOn (by omega)
  have hcnt : (H.withUsers (us ++ R' :: vs)).count = H.count := by
    simp [Heap.count, Heap.withUsers, hp.users]
  have hrecs : (us ++ R' :: vs).map Region.record = H.users.map Region.record := by
    simp [hp.users, Region.record, hbase]
  refine ⟨hH.ptr, ?_, ?_, ?_, ?_, ?_, ?_⟩
  · exact (loadInt_congr (hagree.mono (by omega) (by omega))).trans hH.alignment
  · rw [hcnt]
    exact (loadInt_congr (hagree.mono (by omega) (by omega))).trans hH.nRegions
  · exact (loadPtr_congr (hagree.mono (by omega) (by omega))).trans hH.regions
  · change PointersAt m' (H.base + 120) ((H.base + 24) :: (us ++ R' :: vs).map Region.record)
    rw [hrecs]
    refine hH.array.frame (hagree.mono (by omega) ?_)
    simp only [List.length_cons, List.length_map]
    have : H.count = H.users.length + 1 := rfl
    omega
  · have hsame : (H.withUsers (us ++ R' :: vs)).kernel = H.kernel := by
      rw [Heap.kernel, hcnt]
      rfl
    rw [hsame]
    exact hH.kernel.frame hp.placed.kernel.toPlaced hagree
  · intro Q hQ
    simp only [Heap.withUsers, List.mem_append, List.mem_cons] at hQ
    have hframe : Q ∈ us ∨ Q ∈ vs → RegionAt m' Q := by
      intro hmem
      have hQH : Q ∈ H.users := by
        rw [hp.users]
        rcases hmem with hmem | hmem <;> simp [hmem]
      have hd := hp.otherApart hmem
      exact (hH.users Q hQH).frame (hp.placed.sound Q hQH).toPlaced
        (hw.agreeOn (by omega))
    rcases hQ with hQ | rfl | hQ
    · exact hframe (.inl hQ)
    · exact hR
    · exact hframe (.inr hQ)

end OneRegion

end Memory
end EmbeddedOS
