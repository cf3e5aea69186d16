import EmbeddedOS.Base.ByteMem

/-!
# Directory records

The records of a directory as they lie on the disk: a head of eight bytes, the name right behind
it, and the length of the record in the head. The records of a well-formed block follow one another
without gaps up to its end.
-/

namespace EmbeddedOS
namespace Fs

open Base Base.ByteMem

/-- A directory record. -/
structure Record where
  inode_number : Nat
  size : Nat
  type : UInt8
  name : List UInt8
deriving DecidableEq, Repr

/-! ## The fields of the record at `o` -/

def inodeNumber (b : ByteMem) (o : Nat) : Nat := load b o 4
def recSize (b : ByteMem) (o : Nat) : Nat := load b (o + 4) 2
def nameLen (b : ByteMem) (o : Nat) : Nat := (b (o + 6)).toNat
def recType (b : ByteMem) (o : Nat) : UInt8 := b (o + 7)

/-- The `n` bytes from `o` on. -/
def bytesAt (b : ByteMem) (o n : Nat) : List UInt8 :=
  (List.range n).map fun i => b (o + i)

def recordAt (b : ByteMem) (o : Nat) : Record where
  inode_number := inodeNumber b o
  size := recSize b o
  type := recType b o
  name := bytesAt b (o + 8) (nameLen b o)

/-- The records `rs` fill the bytes from `o` to `hi`: their lengths are multiples of four, and each
holds its head and its name. -/
inductive Tiled (b : ByteMem) (hi : Nat) : Nat → List Record → Prop
  | nil : Tiled b hi hi []
  | cons {o : Nat} {rs : List Record} (haligned : recSize b o % 4 = 0)
      (hname : 8 + nameLen b o ≤ recSize b o) (hfits : o + recSize b o ≤ hi)
      (hrest : Tiled b hi (o + recSize b o) rs) : Tiled b hi o (recordAt b o :: rs)

/-- Offset `o` is where some records from the start lead to. -/
inductive Chain (b : ByteMem) : Nat → Prop
  | zero : Chain b 0
  | next {o : Nat} (hprev : Chain b o) (hsize : 8 ≤ recSize b o) : Chain b (o + recSize b o)

section Tiled

variable {b b' : ByteMem} {o hi : Nat} {rs : List Record}

theorem length_bytesAt (b : ByteMem) (o n : Nat) : (bytesAt b o n).length = n := by
  simp [bytesAt]

theorem Tiled.le (h : Tiled b hi o rs) : o ≤ hi := by
  cases h with
  | nil => exact Nat.le_refl _
  | cons _ _ hfits _ => omega

/-- Records that start before the end begin with one. -/
theorem Tiled.head (h : Tiled b hi o rs) (ho : o < hi) :
    8 + nameLen b o ≤ recSize b o ∧ o + recSize b o ≤ hi ∧
      ∃ rest, rs = recordAt b o :: rest ∧ Tiled b hi (o + recSize b o) rest := by
  cases h with
  | nil => exact absurd ho (Nat.lt_irrefl _)
  | cons _ hname hfits hrest => exact ⟨hname, hfits, _, rfl, hrest⟩

/-- The head of the record at `o` is the same in both. -/
theorem recSize_congr (h : AgreeOn b b' (o + 4) (o + 6)) : recSize b o = recSize b' o :=
  load_congr h

theorem recordAt_congr (h : AgreeOn b b' o (o + 8 + nameLen b o)) :
    recordAt b o = recordAt b' o := by
  have hlen : nameLen b o = nameLen b' o := congrArg UInt8.toNat (h _ (by omega) (by omega))
  have hinode : inodeNumber b o = inodeNumber b' o :=
    load_congr (h.mono (Nat.le_refl _) (by omega))
  have hsize : recSize b o = recSize b' o := recSize_congr (h.mono (by omega) (by omega))
  have htype : recType b o = recType b' o := h _ (by omega) (by omega)
  have hname : bytesAt b (o + 8) (nameLen b o) = bytesAt b' (o + 8) (nameLen b o) := by
    apply List.map_congr_left
    intro i hi
    rw [List.mem_range] at hi
    exact h _ (by omega) (by omega)
  simp only [recordAt, hinode, hsize, htype, hname, ← hlen]

/-- A tiling depends on the bytes it covers only. -/
theorem Tiled.congr (h : Tiled b hi o rs) (heq : AgreeOn b b' o hi) : Tiled b' hi o rs := by
  induction h with
  | nil => exact .nil
  | @cons o rs haligned hname hfits hrest ih =>
      have hrec : recordAt b o = recordAt b' o :=
        recordAt_congr (heq.mono (Nat.le_refl _) (by omega))
      have hsize : recSize b o = recSize b' o := congrArg Record.size hrec
      have hlen : nameLen b o = nameLen b' o :=
        congrArg UInt8.toNat (heq _ (by omega) (by omega))
      rw [hrec]
      refine .cons (hsize ▸ haligned) (by rw [← hsize, ← hlen]; exact hname)
        (by rw [← hsize]; exact hfits) ?_
      rw [← hsize]
      exact ih (heq.mono (by omega) (Nat.le_refl _))

/-- A chain depends on the bytes before its end only. -/
theorem Chain.congr (h : Chain b o) (heq : AgreeOn b b' 0 o) : Chain b' o := by
  induction h with
  | zero => exact .zero
  | @next o hprev hsize ih =>
      have hhead : recSize b o = recSize b' o :=
        recSize_congr (heq.mono (Nat.zero_le _) (by omega))
      rw [hhead]
      exact .next (ih (heq.mono (Nat.le_refl 0) (by omega))) (hhead ▸ hsize)

/-- A tiling passes through every offset that a chain reaches. -/
theorem Tiled.through (h : Tiled b hi 0 rs) (hchain : Chain b o) (ho : o < hi) :
    ∃ rest, Tiled b hi o rest := by
  induction hchain with
  | zero => exact ⟨rs, h⟩
  | @next o _ hsize ih =>
      rcases ih (by omega) with ⟨rest, hrest⟩
      rcases hrest.head (by omega) with ⟨_, _, rest', _, htiled⟩
      exact ⟨rest', htiled⟩

end Tiled

end Fs
end EmbeddedOS
