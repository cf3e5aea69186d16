import EmbeddedOS.Base.IndexTree
import EmbeddedOS.Fs.BlockMap

/-!
# The block map as trees

The last three block pointers of an inode are the roots of trees with one, two and three levels of
index blocks. The getter does not look for missing index blocks; where there are none, it returns
what the path leads to.
-/

namespace EmbeddedOS
namespace Fs

open Base Base.ByteMem

variable {fs : EXT2} {disk inode tmp : ByteMem} {j k : Nat}

/-- The three trees of an inode, with blocks of four kilobytes. -/
def mapTree (fs : EXT2) (disk inode : ByteMem) : IndexTree (Fin 3) Nat (Fin 1024) where
  root r := blockPtr inode (12 + r)
  depth r := r + 1
  entry b i := fs.diskEntry disk b i

/-- Where block `k` is, for the blocks from 12 on: the tree, and the indices from the last one to
the first. -/
def mapPath (k : Nat) : Fin 3 × List (Fin 1024) :=
  let a := k - 12
  if a < 1024 then
    (0, [Fin.ofNat 1024 a])
  else
    let b := a - 1024
    if b < 1024 * 1024 then
      (1, [Fin.ofNat 1024 b, Fin.ofNat 1024 (b / 1024)])
    else
      let c := b - 1024 * 1024
      (2, [Fin.ofNat 1024 c, Fin.ofNat 1024 (c / 1024), Fin.ofNat 1024 (c / (1024 * 1024))])

/-- The pointer of the inode that the setter follows, and the index blocks below it: for the first
block of the second and the third level it stays one level above. -/
def setterPath (k : Nat) : Fin 3 × List (Fin 1024) :=
  if k = 12 + 1024 then (0, [])
  else if k = 12 + 1024 + 1024 * 1024 then (1, [])
  else ((mapPath k).1, (mapPath k).2.tail.reverse)

/-- The disk block that is assigned to block `k`, or 0. -/
def assigned (fs : EXT2) (disk inode : ByteMem) (k : Nat) : Nat :=
  if k < 12 then blockPtr inode k
  else (mapTree fs disk inode).walk (mapPath k).1 (mapPath k).2

/-! ## Paths -/

theorem ofNat_eq {x : Nat} {i : Fin 1024} (h : x % 1024 = i) : Fin.ofNat 1024 x = i :=
  Fin.ext h

theorem mapPath_single (a : Fin 1024) : mapPath (12 + a) = (0, [a]) := by
  have ha := a.isLt
  have hsub : 12 + (a : Nat) - 12 = a := by omega
  simp only [mapPath, hsub]
  rw [if_pos ha, ofNat_eq (i := a) (by omega)]

theorem mapPath_double (c d : Fin 1024) :
    mapPath (12 + 1024 + (c * 1024 + d)) = (1, [d, c]) := by
  have hc := c.isLt
  have hd := d.isLt
  have hsub : 12 + 1024 + ((c : Nat) * 1024 + d) - 12 = 1024 + (c * 1024 + d) := by omega
  have hsub' : 1024 + ((c : Nat) * 1024 + d) - 1024 = c * 1024 + d := by omega
  simp only [mapPath, hsub, hsub']
  rw [if_neg (by omega), if_pos (by omega), ofNat_eq (i := d) (by omega), ofNat_eq (i := c) (by omega)]

theorem mapPath_triple (e f g : Fin 1024) :
    mapPath (12 + 1024 + 1024 * 1024 + ((e * 1024 + f) * 1024 + g)) = (2, [g, f, e]) := by
  have he := e.isLt
  have hf := f.isLt
  have hg := g.isLt
  obtain ⟨c, hc⟩ : ∃ c : Nat, c = (e * 1024 + f) * 1024 + g := ⟨_, rfl⟩
  have hsub : 12 + 1024 + 1024 * 1024 + c - 12 = 1024 + (1024 * 1024 + c) := by omega
  have hrow : ¬ 1024 + (1024 * 1024 + c) < 1024 := by omega
  have hrows : ¬ 1024 * 1024 + c < 1024 * 1024 := by omega
  have hlast : c % 1024 = g := by omega
  have hmiddle : c / 1024 % 1024 = f := by omega
  have hfirst : c / (1024 * 1024) % 1024 = e := by omega
  rw [← hc]
  simp only [mapPath, hsub, Nat.add_sub_cancel_left]
  rw [if_neg hrow, if_neg hrows, ofNat_eq hlast, ofNat_eq hmiddle, ofNat_eq hfirst]

/-- A block is one of the first twelve, or in one of the three trees. -/
theorem mapPlace_cases (hk : k < 12 + 1024 + 1024 * 1024 + 1024 * 1024 * 1024) :
    k < 12 ∨ (∃ a : Fin 1024, k = 12 + a) ∨
      (∃ c d : Fin 1024, k = 12 + 1024 + (c * 1024 + d)) ∨
        ∃ e f g : Fin 1024, k = 12 + 1024 + 1024 * 1024 + ((e * 1024 + f) * 1024 + g) := by
  by_cases h0 : k < 12
  · exact .inl h0
  by_cases h1 : k < 12 + 1024
  · refine .inr (.inl ⟨⟨k - 12, by omega⟩, ?_⟩)
    simp only []
    omega
  by_cases h2 : k < 12 + 1024 + 1024 * 1024
  · refine .inr (.inr (.inl ⟨⟨(k - 1036) / 1024, by omega⟩, ⟨(k - 1036) % 1024, by omega⟩, ?_⟩))
    simp only []
    omega
  · refine .inr (.inr (.inr ⟨⟨(k - 1049612) / 1024 / 1024, by omega⟩,
      ⟨(k - 1049612) / 1024 % 1024, by omega⟩, ⟨(k - 1049612) % 1024, by omega⟩, ?_⟩))
    simp only []
    omega

/-- Different blocks have different paths. -/
theorem mapPath_inj (hj : 12 ≤ j) (hj' : j < 12 + 1024 + 1024 * 1024 + 1024 * 1024 * 1024) (hk : 12 ≤ k)
    (hk' : k < 12 + 1024 + 1024 * 1024 + 1024 * 1024 * 1024) (h : mapPath j = mapPath k) : j = k := by
  rcases mapPlace_cases hj' with h0 | ⟨a, rfl⟩ | ⟨c, d, rfl⟩ | ⟨e, f, g, rfl⟩
  · omega
  all_goals
    rcases mapPlace_cases hk' with h0 | ⟨a', rfl⟩ | ⟨c', d', rfl⟩ | ⟨e', f', g', rfl⟩
    · omega
    all_goals
      simp only [mapPath_single, mapPath_double, mapPath_triple, Prod.mk.injEq, List.cons.injEq] at h
      simp_all

/-- The path of a block ends at the end of its tree. -/
theorem mapPath_length (hk : 12 ≤ k) (hk' : k < 12 + 1024 + 1024 * 1024 + 1024 * 1024 * 1024) :
    (mapPath k).2.length = (mapPath k).1 + 1 := by
  rcases mapPlace_cases hk' with h0 | ⟨a, rfl⟩ | ⟨c, d, rfl⟩ | ⟨e, f, g, rfl⟩
  · omega
  · rw [mapPath_single]
    rfl
  · rw [mapPath_double]
    rfl
  · rw [mapPath_triple]
    rfl

/-! ## What the getter returns -/

/-- The getter returns the entry that the path ends in, if the index block is there. -/
theorem get_of_present {r : Fin 3} {i : Fin 1024} {up : List (Fin 1024)}
    (hbs : fs.block_size = 4096) (hk : 12 ≤ k) (hk' : k < 12 + 1024 + 1024 * 1024 + 1024 * 1024 * 1024)
    (hpath : mapPath k = (r, i :: up)) (hup : (mapTree fs disk inode).walk r up ≠ 0) :
    get_disk_block_number fs disk inode tmp k =
      some ((mapTree fs disk inode).entry ((mapTree fs disk inode).walk r up) i) := by
  have hp : fs.block_size / 4 = 1024 := by rw [hbs]
  have hone : ∀ {r : Fin 3} {is : List (Fin 1024)} {i : Fin 1024},
      (mapTree fs disk inode).walk r (i :: is) ≠ 0 → (mapTree fs disk inode).walk r is ≠ 0 :=
    fun h h0 => h (IndexTree.walk_cons_missing h0)
  rcases mapPlace_cases hk' with h0 | ⟨a, rfl⟩ | ⟨c, d, rfl⟩ | ⟨e, f, g, rfl⟩
  · omega
  · rw [mapPath_single, Prod.mk.injEq, List.cons.injEq] at hpath
    rcases hpath with ⟨rfl, rfl, rfl⟩
    exact get_single hp (Nat.le_refl _) a.isLt
  · rw [mapPath_double, Prod.mk.injEq, List.cons.injEq] at hpath
    rcases hpath with ⟨rfl, rfl, rfl⟩
    have hget := @get_double fs disk inode tmp 1024 hp (Nat.le_refl _) (c * 1024 + d) (by omega)
    rw [show ((c : Nat) * 1024 + d) / 1024 = c by omega,
      show ((c : Nat) * 1024 + d) % 1024 = d by omega] at hget
    rw [hget, IndexTree.walk_cons_present (hone hup)]
    rfl
  · rw [mapPath_triple, Prod.mk.injEq, List.cons.injEq] at hpath
    rcases hpath with ⟨rfl, rfl, rfl⟩
    have hget := @get_triple fs disk inode tmp 1024 hp (Nat.le_refl _) ((e * 1024 + f) * 1024 + g)
      (by omega)
    rw [show (((e : Nat) * 1024 + f) * 1024 + g) / (1024 * 1024) = e by omega,
      show (((e : Nat) * 1024 + f) * 1024 + g) / 1024 % 1024 = f by omega,
      show (((e : Nat) * 1024 + f) * 1024 + g) % 1024 = g by omega] at hget
    rw [hget, IndexTree.walk_cons_present (hone hup), IndexTree.walk_cons_present (hone (hone hup))]
    rfl

/-- Where a block is assigned, the getter returns it. -/
theorem get_of_assigned (hbs : fs.block_size = 4096) (hk : k < 12 + 1024 + 1024 * 1024 + 1024 * 1024 * 1024)
    (h : assigned fs disk inode k ≠ 0) :
    get_disk_block_number fs disk inode tmp k = some (assigned fs disk inode k) := by
  unfold assigned at h ⊢
  by_cases h0 : k < 12
  · rw [if_pos h0]
    exact get_direct h0
  · rw [if_neg h0] at h ⊢
    have hlen := mapPath_length (Nat.not_lt.1 h0) hk
    cases hpath : mapPath k with
    | mk r is =>
        rw [hpath] at h hlen
        cases is with
        | nil => exact absurd hlen.symm (Nat.succ_ne_zero _)
        | cons i up =>
            have hup : (mapTree fs disk inode).walk r up ≠ 0 :=
              fun hmissing => h (IndexTree.walk_cons_missing hmissing)
            rw [get_of_present hbs (Nat.not_lt.1 h0) hk hpath hup,
              ← IndexTree.walk_cons_present hup]

end Fs
end EmbeddedOS
