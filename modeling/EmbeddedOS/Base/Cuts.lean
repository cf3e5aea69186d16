import Mathlib.Data.List.Perm.Basic

/-!
# Cuts of an array

An array that is sorted in place, seen through the keys of its elements. A cut is a place with no
greater key before it than after it. Rearranging the elements between two places leaves every cut
outside alone, and where every stretch of more than a few places holds a cut, an array is nearly
sorted.
-/

namespace EmbeddedOS
namespace Base

universe u

variable {α : Type u} {xs ys zs : List α} {lo hi i j : Nat}

/-! ## Rearranging -/

/-- `ys` has the elements of `xs` in another order, and differs only on `[lo, hi)`. -/
structure Shuffled (lo hi : Nat) (xs ys : List α) : Prop where
  perm : ys.Perm xs
  outside : ∀ i, i < lo ∨ hi ≤ i → ys[i]? = xs[i]?

namespace Shuffled

theorem refl (lo hi : Nat) (xs : List α) : Shuffled lo hi xs xs :=
  ⟨.refl xs, fun _ _ => rfl⟩

theorem trans (h : Shuffled lo hi xs ys) (h' : Shuffled lo hi ys zs) : Shuffled lo hi xs zs :=
  ⟨h'.perm.trans h.perm, fun i hi => (h'.outside i hi).trans (h.outside i hi)⟩

theorem mono {lo' hi' : Nat} (h : Shuffled lo hi xs ys) (hlo : lo' ≤ lo) (hhi : hi ≤ hi') :
    Shuffled lo' hi' xs ys :=
  ⟨h.perm, fun i hi => h.outside i (by omega)⟩

theorem length_eq (h : Shuffled lo hi xs ys) : ys.length = xs.length :=
  h.perm.length_eq

theorem take_perm (h : Shuffled lo hi xs ys) {c : Nat} (hc : c ≤ lo ∨ hi ≤ c) :
    (ys.take c).Perm (xs.take c) ∧ (ys.drop c).Perm (xs.drop c) := by
  have hperm : (ys.take c ++ ys.drop c).Perm (xs.take c ++ xs.drop c) := by
    rw [List.take_append_drop, List.take_append_drop]
    exact h.perm
  rcases hc with hc | hc
  · have htake : ys.take c = xs.take c := by
      refine List.ext_getElem? fun i => ?_
      rw [List.getElem?_take, List.getElem?_take]
      by_cases hic : i < c
      · rw [if_pos hic, if_pos hic, h.outside i (.inl (by omega))]
      · rw [if_neg hic, if_neg hic]
    rw [htake] at hperm ⊢
    exact ⟨.refl _, (List.perm_append_left_iff _).mp hperm⟩
  · have hdrop : ys.drop c = xs.drop c := by
      refine List.ext_getElem? fun i => ?_
      rw [List.getElem?_drop, List.getElem?_drop, h.outside _ (.inr (by omega))]
    rw [hdrop] at hperm ⊢
    exact ⟨(List.perm_append_right_iff _).mp hperm, .refl _⟩

/-- Two elements exchanged. -/
theorem swap {x y : α} (hx : xs[i]? = some x) (hy : xs[j]? = some y) (hi' : lo ≤ i ∧ i < hi)
    (hj : lo ≤ j ∧ j < hi) : Shuffled lo hi xs ((xs.set i y).set j x) := by
  obtain ⟨hil, rfl⟩ := List.getElem?_eq_some_iff.mp hx
  obtain ⟨hjl, rfl⟩ := List.getElem?_eq_some_iff.mp hy
  refine ⟨List.set_set_perm hil hjl, fun k hk => ?_⟩
  rw [List.getElem?_set_ne (by omega), List.getElem?_set_ne (by omega)]

end Shuffled

/-! ## Keys -/

section Keys

variable {key : α → Nat} {c : Nat}

/-- The key at a place. -/
def keyAt (key : α → Nat) (xs : List α) (i : Nat) : Nat :=
  (xs[i]?).elim 0 key

theorem keyAt_eq {x : α} (h : xs[i]? = some x) : keyAt key xs i = key x := by
  rw [keyAt, h]
  rfl

theorem keyAt_congr (h : ys[i]? = xs[i]?) : keyAt key ys i = keyAt key xs i := by
  rw [keyAt, keyAt, h]

theorem keyAt_swap {x y : α} (hx : xs[i]? = some x) (hy : xs[j]? = some y) (k : Nat) :
    keyAt key ((xs.set i y).set j x) k =
      if k = j then keyAt key xs i else if k = i then keyAt key xs j else keyAt key xs k := by
  have hil := (List.getElem?_eq_some_iff.mp hx).1
  have hjl := (List.getElem?_eq_some_iff.mp hy).1
  by_cases hkj : k = j
  · subst hkj
    rw [if_pos rfl, keyAt_eq hx, keyAt_eq (List.getElem?_set_self (by rwa [List.length_set]))]
  · rw [if_neg hkj]
    by_cases hki : k = i
    · subst hki
      rw [if_pos rfl, keyAt_eq hy, keyAt_eq]
      rw [List.getElem?_set_ne (Ne.symm hkj), List.getElem?_set_self hil]
    · rw [if_neg hki, keyAt_congr]
      rw [List.getElem?_set_ne (Ne.symm hkj), List.getElem?_set_ne (Ne.symm hki)]

/-- No key before the place is greater than one from it on. -/
def Cut (key : α → Nat) (xs : List α) (c : Nat) : Prop :=
  ∀ x ∈ xs.take c, ∀ y ∈ xs.drop c, key x ≤ key y

theorem cut_iff : Cut key xs c ↔
    ∀ i j, i < c → c ≤ j → j < xs.length → keyAt key xs i ≤ keyAt key xs j := by
  constructor
  · intro h i j hi hj hjl
    have hil : i < xs.length := by omega
    rw [keyAt_eq (List.getElem?_eq_getElem hil), keyAt_eq (List.getElem?_eq_getElem hjl)]
    refine h _ (List.mem_take_iff_getElem.mpr ⟨i, by omega, rfl⟩) _
      (List.mem_drop_iff_getElem.mpr ⟨j - c, by omega, ?_⟩)
    simp only [show c + (j - c) = j by omega]
  · intro h x hx y hy
    obtain ⟨i, hi, rfl⟩ := List.mem_take_iff_getElem.mp hx
    obtain ⟨j, hj, rfl⟩ := List.mem_drop_iff_getElem.mp hy
    have := h i (c + j) (by omega) (by omega) (by omega)
    rwa [keyAt_eq (List.getElem?_eq_getElem (by omega)),
      keyAt_eq (List.getElem?_eq_getElem (by omega))] at this

theorem cut_zero : Cut key xs 0 := by
  intro x hx
  cases hx

theorem cut_length : Cut key xs xs.length := by
  intro x _ y hy
  rw [List.drop_length] at hy
  cases hy

/-- Rearranging between two places leaves the cuts outside. -/
theorem Cut.within (h : Cut key xs c) (hw : Shuffled lo hi xs ys) (hc : c ≤ lo ∨ hi ≤ c) :
    Cut key ys c := by
  obtain ⟨htake, hdrop⟩ := hw.take_perm hc
  exact fun x hx y hy => h x (htake.mem_iff.mp hx) y (hdrop.mem_iff.mp hy)

/-- Between two cuts, a place that parts the keys there is a cut. -/
theorem Cut.between {p : Nat} (hlo : Cut key xs lo) (hhi : Cut key xs hi) (hc : lo ≤ c ∧ c ≤ hi)
    (hlow : ∀ i, lo ≤ i → i < c → keyAt key xs i ≤ p)
    (hhigh : ∀ i, c ≤ i → i < hi → p ≤ keyAt key xs i) : Cut key xs c := by
  rw [cut_iff] at hlo hhi ⊢
  intro i j hic hcj hj
  by_cases hilo : i < lo
  · exact hlo i j hilo (by omega) hj
  · by_cases hjhi : hi ≤ j
    · exact hhi i j (by omega) hjhi hj
    · exact Nat.le_trans (hlow i (by omega) hic) (hhigh j hcj (by omega))

/-- Inside a range with a cut at both ends, every place between the two walls of a partition is a
cut. -/
theorem Cut.split {p left right : Nat} (hlo : Cut key xs lo) (hhi : Cut key xs (hi + 1))
    (hbounds : lo ≤ right ∧ left ≤ hi) (hlow : ∀ i, lo ≤ i → i < left → keyAt key xs i ≤ p)
    (hhigh : ∀ i, right < i → i ≤ hi → p ≤ keyAt key xs i) (hc : right < c ∧ c ≤ left) :
    Cut key xs c := by
  refine hlo.between (p := p) hhi (by omega) (fun i hi hic => ?_) (fun i hci hi => ?_)
  · exact hlow i hi (by omega)
  · exact hhigh i (by omega) (by omega)

/-- Elements more than `d` places apart are in order. -/
def Nearly (key : α → Nat) (d : Nat) (xs : List α) : Prop :=
  ∀ i j, i + d < j → j < xs.length → keyAt key xs i ≤ keyAt key xs j

/-- Every two places more than `d` apart are parted by a cut, or lie in a range that is still to be
worked on, from its first place to its last. -/
def Parted (key : α → Nat) (d : Nat) (ranges : List (Nat × Nat)) (xs : List α) : Prop :=
  ∀ i j, i + d < j → j < xs.length →
    (∃ c, Cut key xs c ∧ i < c ∧ c ≤ j) ∨ ∃ r ∈ ranges, r.1 ≤ i ∧ j ≤ r.2

section Parted

variable {d : Nat} {rs rs' : List (Nat × Nat)}

theorem Parted.nearly (h : Parted key d [] xs) : Nearly key d xs := by
  intro i j hij hj
  rcases h i j hij hj with ⟨c, hc, hic, hcj⟩ | ⟨r, hr, -⟩
  · exact cut_iff.mp hc i j hic hcj hj
  · cases hr

/-- Ranges of no more than `d + 1` places need no work. -/
theorem Parted.of_short (h : Parted key d rs xs) (hrs : ∀ r ∈ rs, r ∈ rs' ∨ r.2 ≤ r.1 + d) :
    Parted key d rs' xs := by
  intro i j hij hj
  rcases h i j hij hj with hcut | ⟨r, hr, hir, hjr⟩
  · exact .inl hcut
  · rcases hrs r hr with hr' | hshort
    · exact .inr ⟨r, hr', hir, hjr⟩
    · omega

/-- A range is split by a pivot: the keys before `left` are at most `p`, and those after `right` at
least. -/
theorem Parted.split {p left right : Nat} (h : Parted key d ((lo, hi) :: rs) xs)
    (hlo : Cut key xs lo) (hhi : Cut key xs (hi + 1)) (hw : Shuffled lo (hi + 1) xs ys)
    (hcross : right < left) (hbounds : lo ≤ right ∧ left ≤ hi)
    (hlow : ∀ i, lo ≤ i → i < left → keyAt key ys i ≤ p)
    (hhigh : ∀ i, right < i → i ≤ hi → p ≤ keyAt key ys i) :
    Parted key d ((lo, right) :: (left, hi) :: rs) ys := by
  have hlo' : Cut key ys lo := hlo.within hw (.inl (Nat.le_refl lo))
  have hhi' : Cut key ys (hi + 1) := hhi.within hw (.inr (Nat.le_refl _))
  have hinside : ∀ i j, i + d < j → lo ≤ i → j ≤ hi → (∃ c, Cut key ys c ∧ i < c ∧ c ≤ j) ∨
      ∃ r ∈ (lo, right) :: (left, hi) :: rs, r.1 ≤ i ∧ j ≤ r.2 := by
    intro i j hij hi hj
    by_cases hjr : j ≤ right
    · exact .inr ⟨_, List.mem_cons_self, hi, hjr⟩
    · by_cases hil : left ≤ i
      · exact .inr ⟨_, List.mem_cons_of_mem _ List.mem_cons_self, hil, hj⟩
      · have hcut := hlo'.split hhi' hbounds hlow hhigh (c := max (i + 1) (right + 1)) (by omega)
        exact .inl ⟨_, hcut, by omega, by omega⟩
  intro i j hij hj
  rw [hw.length_eq] at hj
  rcases h i j hij hj with ⟨c, hc, hic, hcj⟩ | ⟨r, hr, hri, hrj⟩
  · by_cases hout : c ≤ lo ∨ hi + 1 ≤ c
    · exact .inl ⟨c, hc.within hw hout, hic, hcj⟩
    · by_cases hilo : i < lo
      · exact .inl ⟨lo, hlo', hilo, by omega⟩
      · by_cases hjhi : hi + 1 ≤ j
        · exact .inl ⟨hi + 1, hhi', by omega, hjhi⟩
        · exact hinside i j hij (by omega) (by omega)
  · rcases List.mem_cons.mp hr with rfl | hr
    · exact hinside i j hij hri hrj
    · exact .inr ⟨r, List.mem_cons_of_mem _ (List.mem_cons_of_mem _ hr), hri, hrj⟩

end Parted

/-! ## Moving one element down -/

/-- The element at `j` comes to place `i`, and those between go up by one. -/
def moveDown (xs : List α) (i j : Nat) (x : α) : List α :=
  (xs.eraseIdx j).insertIdx i x

theorem moveDown_perm {x : α} (hx : xs[j]? = some x) (hij : i ≤ j) : (moveDown xs i j x).Perm xs := by
  obtain ⟨hj, rfl⟩ := List.getElem?_eq_some_iff.mp hx
  have hlen := List.length_eraseIdx_of_lt hj
  exact (List.perm_insertIdx _ _ (by omega)).trans (List.getElem_cons_eraseIdx_perm hj)

theorem getElem?_moveDown {x : α} (hx : xs[j]? = some x) (hij : i ≤ j) (k : Nat) :
    (moveDown xs i j x)[k]? =
      if k = i then some x else if i < k ∧ k ≤ j then xs[k - 1]? else xs[k]? := by
  have hj := (List.getElem?_eq_some_iff.mp hx).1
  have hlen := List.length_eraseIdx_of_lt hj
  rw [moveDown, List.getElem?_insertIdx]
  by_cases hki : k < i
  · rw [if_pos hki, if_neg (by omega), if_neg (by omega), List.getElem?_eraseIdx_of_lt (by omega)]
  · rw [if_neg hki]
    by_cases hk : k = i
    · rw [if_pos hk, if_pos (by omega), if_pos hk]
    · rw [if_neg hk, if_neg hk]
      by_cases hkj : i < k ∧ k ≤ j
      · rw [if_pos hkj, List.getElem?_eraseIdx_of_lt (by omega)]
      · rw [if_neg hkj, List.getElem?_eraseIdx_of_ge (by omega), show k - 1 + 1 = k by omega]

theorem moveDown_self {x : α} (hx : xs[j]? = some x) : moveDown xs j j x = xs := by
  refine List.ext_getElem? fun k => ?_
  rw [getElem?_moveDown hx (Nat.le_refl j)]
  by_cases hk : k = j
  · rw [if_pos hk, hk, hx]
  · rw [if_neg hk, if_neg (by omega)]

end Keys

end Base
end EmbeddedOS
