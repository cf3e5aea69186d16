import EmbeddedOS.Base.Cuts
import EmbeddedOS.Stdlib.Qsort

/-!
# The partition of `quicksort`

Where the comparison is that of a key, the two scans stop inside the range, the walls cross, and no
key left of them is greater than one right of them.
-/

namespace EmbeddedOS
namespace Stdlib

open Base

variable {α : Type} {cmp : α → α → Int} {key : α → Nat} {xs ys : List α} {lo hi i j mid : Nat}
  {fuel : Nat}

/-- On these elements one is less than another if its key is. -/
def Keyed (cmp : α → α → Int) (key : α → Nat) (xs : List α) : Prop :=
  ∀ x ∈ xs, ∀ y ∈ xs, cmp x y < 0 ↔ key x < key y

theorem Keyed.perm (h : Keyed cmp key xs) (hperm : ys.Perm xs) : Keyed cmp key ys :=
  fun x hx y hy => h x (hperm.mem_iff.mp hx) y (hperm.mem_iff.mp hy)

theorem compareAt_run (h : Keyed cmp key xs) (hi : i < xs.length) (hj : j < xs.length) :
    ∃ c, compareAt cmp xs i j = some c ∧ (c < 0 ↔ keyAt key xs i < keyAt key xs j) := by
  have hx := List.getElem?_eq_getElem hi
  have hy := List.getElem?_eq_getElem hj
  refine ⟨cmp xs[i] xs[j], by rw [compareAt, hx, hy]; rfl, ?_⟩
  rw [keyAt_eq hx, keyAt_eq hy]
  exact h _ (List.getElem_mem hi) _ (List.getElem_mem hj)

theorem SWAP_run (key : α → Nat) (hi' : lo ≤ i ∧ i ≤ hi) (hj : lo ≤ j ∧ j ≤ hi)
    (hlen : hi < xs.length) : ∃ ys, SWAP xs i j = some ys ∧ Shuffled lo (hi + 1) xs ys ∧
      ∀ k, keyAt key ys k =
        if k = j then keyAt key xs i else if k = i then keyAt key xs j else keyAt key xs k := by
  have hx : xs[i]? = some xs[i] := List.getElem?_eq_getElem (by omega)
  have hy : xs[j]? = some xs[j] := List.getElem?_eq_getElem (by omega)
  refine ⟨_, by rw [SWAP, hx, hy]; rfl, .swap hx hy (by omega) (by omega), ?_⟩
  exact keyAt_swap hx hy

theorem swapIfLess_run (h : Keyed cmp key xs) (hi' : lo ≤ i ∧ i ≤ hi) (hj : lo ≤ j ∧ j ≤ hi)
    (hne : i ≠ j) (hlen : hi < xs.length) :
    ∃ ys, swapIfLess cmp xs i j = some ys ∧ Shuffled lo (hi + 1) xs ys ∧
      keyAt key ys j = min (keyAt key xs i) (keyAt key xs j) ∧
      keyAt key ys i = max (keyAt key xs i) (keyAt key xs j) ∧
      ∀ k, k ≠ i → k ≠ j → keyAt key ys k = keyAt key xs k := by
  obtain ⟨c, hc, hless⟩ := compareAt_run (i := i) (j := j) h (by omega) (by omega)
  by_cases hneg : c < 0
  · obtain ⟨ys, hswap, hw, hkeys⟩ := SWAP_run key hi' hj hlen
    refine ⟨ys, ?_, hw, ?_, ?_, ?_⟩
    · rw [swapIfLess, hc]
      exact (if_pos hneg).trans hswap
    · have := hless.mp hneg
      rw [hkeys, if_pos rfl]
      omega
    · have := hless.mp hneg
      rw [hkeys, if_neg hne, if_pos rfl]
      omega
    · intro k hki hkj
      rw [hkeys, if_neg hkj, if_neg hki]
  · have := mt hless.mpr hneg
    refine ⟨xs, ?_, .refl _ _ _, by omega, by omega, fun _ _ _ => rfl⟩
    rw [swapIfLess, hc]
    exact if_neg hneg

/-- The ends of the range bound the pivot. -/
theorem medianOfThree_run (h : Keyed cmp key xs) (hlo : lo < mid) (hmid : mid < hi)
    (hlen : hi < xs.length) :
    ∃ ys, medianOfThree cmp xs lo mid hi = some ys ∧ Shuffled lo (hi + 1) xs ys ∧
      keyAt key ys lo ≤ keyAt key ys mid ∧ keyAt key ys mid ≤ keyAt key ys hi := by
  obtain ⟨ys, hrun, hw, hylo, hymid, hykeep⟩ := swapIfLess_run (i := mid) (j := lo) h
    (show lo ≤ mid ∧ mid ≤ hi by omega) (by omega) (by omega) hlen
  have hyhi := hykeep hi (by omega) (by omega)
  have hylen := hw.length_eq
  have hky := h.perm hw.perm
  obtain ⟨c, hc, hless⟩ := compareAt_run (i := hi) (j := mid) hky (by omega) (by omega)
  rw [medianOfThree, hrun]
  simp only [Option.bind_eq_bind, Option.bind_some, hc]
  -- After a second swap the middle is compared with the lowest once more.
  by_cases hneg : c < 0
  · rw [if_pos hneg]
    obtain ⟨zs, hswap, hwz, hzkeys⟩ := SWAP_run (i := mid) (j := hi) key
      (show lo ≤ mid ∧ mid ≤ hi by omega) (by omega) (show hi < ys.length by omega)
    have hzlen := hwz.length_eq
    obtain ⟨us, hlast, hwu, hulo, humid, hukeep⟩ := swapIfLess_run (i := mid) (j := lo)
      (hky.perm hwz.perm) (show lo ≤ mid ∧ mid ≤ hi by omega) (by omega) (by omega) (by omega)
    have huhi := hukeep hi (by omega) (by omega)
    refine ⟨us, by rw [hswap]; exact hlast, (hw.trans hwz).trans hwu, by omega, ?_⟩
    have hzlo := hzkeys lo
    have hzmid := hzkeys mid
    have hzhi := hzkeys hi
    rw [if_neg (by omega), if_neg (by omega)] at hzlo
    rw [if_neg (by omega), if_pos rfl] at hzmid
    rw [if_pos rfl] at hzhi
    have := hless.mp hneg
    omega
  · rw [if_neg hneg]
    have := mt hless.mpr hneg
    exact ⟨ys, rfl, hw, by omega, by omega⟩

/-! ## The scans -/

section Scans

variable {left right stop : Nat}

/-- The scan up stops at a key that is not less. -/
theorem leftScan_run (h : Keyed cmp key xs) (hmid : mid < xs.length) (hstop : stop < xs.length)
    (hkey : keyAt key xs mid ≤ keyAt key xs stop) (hle : left ≤ stop) (hfuel : stop - left < fuel) :
    ∃ l, loop (leftPass cmp xs mid) fuel left = some l ∧ left ≤ l ∧ l ≤ stop ∧
      keyAt key xs mid ≤ keyAt key xs l ∧
      ∀ i, left ≤ i → i < l → keyAt key xs i < keyAt key xs mid := by
  refine loop_variant (I := fun l => left ≤ l ∧ l ≤ stop ∧
    ∀ i, left ≤ i → i < l → keyAt key xs i < keyAt key xs mid) (fun l => stop - l) ?_
    ⟨Nat.le_refl _, hle, fun i _ _ => by omega⟩ hfuel
  rintro l ⟨hlow, hhigh, hless⟩
  obtain ⟨c, hc, hneg⟩ := compareAt_run (i := l) h (by omega) hmid
  by_cases hcneg : c < 0
  · have hl := hneg.mp hcneg
    -- The key at `stop` is not less, so the scan does not get past it.
    have hne : l ≠ stop := by
      rintro rfl
      omega
    refine .inl ⟨l + 1, ?_, ⟨by omega, by omega, ?_⟩, by omega⟩
    · rw [leftPass, hc]
      exact if_pos hcneg
    · intro i hi hil
      rcases Nat.lt_succ_iff_lt_or_eq.mp hil with hil | rfl
      · exact hless i hi hil
      · exact hl
  · refine .inr ⟨l, ?_, hlow, hhigh, ?_, hless⟩
    · rw [leftPass, hc]
      exact if_neg hcneg
    · have := mt hneg.mpr hcneg
      omega

/-- The scan down stops at a key that is not greater. -/
theorem rightScan_run (h : Keyed cmp key xs) (hmid : mid < xs.length) (hright : right < xs.length)
    (hkey : keyAt key xs stop ≤ keyAt key xs mid) (hle : stop ≤ right)
    (hfuel : right - stop < fuel) :
    ∃ r, loop (rightPass cmp xs mid) fuel right = some r ∧ stop ≤ r ∧ r ≤ right ∧
      keyAt key xs r ≤ keyAt key xs mid ∧
      ∀ i, r < i → i ≤ right → keyAt key xs mid < keyAt key xs i := by
  -- The key at `stop` ends the scan, so no bound has to be tested in the code.
  refine loop_variant (I := fun r => stop ≤ r ∧ r ≤ right ∧
    ∀ i, r < i → i ≤ right → keyAt key xs mid < keyAt key xs i) (fun r => r - stop) ?_
    ⟨hle, Nat.le_refl _, fun i _ _ => by omega⟩ hfuel
  rintro r ⟨hlow, hhigh, hless⟩
  obtain ⟨c, hc, hneg⟩ := compareAt_run (j := r) h hmid (by omega)
  by_cases hcneg : c < 0
  · have hr := hneg.mp hcneg
    have hne : r ≠ stop := by
      rintro rfl
      omega
    refine .inl ⟨r - 1, ?_, ⟨by omega, by omega, ?_⟩, by omega⟩
    · rw [rightPass, hc]
      simp only [Option.bind_eq_bind, Option.bind_some]
      rw [if_pos hcneg, stepBack, if_neg (by omega)]
      rfl
    · intro i hi hir
      rcases Nat.lt_or_ge r i with hri | hri
      · exact hless i hri hir
      · obtain rfl : i = r := by omega
        exact hr
  · refine .inr ⟨r, ?_, hlow, hhigh, ?_, hless⟩
    · rw [rightPass, hc]
      exact if_neg hcneg
    · have := mt hneg.mpr hcneg
      omega

end Scans

/-! ## The walls -/

/-- The keys left of the left wall are at most `p`, and those right of the right wall at least. -/
structure Walls (key : α → Nat) (lo hi p : Nat) (xs₀ xs : List α) (left right : Nat) : Prop where
  within : Shuffled lo (hi + 1) xs₀ xs
  low : ∀ i, lo ≤ i → i < left → keyAt key xs i ≤ p
  high : ∀ i, right < i → i ≤ hi → p ≤ keyAt key xs i
  left_gt : lo < left
  right_lt : right < hi

/-- Before a pass the pivot is at `mid`, and the walls have not crossed. -/
structure Collapsing (key : α → Nat) (lo hi p : Nat) (xs₀ : List α) (s : List α × Nat × Nat × Nat) :
    Prop extends Walls key lo hi p xs₀ s.1 s.2.2.1 s.2.2.2 where
  pivot : keyAt key s.1 s.2.1 = p
  mid_le : s.2.1 ≤ hi
  open_ : s.2.2.1 ≤ s.2.2.2 + 1

/-- After the last pass they have. -/
structure Collapsed (key : α → Nat) (lo hi p : Nat) (xs₀ : List α) (r : List α × Nat × Nat) :
    Prop extends Walls key lo hi p xs₀ r.1 r.2.1 r.2.2 where
  crossed : r.2.2 < r.2.1
  left_le : r.2.1 ≤ hi
  le_right : lo ≤ r.2.2

/-- **The partition** ends with the walls crossed, inside the range. -/
theorem collapse_run {p : Nat} {xs₀ : List α} {s : List α × Nat × Nat × Nat}
    (hk : Keyed cmp key xs₀) (hlen : hi < xs₀.length) (h : Collapsing key lo hi p xs₀ s)
    (hfuel : hi - lo < fuel) :
    ∃ r, loop (collapsePass cmp fuel) fuel s = some r ∧ Collapsed key lo hi p xs₀ r := by
  -- The gap between the walls shrinks with every pass.
  refine loop_variant (fun s => s.2.2.2 + 1 - s.2.2.1) ?_ h ?_
  · rintro ⟨xs, mid, left, right⟩ ⟨⟨hw, hlow, hhigh, hleft, hright⟩, hpivot, hmid, hopen⟩
    simp only at hw hlow hhigh hleft hright hpivot hmid hopen
    have hxlen := hw.length_eq
    have hkx := hk.perm hw.perm
    obtain ⟨l, hlrun, hleftl, hlhi, hlkey, hlless⟩ := leftScan_run hkx
      (show mid < xs.length by omega) (show hi < xs.length by omega)
      (hpivot ▸ hhigh hi hright (Nat.le_refl hi)) (show left ≤ hi by omega)
      (show hi - left < fuel by omega)
    obtain ⟨r, hrrun, hlor, hrright, hrkey, hrless⟩ := rightScan_run hkx
      (show mid < xs.length by omega) (show right < xs.length by omega)
      (hpivot ▸ hlow lo (Nat.le_refl lo) hleft) (show lo ≤ right by omega)
      (show right - lo < fuel by omega)
    rw [hpivot] at hlkey hlless hrkey hrless
    have hlow' : ∀ i, lo ≤ i → i < l → keyAt key xs i ≤ p := by
      intro i hi hil
      by_cases hileft : i < left
      · exact hlow i hi hileft
      · exact Nat.le_of_lt (hlless i (by omega) hil)
    have hhigh' : ∀ i, r < i → i ≤ hi → p ≤ keyAt key xs i := by
      intro i hri hi
      by_cases hiright : right < i
      · exact hhigh i hiright hi
      · exact Nat.le_of_lt (hrless i hri (by omega))
    rcases Nat.lt_trichotomy l r with hlt | rfl | hgt
    · -- The two elements are exchanged.
      obtain ⟨ys, hswap, hws, hkeys⟩ := SWAP_run (i := l) (j := r) key
        (show lo ≤ l ∧ l ≤ hi by omega) (by omega) (show hi < xs.length by omega)
      have hyl : keyAt key ys l = keyAt key xs r := by
        rw [hkeys, if_neg (by omega), if_pos rfl]
      have hyr : keyAt key ys r = keyAt key xs l := by
        rw [hkeys, if_pos rfl]
      have hykeep : ∀ k, k ≠ l → k ≠ r → keyAt key ys k = keyAt key xs k := by
        intro k hkl hkr
        rw [hkeys, if_neg hkr, if_neg hkl]
      have hwalls : Walls key lo hi p xs₀ ys (l + 1) (r - 1) := by
        refine ⟨hw.trans hws, ?_, ?_, by omega, by omega⟩
        · intro i hi hil
          by_cases hil' : i = l
          · rw [hil', hyl]
            exact hrkey
          · rw [hykeep i hil' (by omega)]
            exact hlow' i hi (by omega)
        · intro i hri hi
          by_cases hir : i = r
          · rw [hir, hyr]
            exact hlkey
          · rw [hykeep i (by omega) hir]
            exact hhigh' i (by omega) hi
      have hpass : collapsePass cmp fuel (xs, mid, left, right) =
          if l + 1 ≤ r - 1 then
            some (.again (ys, if mid = l then r else if mid = r then l else mid, l + 1, r - 1))
          else some (.done (ys, l + 1, r - 1)) := by
        rw [collapsePass, hlrun]
        simp only [Option.bind_eq_bind, Option.bind_some, hrrun, if_pos hlt, hswap, stepBack,
          if_neg (show r ≠ 0 by omega)]
      by_cases hmore : l + 1 ≤ r - 1
      · rw [if_pos hmore] at hpass
        refine .inl ⟨_, hpass, ⟨hwalls, ?_, ?_, ?_⟩, ?_⟩
        -- The pivot may be one of the two; then `mid` follows it.
        · by_cases hml : mid = l
          · subst hml
            simp only [if_true]
            rw [hyr, hpivot]
          · by_cases hmr : mid = r
            · subst hmr
              simp only [if_neg hml, if_true]
              rw [hyl, hpivot]
            · simp only [if_neg hml, if_neg hmr]
              rw [hykeep mid hml hmr, hpivot]
        · simp only
          split <;> [omega; split <;> omega]
        · simp only
          omega
        · simp only
          omega
      · rw [if_neg hmore] at hpass
        refine .inr ⟨_, hpass, hwalls, ?_, ?_, ?_⟩ <;> simp only <;> omega
    · -- The walls meet at a key equal to the pivot.
      have hpass : collapsePass cmp fuel (xs, mid, left, right) =
          some (.done (xs, l + 1, l - 1)) := by
        rw [collapsePass, hlrun]
        simp only [Option.bind_eq_bind, Option.bind_some, hrrun, if_neg (Nat.lt_irrefl l), if_true,
          stepBack, if_neg (show l ≠ 0 by omega)]
      refine .inr ⟨_, hpass, ⟨hw, ?_, ?_, ?_, ?_⟩, ?_, ?_, ?_⟩
      · intro i hi hil
        rcases Nat.lt_succ_iff_lt_or_eq.mp hil with hil | rfl
        · exact hlow' i hi hil
        · exact hrkey
      · intro i hri hi
        by_cases hil : i = l
        · exact hil ▸ hlkey
        · exact hhigh' i (by simp only at hri; omega) hi
      all_goals simp only; omega
    · -- The walls have crossed.
      have hpass : collapsePass cmp fuel (xs, mid, left, right) = some (.done (xs, l, r)) := by
        rw [collapsePass, hlrun]
        simp only [Option.bind_eq_bind, Option.bind_some, hrrun, if_neg (show ¬ l < r by omega),
          if_neg (show ¬ l = r by omega)]
      refine .inr ⟨_, hpass, ⟨hw, hlow', hhigh', ?_, ?_⟩, hgt, hlhi, hlor⟩
      all_goals simp only; omega
  · have := h.left_gt
    have := h.right_lt
    omega

end Stdlib
end EmbeddedOS
