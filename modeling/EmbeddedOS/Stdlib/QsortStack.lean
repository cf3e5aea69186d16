import Mathlib.Algebra.Order.BigOperators.Group.List
import Mathlib.Algebra.Order.Group.Nat
import Mathlib.Algebra.Order.Ring.Nat
import Mathlib.Data.List.Perm.Subperm
import Mathlib.Data.List.ReduceOption
import EmbeddedOS.Stdlib.QsortPartition

/-!
# The stack of `quicksort`

The ranges that are still to be sorted lie apart between cuts, and each is at most half as long as
the one below it on the stack, so that the stack is deep enough for every array. When none is left,
elements more than four places apart are in order.
-/

namespace EmbeddedOS
namespace Stdlib

open Base

variable {α : Type} {cmp : α → α → Int} {key : α → Nat} {xs ys : List α} {lo hi left right : Nat}
  {fuel n : Nat} {rs : List (Nat × Nat)}

/-! ## The stack -/

/-- The ranges stand on the stack, the next one first, above the bottom. -/
def Stands (range : Option (Nat × Nat)) (stack : SortStack) (rs : List (Nat × Nat)) : Prop :=
  range :: stack = rs.map some ++ [none]

theorem Stands.reduce {range : Option (Nat × Nat)} {stack : SortStack} (h : Stands range stack rs) :
    (range :: stack).reduceOption = rs := by
  rw [h, List.reduceOption_append]
  clear h
  induction rs with
  | nil => rfl
  | cons r rs ih => exact congrArg (r :: ·) ih

/-- A range with `k` below it is `2 ^ k` times as short as the array. -/
def Halved (n : Nat) : List (Nat × Nat) → Prop
  | [] => True
  | r :: rs => (r.2 - r.1 + 1) * 2 ^ rs.length ≤ n ∧ Halved n rs

/-- The ranges left after a partition, without the short ones. -/
structure NextRanges (lo hi left right : Nat) (rs rs' : List (Nat × Nat)) : Prop where
  part : rs'.Subperm ((lo, right) :: (left, hi) :: rs)
  long : ∀ r ∈ rs', r ∈ rs ∨ r.1 + MAX_THRESH ≤ r.2
  short : ∀ r ∈ (lo, right) :: (left, hi) :: rs, r ∈ rs' ∨ r.2 ≤ r.1 + MAX_THRESH

section Stack

variable {top : Option (Nat × Nat)} {stack : SortStack}

theorem PUSH_run {r : Nat × Nat} (hstands : Stands top stack rs) (hhalved : Halved n (r :: rs))
    (hlong : r.1 + MAX_THRESH ≤ r.2) (hn : n < 2 ^ 64) :
    PUSH (top :: stack) lo hi = some (some (lo, hi) :: top :: stack) := by
  have hlen : (top :: stack).length = rs.length + 1 := by
    rw [hstands]
    simp
  have hshort : rs.length < 62 := by
    by_contra hge
    have hpow : 2 ^ 62 ≤ 2 ^ rs.length := Nat.pow_le_pow_right (by decide) (by omega)
    have hmul : 4 * 2 ^ 62 ≤ (r.2 - r.1 + 1) * 2 ^ rs.length := by
      rw [MAX_THRESH] at hlong
      exact Nat.mul_le_mul (by omega) hpow
    have := hhalved.1
    omega
  rw [PUSH, hlen, if_pos]
  rw [STACK_SIZE]
  omega

/-- **The next range.** The stack has room, and the range that is sorted first is the shorter one. -/
theorem nextRange_run (hstands : Stands top stack rs) (hhalved : Halved n ((lo, hi) :: rs))
    (hn : n < 2 ^ 64) (hlong : lo + MAX_THRESH ≤ hi) (hcross : right < left)
    (hright : lo ≤ right) (hleft : left ≤ hi) :
    ∃ range stack' rs', nextRange lo hi left right top stack = some (range, stack') ∧
      Stands range stack' rs' ∧ Halved n rs' ∧ NextRanges lo hi left right rs rs' := by
  obtain ⟨hhead, htail⟩ := hhalved
  have hpow : 0 < 2 ^ rs.length := Nat.two_pow_pos _
  have hfits : ∀ k, k ≤ hi - lo + 1 → k * 2 ^ rs.length ≤ n := fun k hk =>
    (Nat.mul_le_mul_right _ hk).trans hhead
  have hhalf : ∀ k, 2 * k ≤ hi - lo + 1 → k * 2 ^ (rs.length + 1) ≤ n := by
    intro k hk
    have := hfits (2 * k) hk
    rwa [Nat.pow_succ, Nat.mul_comm (2 ^ rs.length) 2, ← Nat.mul_assoc, Nat.mul_comm k 2]
  have hstand : ∀ r, Stands (some r) (top :: stack) (r :: rs) := by
    intro r
    rw [Stands, hstands]
    rfl
  have hstand₂ : ∀ r r', Stands (some r) (some r' :: top :: stack) (r :: r' :: rs) := by
    intro r r'
    rw [Stands, hstands]
    rfl
  have hl : withinThresh right lo ↔ right ≤ lo + MAX_THRESH := by
    rw [withinThresh]
    omega
  have hr : withinThresh hi left ↔ hi ≤ left + MAX_THRESH := by
    rw [withinThresh]
    omega
  -- The branches of the code: both parts short, the left, the right, neither.
  rw [nextRange]
  by_cases hlshort : withinThresh right lo
  · rw [if_pos hlshort]
    by_cases hrshort : withinThresh hi left
    · rw [if_pos hrshort]
      refine ⟨_, _, rs, rfl, hstands, htail, ?_, fun r hr => .inl hr, ?_⟩
      · exact ((List.sublist_cons_self _ _).trans (List.sublist_cons_self _ _)).subperm
      · simp only [List.mem_cons]
        rintro r (rfl | rfl | hr')
        · exact .inr (hl.mp hlshort)
        · exact .inr (hr.mp hrshort)
        · exact .inl hr'
    · rw [if_neg hrshort]
      refine ⟨_, _, (left, hi) :: rs, rfl, hstand _, ⟨hfits _ (by simp only; omega), htail⟩,
        ?_, ?_, ?_⟩
      · exact (List.sublist_cons_self _ _).subperm
      · simp only [List.mem_cons]
        rintro r (rfl | hr')
        · exact .inr (Nat.le_of_lt (Nat.lt_of_not_le (mt hr.mpr hrshort)))
        · exact .inl hr'
      · intro r hr'
        rcases List.mem_cons.mp hr' with rfl | hr'
        · exact .inr (hl.mp hlshort)
        · exact .inl hr'
  · rw [if_neg hlshort]
    have hllong : lo + MAX_THRESH ≤ right := Nat.le_of_lt (Nat.lt_of_not_le (mt hl.mpr hlshort))
    by_cases hrshort : withinThresh hi left
    · rw [if_pos hrshort]
      refine ⟨_, _, (lo, right) :: rs, rfl, hstand _, ⟨hfits _ (by simp only; omega), htail⟩,
        ?_, ?_, ?_⟩
      · exact ((List.sublist_cons_self _ _).cons_cons _).subperm
      · simp only [List.mem_cons]
        rintro r (rfl | hr')
        · exact .inr hllong
        · exact .inl hr'
      · simp only [List.mem_cons]
        rintro r (rfl | rfl | hr')
        · exact .inl (.inl rfl)
        · exact .inr (hr.mp hrshort)
        · exact .inl (.inr hr')
    · rw [if_neg hrshort]
      have hrlong : left + MAX_THRESH ≤ hi := Nat.le_of_lt (Nat.lt_of_not_le (mt hr.mpr hrshort))
      -- The longer part is pushed, so that the ranges on the stack halve from one to the next.
      by_cases hlonger : (right : Int) - lo > (hi : Int) - left
      · rw [if_pos hlonger, PUSH_run hstands ⟨hhead, htail⟩ hlong hn]
        refine ⟨_, _, (left, hi) :: (lo, right) :: rs, rfl, hstand₂ _ _,
          ⟨hhalf _ (by simp only; omega), hfits _ (by simp only; omega), htail⟩, ?_, ?_, ?_⟩
        · exact (List.Perm.swap _ _ rs).subperm
        · simp only [List.mem_cons]
          rintro r (rfl | rfl | hr')
          · exact .inr hrlong
          · exact .inr hllong
          · exact .inl hr'
        · exact fun r hr' => .inl ((List.Perm.swap _ _ rs).mem_iff.mp hr')
      · rw [if_neg hlonger, PUSH_run hstands ⟨hhead, htail⟩ hlong hn]
        refine ⟨_, _, (lo, right) :: (left, hi) :: rs, rfl, hstand₂ _ _,
          ⟨hhalf _ (by simp only; omega), hfits _ (by simp only; omega), htail⟩, .refl _, ?_,
          fun r hr' => .inl hr'⟩
        simp only [List.mem_cons]
        rintro r (rfl | rfl | hr')
        · exact .inr hllong
        · exact .inr hrlong
        · exact .inl hr'

end Stack

/-! ## The ranges -/

section Quick

variable {xs₀ zs : List α} {rs' : List (Nat × Nat)}

/-- No place lies in both. -/
def Apart (r r' : Nat × Nat) : Prop := r.2 < r'.1 ∨ r'.2 < r.1

/-- The array is sorted but for the ranges, which lie apart between cuts. -/
structure SortedBut (key : α → Nat) (xs₀ xs : List α) (rs : List (Nat × Nat)) : Prop where
  perm : xs.Perm xs₀
  parted : Parted key MAX_THRESH rs xs
  apart : rs.Pairwise Apart
  ranges : ∀ r ∈ rs, r.1 + MAX_THRESH ≤ r.2 ∧ r.2 < xs₀.length ∧
    Cut key xs r.1 ∧ Cut key xs (r.2 + 1)

theorem NextRanges.apart (h : NextRanges lo hi left right rs rs')
    (hrs : ((lo, hi) :: rs).Pairwise Apart)
    (hcross : right < left) (hright : right < hi) (hleft : lo < left) : rs'.Pairwise Apart := by
  rw [List.pairwise_cons] at hrs
  -- The new ranges are among the two parts and the old ones.
  have hall : ((lo, right) :: (left, hi) :: rs).Pairwise Apart := by
    refine List.pairwise_cons.mpr ⟨?_, List.pairwise_cons.mpr ⟨?_, hrs.2⟩⟩
    · intro r hr
      rcases List.mem_cons.mp hr with rfl | hr
      · exact .inl hcross
      · have := hrs.1 r hr
        simp only [Apart] at this ⊢
        omega
    · intro r hr
      have := hrs.1 r hr
      simp only [Apart] at this ⊢
      omega
  obtain ⟨us, hperm, hsub⟩ := h.part
  exact (hperm.pairwise_iff Or.symm).mp (hall.sublist hsub)

/-- The places that the ranges go over. -/
def spread (rs : List (Nat × Nat)) : Nat := (rs.map fun r => r.2 - r.1).sum

theorem NextRanges.spread_lt (h : NextRanges lo hi left right rs rs') (hcross : right < left)
    (hright : lo ≤ right) (hleft : left ≤ hi) : spread rs' < spread ((lo, hi) :: rs) := by
  obtain ⟨us, hperm, hsub⟩ := h.part
  have hle : spread rs' ≤ spread ((lo, right) :: (left, hi) :: rs) := by
    rw [spread, spread, ← (hperm.map _).sum_eq]
    exact (hsub.map _).sum_le_sum fun _ _ => Nat.zero_le _
  refine Nat.lt_of_le_of_lt hle ?_
  simp only [spread, List.map_cons, List.sum_cons]
  omega

/-- **One partition.** The array is sorted but for the ranges that are left. -/
theorem SortedBut.collapsed (h : SortedBut key xs₀ xs ((lo, hi) :: rs)) {p : Nat}
    (hc : Collapsed key lo hi p xs (ys, left, right))
    (hnext : NextRanges lo hi left right rs rs') : SortedBut key xs₀ ys rs' := by
  obtain ⟨⟨hw, hlow, hhigh, hleftgt, hrightlt⟩, hcross, hlefthi, hright⟩ := hc
  simp only at hw hlow hhigh hleftgt hrightlt hcross hlefthi hright
  obtain ⟨hlong, hlen, hlo, hhi⟩ := h.ranges _ List.mem_cons_self
  have hlo' : Cut key ys lo := hlo.within hw (.inl (Nat.le_refl lo))
  have hhi' : Cut key ys (hi + 1) := hhi.within hw (.inr (Nat.le_refl _))
  have hparted := h.parted.split hlo hhi hw hcross ⟨hright, hlefthi⟩ hlow hhigh
  refine ⟨hw.perm.trans h.perm, hparted.of_short hnext.short,
    hnext.apart h.apart hcross hrightlt hleftgt, ?_⟩
  -- The ranges that wait lie apart from this one, and nothing in them moves.
  have hkept : ∀ r ∈ rs, r.1 + MAX_THRESH ≤ r.2 ∧ r.2 < xs₀.length ∧
      Cut key ys r.1 ∧ Cut key ys (r.2 + 1) := by
    intro r hr
    obtain ⟨hrlong, hrlen, hr1, hr2⟩ := h.ranges r (List.mem_cons_of_mem _ hr)
    have hapart := (List.pairwise_cons.mp h.apart).1 r hr
    simp only [Apart] at hapart
    exact ⟨hrlong, hrlen, hr1.within hw (by omega), hr2.within hw (by omega)⟩
  intro r hr
  rcases hnext.long r hr with hrs | hrlong
  · exact hkept r hrs
  · have hmem := hnext.part.subset hr
    simp only [List.mem_cons] at hmem
    -- The two sides of the partition end where it has cut the array.
    rcases hmem with rfl | rfl | hrs
    · refine ⟨hrlong, by simp only; omega, hlo', ?_⟩
      exact hlo'.split hhi' ⟨hright, hlefthi⟩ hlow hhigh ⟨Nat.lt_succ_self _, hcross⟩
    · refine ⟨hrlong, hlen, ?_, hhi'⟩
      exact hlo'.split hhi' ⟨hright, hlefthi⟩ hlow hhigh ⟨hcross, Nat.le_refl _⟩
    · exact hkept r hrs

/-- One pass of the loop over the stack. -/
theorem quickPass_run {top : Option (Nat × Nat)} {stack : SortStack} (hk : Keyed cmp key xs₀)
    (hn : xs₀.length < 2 ^ 64) (hfuel : xs₀.length ≤ fuel)
    (h : SortedBut key xs₀ xs ((lo, hi) :: rs)) (hhalved : Halved xs₀.length ((lo, hi) :: rs))
    (hstands : Stands top stack rs) :
    ∃ ys range stack' rs',
      quickPass cmp fuel (xs, some (lo, hi), top :: stack) = some (.again (ys, range, stack')) ∧
      SortedBut key xs₀ ys rs' ∧ Halved xs₀.length rs' ∧ Stands range stack' rs' ∧
      spread rs' < spread ((lo, hi) :: rs) := by
  obtain ⟨hlong, hlen, -, -⟩ := h.ranges _ List.mem_cons_self
  have hxlen := h.perm.length_eq
  have hkx := hk.perm h.perm
  rw [MAX_THRESH] at hlong
  simp only at hlong hlen
  obtain ⟨us, hmedian, hwu, hulo, huhi⟩ := medianOfThree_run hkx
    (show lo < lo + (hi - lo) / 2 by omega) (by omega) (show hi < xs.length by omega)
  -- The ends bound the pivot, so that both scans stop inside the range.
  have hstart : Collapsing key lo hi (keyAt key us (lo + (hi - lo) / 2)) xs
      (us, lo + (hi - lo) / 2, lo + 1, hi - 1) := by
    refine ⟨⟨hwu, ?_, ?_, ?_, ?_⟩, rfl, ?_, ?_⟩
    · intro i hloi hilo
      obtain rfl : i = lo := by
        simp only at hilo
        omega
      exact hulo
    · intro i hhii hihi
      obtain rfl : i = hi := by
        simp only at hhii
        omega
      exact huhi
    all_goals simp only; omega
  obtain ⟨⟨ys, left, right⟩, hloop, hc⟩ := collapse_run hkx (by omega) hstart
    (show hi - lo < fuel by omega)
  have hcross : right < left := hc.crossed
  have hlefthi : left ≤ hi := hc.left_le
  have hright : lo ≤ right := hc.le_right
  obtain ⟨range, stack', rs', hrange, hstands', hhalved', hnext⟩ :=
    nextRange_run hstands hhalved hn hlong hcross hright hlefthi
  refine ⟨ys, range, stack', rs', ?_, h.collapsed hc hnext, hhalved', hstands',
    hnext.spread_lt hcross hright hlefthi⟩
  rw [quickPass]
  simp only [Option.bind_eq_bind, hmedian, Option.bind_some, stepBack, if_neg (show hi ≠ 0 by omega),
    hloop, hrange]

/-- **The first phase** leaves elements more than four places apart in order. -/
theorem quick_run (hk : Keyed cmp key xs) (hn : xs.length < 2 ^ 64) (hlong : MAX_THRESH < xs.length)
    (hfuel : xs.length ≤ fuel) :
    ∃ ys, loop (quickPass cmp fuel) fuel (xs, some (0, xs.length - 1), [none]) = some ys ∧
      ys.Perm xs ∧ Nearly key MAX_THRESH ys := by
  rw [MAX_THRESH] at hlong
  have hrange : (0 : Nat) < xs.length - 1 := by omega
  have hstart : SortedBut key xs xs [(0, xs.length - 1)] := by
    refine ⟨.refl _, ?_, List.pairwise_singleton _ _, ?_⟩
    · exact fun i j _ hj => .inr ⟨_, List.mem_cons_self, Nat.zero_le i, Nat.le_sub_one_of_lt hj⟩
    · intro r hr
      rw [List.mem_singleton.mp hr, MAX_THRESH]
      have hlast : Cut key xs xs.length := cut_length
      rw [show xs.length = xs.length - 1 + 1 by omega] at hlast
      exact ⟨by simp only; omega, by simp only; omega, cut_zero, hlast⟩
  have hhalved : Halved xs.length [(0, xs.length - 1)] :=
    ⟨by simp only [List.length_nil]; omega, trivial⟩
  have hstands : Stands (some (0, xs.length - 1)) [none] [(0, xs.length - 1)] := rfl
  -- The array is sorted but for the ranges on the stack, and these cover less with every pass.
  refine loop_variant (I := fun s => ∃ rs, SortedBut key xs s.1 rs ∧ Halved xs.length rs ∧
    Stands s.2.1 s.2.2 rs) (fun s => spread (s.2.1 :: s.2.2).reduceOption) ?_
    ⟨_, hstart, hhalved, hstands⟩ ?_
  · rintro ⟨ys, range, stack⟩ ⟨rs, h, hhalved, hstands⟩
    cases rs with
    | nil =>
        -- No range is left, so the stack is empty.
        obtain ⟨rfl, rfl⟩ : range = none ∧ stack = [] := by simpa [Stands] using hstands
        exact .inr ⟨ys, rfl, h.perm, h.parted.nearly⟩
    | cons r rs =>
        obtain ⟨lo, hi⟩ := r
        have hsplit : range = some (lo, hi) ∧ stack = rs.map some ++ [none] := by
          simpa [Stands] using hstands
        obtain ⟨rfl, rfl⟩ := hsplit
        obtain ⟨top, stack, hstack⟩ := List.exists_cons_of_ne_nil
          (show rs.map some ++ [none] ≠ [] by simp)
        rw [hstack]
        obtain ⟨zs, range, stack', rs', hrun, h', hhalved', hstands', hlt⟩ :=
          quickPass_run hk hn hfuel h hhalved hstack.symm
        refine .inl ⟨_, hrun, ⟨rs', h', hhalved', hstands'⟩, ?_⟩
        rw [hstands'.reduce]
        rwa [← hstack, (show Stands _ _ _ from hstands).reduce]
  · simp only [hstands.reduce, spread, List.map_cons, List.map_nil, List.sum_singleton]
    omega

end Quick

end Stdlib
end EmbeddedOS
