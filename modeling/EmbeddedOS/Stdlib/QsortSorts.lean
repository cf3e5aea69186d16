import EmbeddedOS.Base.Sorting
import EmbeddedOS.Stdlib.QsortStack

/-!
# `quicksort` sorts

Among elements that are nearly in order the smallest is one of the first five. It comes to the front,
where it stops every insertion, and the insertions sort the rest.
-/

namespace EmbeddedOS
namespace Stdlib

open Base

variable {α : Type} {cmp : α → α → Int} {key : α → Nat} {xs ys : List α} {i j k : Nat} {fuel : Nat}

/-! ## The smallest element -/

section Smallest

variable {thresh : Nat}

theorem smallest_run (h : Keyed cmp key xs) (hthresh : thresh < xs.length)
    (hfuel : thresh < fuel) :
    ∃ tmp, loop (smallestPass cmp xs thresh) fuel (1, 0) = some tmp ∧ tmp ≤ thresh ∧
      ∀ i, i ≤ thresh → keyAt key xs tmp ≤ keyAt key xs i := by
  -- `tmp` is the smallest of the keys in front of `run`.
  refine loop_variant (I := fun s => 0 < s.1 ∧ s.2 ≤ thresh ∧
    ∀ i, i < s.1 → i ≤ thresh → keyAt key xs s.2 ≤ keyAt key xs i)
    (fun s => thresh + 1 - s.1) ?_ ⟨Nat.one_pos, Nat.zero_le _, ?_⟩ (by simp only; omega)
  · rintro ⟨run, tmp⟩ ⟨hpos, htmp, hleast⟩
    simp only at hpos htmp hleast
    by_cases hrun : run ≤ thresh
    · obtain ⟨c, hc, hless⟩ := compareAt_run h (show run < xs.length by omega)
        (show tmp < xs.length by omega)
      have hpass : smallestPass cmp xs thresh (run, tmp) =
          some (.again (run + 1, if c < 0 then run else tmp)) := by
        rw [smallestPass, if_pos hrun, hc]
        rfl
      refine .inl ⟨_, hpass, ⟨Nat.succ_pos _, ?_, ?_⟩, by simp only; omega⟩
      · simp only
        split <;> assumption
      · intro i hi hit
        simp only at hi ⊢
        by_cases hneg : c < 0
        · have := hless.mp hneg
          rw [if_pos hneg]
          rcases Nat.lt_succ_iff_lt_or_eq.mp hi with hi | rfl
          · exact Nat.le_trans (Nat.le_of_lt this) (hleast i hi hit)
          · exact Nat.le_refl _
        · have := mt hless.mpr hneg
          rw [if_neg hneg]
          rcases Nat.lt_succ_iff_lt_or_eq.mp hi with hi | rfl
          · exact hleast i hi hit
          · omega
    · refine .inr ⟨tmp, ?_, htmp, fun i hi => hleast i (by omega) hi⟩
      rw [smallestPass, if_neg hrun]
  · intro i hi _
    obtain rfl : i = 0 := by
      simp only at hi
      omega
    exact Nat.le_refl _

/-- In an array nearly in order the smallest of the first elements is the smallest of all. -/
theorem smallest_least {d tmp : Nat} (h : Nearly key d xs) (hthresh : thresh = min (xs.length - 1) d)
    (hleast : ∀ i, i ≤ thresh → keyAt key xs tmp ≤ keyAt key xs i) (hi : i < xs.length) :
    keyAt key xs tmp ≤ keyAt key xs i := by
  by_cases hit : i ≤ thresh
  · exact hleast i hit
  · exact (hleast 0 (Nat.zero_le _)).trans (h 0 i (by omega) hi)

end Smallest

/-! ## Insertions -/

section Insertion

variable {run tmp last : Nat} {x : α}

/-- The elements from `tmp` on go up by one place. -/
theorem shift_run (hx : xs[run]? = some x) (htmp : tmp ≤ run) (hfuel : run - tmp < fuel) :
    insertDown fuel xs run tmp = some (moveDown xs tmp run x) := by
  have hrun := (List.getElem?_eq_some_iff.mp hx).1
  -- All above `hi` have moved up; what stands at `hi` itself is written over next.
  have hloop : ∃ r, loop (shiftPass tmp) fuel (xs, run) = some r ∧ r.2 = tmp ∧
      r.1.length = xs.length ∧
      ∀ k, k ≠ tmp → r.1[k]? = if tmp < k ∧ k ≤ run then xs[k - 1]? else xs[k]? := by
    refine loop_variant (I := fun s => tmp ≤ s.2 ∧ s.2 ≤ run ∧ s.1.length = xs.length ∧
      ∀ k, k ≠ s.2 → s.1[k]? = if s.2 < k ∧ k ≤ run then xs[k - 1]? else xs[k]?)
      (fun s => s.2 - tmp) ?_ ⟨htmp, Nat.le_refl _, rfl, ?_⟩ hfuel
    · rintro ⟨ys, hi⟩ ⟨hlow, hhigh, hlen, hys⟩
      simp only at hlow hhigh hlen hys
      by_cases hmore : tmp < hi
      · have hy : ys[hi - 1]? = some ys[hi - 1] := List.getElem?_eq_getElem (by omega)
        have hpass : shiftPass tmp (ys, hi) = some (.again (ys.set hi ys[hi - 1], hi - 1)) := by
          rw [shiftPass, if_pos hmore, hy]
          rfl
        refine .inl ⟨_, hpass, ⟨?_, ?_, ?_, ?_⟩, ?_⟩
        · simp only
          omega
        · simp only
          omega
        · rw [List.length_set, hlen]
        · intro k hk
          simp only at hk ⊢
          by_cases hkhi : k = hi
          · subst hkhi
            rw [List.getElem?_set_self (by omega), if_pos (by omega), ← hy, hys _ (by omega),
              if_neg (by omega)]
          · rw [List.getElem?_set_ne (Ne.symm hkhi), hys k hkhi]
            by_cases hin : hi < k ∧ k ≤ run
            · rw [if_pos hin, if_pos (by omega)]
            · rw [if_neg hin, if_neg (by omega)]
        · simp only
          omega
      · obtain rfl : hi = tmp := by omega
        refine .inr ⟨(ys, hi), ?_, rfl, hlen, hys⟩
        rw [shiftPass, if_neg hmore]
    · intro k hk
      simp only at hk ⊢
      rw [if_neg (by omega)]
  obtain ⟨⟨ys, hi⟩, hloop, rfl, hlen, hys⟩ := hloop
  rw [insertDown, hx]
  simp only [Option.bind_eq_bind, Option.bind_some, hloop, Option.some.injEq]
  refine List.ext_getElem? fun k => ?_
  rw [getElem?_moveDown hx htmp]
  by_cases hk : k = hi
  · subst hk
    rw [if_pos rfl, List.getElem?_set_self (by simp only at hlen; omega)]
  · rw [if_neg hk, List.getElem?_set_ne (Ne.symm hk), hys k hk]

/-- The elements up to `run` are in order, and the first is the smallest of all. -/
structure Inserted (key : α → Nat) (xs₀ : List α) (s : List α × Nat) : Prop where
  perm : s.1.Perm xs₀
  pos : 0 < s.2
  least : ∀ i, i < xs₀.length → keyAt key s.1 0 ≤ keyAt key s.1 i
  sorted : ∀ i j, i < j → j ≤ s.2 → j < xs₀.length → keyAt key s.1 i ≤ keyAt key s.1 j

theorem keyAt_moveDown (hx : xs[run]? = some x) (htmp : tmp ≤ run) (k : Nat) :
    keyAt key (moveDown xs tmp run x) k =
      if k = tmp then keyAt key xs run
      else if tmp < k ∧ k ≤ run then keyAt key xs (k - 1) else keyAt key xs k := by
  have hget := getElem?_moveDown hx htmp k
  by_cases hk : k = tmp
  · rw [if_pos hk] at hget ⊢
    rw [keyAt_eq hget, keyAt_eq hx]
  · rw [if_neg hk] at hget ⊢
    by_cases hin : tmp < k ∧ k ≤ run
    · rw [if_pos hin] at hget ⊢
      rw [keyAt, hget, keyAt]
    · rw [if_neg hin] at hget ⊢
      exact keyAt_congr hget

/-- **One insertion** puts the next element in its place. -/
theorem Inserted.insert {xs₀ : List α} {s : Nat} (h : Inserted key xs₀ (xs, s))
    (hx : xs[s + 1]? = some x) (htmp : tmp ≤ s) (hkey : keyAt key xs tmp ≤ keyAt key xs (s + 1))
    (hgreater : ∀ i, tmp < i → i ≤ s → keyAt key xs (s + 1) < keyAt key xs i) :
    Inserted key xs₀ (moveDown xs (tmp + 1) (s + 1) x, s + 1) := by
  have hlen := h.perm.length_eq
  have hs := (List.getElem?_eq_some_iff.mp hx).1
  have hle : tmp + 1 ≤ s + 1 := Nat.succ_le_succ htmp
  have hleast := h.least
  have hsorted := h.sorted
  simp only at hlen hleast hsorted
  refine ⟨(moveDown_perm hx hle).trans h.perm, Nat.succ_pos _, ?_, ?_⟩
  · intro i hi
    rw [keyAt_moveDown hx hle, keyAt_moveDown hx hle, if_neg (by omega), if_neg (by omega)]
    split
    · exact hleast _ (by omega)
    · split
      · exact hleast _ (by omega)
      · exact hleast _ hi
  · intro i j hij hjs hj
    simp only at hjs ⊢
    rw [keyAt_moveDown hx hle, keyAt_moveDown hx hle]
    -- Where `i` and `j` stand: at the new place, below it, among those that moved, or above.
    by_cases hit : i = tmp + 1
    · rw [if_pos hit, if_neg (by omega), if_pos (by omega)]
      exact Nat.le_of_lt (hgreater _ (by omega) (by omega))
    · rw [if_neg hit]
      by_cases hjt : j = tmp + 1
      · rw [if_pos hjt, if_neg (by omega)]
        by_cases heq : i = tmp
        · rw [heq]
          exact hkey
        · exact (hsorted i tmp (by omega) htmp (by omega)).trans hkey
      · rw [if_neg hjt]
        by_cases hin : tmp + 1 < i ∧ i ≤ s + 1
        · rw [if_pos hin, if_pos (by omega)]
          exact hsorted _ _ (by omega) (by omega) (by omega)
        · rw [if_neg hin]
          by_cases hjn : tmp + 1 < j ∧ j ≤ s + 1
          · rw [if_pos hjn]
            by_cases heq : i = j - 1
            · rw [heq]
            · exact hsorted _ _ (by omega) (by omega) (by omega)
          · rw [if_neg hjn]
            exact hsorted i j hij (by omega) hj

/-- **The insertions** sort the array. -/
theorem insert_run {xs₀ : List α} (hk : Keyed cmp key xs₀) (h : Inserted key xs₀ (xs, 1))
    (hlast : last + 1 = xs₀.length) (hfuel : xs₀.length ≤ fuel) :
    ∃ ys, loop (insertPass cmp fuel last) fuel (xs, 1) = some ys ∧ ys.Perm xs₀ ∧
      ∀ i j, i < j → j < ys.length → keyAt key ys i ≤ keyAt key ys j := by
  refine loop_variant (fun s => last - s.2) ?_ h (by simp only; omega)
  rintro ⟨ys, s⟩ h
  have hlen := h.perm.length_eq
  have hleast := h.least
  simp only at hlen hleast
  by_cases hmore : s + 1 ≤ last
  · obtain ⟨x, hx⟩ : ∃ x, ys[s + 1]? = some x :=
      ⟨_, List.getElem?_eq_getElem (show s + 1 < ys.length by omega)⟩
    obtain ⟨tmp, hplace, -, htmp, hkey, hgreater⟩ := rightScan_run (hk.perm h.perm)
      (show s + 1 < ys.length by omega) (show s < ys.length by omega)
      (hleast (s + 1) (by omega)) (Nat.zero_le s) (show s - 0 < fuel by omega)
    have hpass : insertPass cmp fuel last (ys, s) =
        some (.again (moveDown ys (tmp + 1) (s + 1) x, s + 1)) := by
      simp only [insertPass, if_pos hmore, Nat.add_sub_cancel, Option.bind_eq_bind, hplace,
        Option.bind_some]
      -- An element that is in its place already is not moved.
      by_cases hne : tmp = s
      · rw [hne, moveDown_self hx, if_neg (not_not_intro rfl)]
      · rw [if_pos (by omega), shift_run hx (by omega) (by omega), Option.bind_some]
    exact .inl ⟨_, hpass, h.insert hx htmp hkey hgreater, by simp only; omega⟩
  · refine .inr ⟨ys, ?_, h.perm, fun i j hij hj => h.sorted i j hij (by simp only; omega) (by omega)⟩
    rw [insertPass]
    exact if_neg hmore

end Insertion

/-! ## The whole sort -/

theorem quicksort_eq (hpos : xs.length ≠ 0) : quicksort cmp fuel xs =
    (if xs.length > MAX_THRESH then
      loop (quickPass cmp fuel) fuel (xs, some (0, xs.length - 1), [none]) else some xs).bind fun us =>
      (loop (smallestPass cmp us (min (xs.length - 1) MAX_THRESH)) fuel (1, 0)).bind fun tmp =>
        (if tmp ≠ 0 then SWAP us tmp 0 else some us).bind fun zs =>
          loop (insertPass cmp fuel (xs.length - 1)) fuel (zs, 1) := by
  have hjoin : ∀ (c : Prop) [Decidable c] (a b : Option (List α)) (f : List α → Option (List α)),
      (if c then a.bind f else b.bind f) = (if c then a else b).bind f :=
    fun c _ a b f => (apply_ite (Option.bind · f) c a b).symm
  rw [quicksort, if_neg hpos]
  simp only [Option.bind_eq_bind, hjoin]

/-- The three loops one after the other. -/
theorem quicksort_loops (hk : Keyed cmp key xs) (hlen : xs.length < 2 ^ 64)
    (hfuel : xs.length < fuel) :
    ∃ ys, quicksort cmp fuel xs = some ys ∧ ys.Perm xs ∧
      ∀ i j, i < j → j < ys.length → keyAt key ys i ≤ keyAt key ys j := by
  -- An empty table is returned as it is.
  by_cases hempty : xs.length = 0
  · obtain rfl := List.length_eq_zero_iff.mp hempty
    exact ⟨[], rfl, .refl _, fun i j _ hj => absurd hj (Nat.not_lt_zero j)⟩
  obtain ⟨us, hquick, hperm, hnearly⟩ : ∃ us, (if xs.length > MAX_THRESH then
      loop (quickPass cmp fuel) fuel (xs, some (0, xs.length - 1), [none]) else some xs) = some us ∧
      us.Perm xs ∧ Nearly key MAX_THRESH us := by
    by_cases hlong : xs.length > MAX_THRESH
    · rw [if_pos hlong]
      exact quick_run hk hlen hlong (Nat.le_of_lt hfuel)
    · rw [if_neg hlong]
      exact ⟨xs, rfl, .refl _, fun i j hij hj => by omega⟩
  have hulen := hperm.length_eq
  obtain ⟨tmp, hsmallest, htmp, hleast⟩ := smallest_run (hk.perm hperm)
    (show min (xs.length - 1) MAX_THRESH < us.length by omega)
    (show min (xs.length - 1) MAX_THRESH < fuel by omega)
  -- What is nearly sorted has its smallest key among the first elements.
  have hall : ∀ i, i < us.length → keyAt key us tmp ≤ keyAt key us i := fun i hi =>
    smallest_least hnearly (by rw [hulen]) hleast hi
  obtain ⟨zs, hswap, hzperm, hfirst⟩ : ∃ zs, (if tmp ≠ 0 then SWAP us tmp 0 else some us) = some zs ∧
      zs.Perm us ∧ ∀ i, i < us.length → keyAt key zs 0 ≤ keyAt key zs i := by
    by_cases hzero : tmp = 0
    · rw [hzero] at hall ⊢
      exact ⟨us, if_neg (not_not_intro rfl), .refl _, hall⟩
    · rw [if_pos hzero]
      obtain ⟨zs, hswap, hw, hkeys⟩ := SWAP_run (i := tmp) (j := 0) key
        (show 0 ≤ tmp ∧ tmp ≤ us.length - 1 by omega) (by omega)
        (show us.length - 1 < us.length by omega)
      refine ⟨zs, hswap, hw.perm, fun i hi => ?_⟩
      rw [hkeys 0, if_pos rfl, hkeys i]
      split
      · exact Nat.le_refl _
      · split
        · exact hall 0 (by omega)
        · exact hall i hi
  have hzperm' : zs.Perm xs := hzperm.trans hperm
  have hzlen := hzperm'.length_eq
  -- With the smallest key in front the insertions never run off the array.
  have hstart : Inserted key xs (zs, 1) := by
    refine ⟨hzperm', Nat.one_pos, fun i hi => hfirst i (by omega), ?_⟩
    intro i j hij hj hjl
    obtain rfl : i = 0 := by
      simp only at hj
      omega
    exact hfirst j (by omega)
  obtain ⟨ys, hinsert, hyperm, hsorted⟩ := insert_run hk hstart
    (show xs.length - 1 + 1 = xs.length by omega) (Nat.le_of_lt hfuel)
  refine ⟨ys, ?_, hyperm, hsorted⟩
  rw [quicksort_eq hempty, hquick, Option.bind_some, hsmallest, Option.bind_some, hswap,
    Option.bind_some, hinsert]

theorem pairwise_of_keyAt (h : ∀ i j, i < j → j < ys.length → keyAt key ys i ≤ keyAt key ys j) :
    ys.Pairwise fun x y => key x ≤ key y := by
  refine List.pairwise_iff_getElem.mpr fun i j hi hj hij => ?_
  have := h i j hij hj
  rwa [keyAt_eq (List.getElem?_eq_getElem hi), keyAt_eq (List.getElem?_eq_getElem hj)] at this

section Any

theorem SWAP_perm (h : SWAP xs i j = some ys) : ys.Perm xs := by
  simp only [SWAP, Option.bind_eq_bind, Option.bind_eq_some_iff] at h
  obtain ⟨x, hx, y, hy, h⟩ := h
  cases h
  have hwithin : Shuffled 0 (i + j + 1) xs ((xs.set i y).set j x) :=
    Shuffled.swap hx hy (by omega) (by omega)
  exact hwithin.perm

theorem swapIfLess_perm (h : swapIfLess cmp xs i j = some ys) : ys.Perm xs := by
  simp only [swapIfLess, Option.bind_eq_bind, Option.bind_eq_some_iff] at h
  obtain ⟨c, -, h⟩ := h
  by_cases hc : c < 0
  · rw [if_pos hc] at h
    exact SWAP_perm h
  · rw [if_neg hc] at h
    cases h
    exact .refl _

theorem medianOfThree_perm (h : medianOfThree cmp xs i j k = some ys) : ys.Perm xs := by
  simp only [medianOfThree, Option.bind_eq_bind, Option.bind_eq_some_iff] at h
  obtain ⟨us, hus, c, -, h⟩ := h
  by_cases hc : c < 0
  · rw [if_pos hc, Option.bind_eq_some_iff] at h
    obtain ⟨zs, hzs, h⟩ := h
    exact (swapIfLess_perm h).trans ((SWAP_perm hzs).trans (swapIfLess_perm hus))
  · rw [if_neg hc] at h
    cases h
    exact swapIfLess_perm hus

theorem again_only {σ ρ : Type} {I : σ → Prop} {P : ρ → Prop} {s : σ} (hs : I s) :
    (∀ t, (.again s : Pass σ ρ) = .again t → I t) ∧ ∀ t, (.again s : Pass σ ρ) = .done t → P t := by
  refine ⟨?_, by rintro t ⟨⟩⟩
  rintro t ⟨⟩
  exact hs

theorem done_only {σ ρ : Type} {I : σ → Prop} {P : ρ → Prop} {r : ρ} (hr : P r) :
    (∀ t, (.done r : Pass σ ρ) = .again t → I t) ∧ ∀ t, (.done r : Pass σ ρ) = .done t → P t := by
  refine ⟨by rintro t ⟨⟩, ?_⟩
  rintro t ⟨⟩
  exact hr

/-- One pass of a partition exchanges elements. -/
theorem collapsePass_perm {s : List α × Nat × Nat × Nat}
    {r : Pass (List α × Nat × Nat × Nat) (List α × Nat × Nat)}
    (h : collapsePass cmp fuel s = some r) :
    (∀ t, r = .again t → t.1.Perm s.1) ∧ ∀ t, r = .done t → t.1.Perm s.1 := by
  obtain ⟨xs, mid, left, right⟩ := s
  simp only [collapsePass, Option.bind_eq_bind, Option.bind_eq_some_iff] at h
  obtain ⟨l, -, r', -, h⟩ := h
  by_cases hlt : l < r'
  · rw [if_pos hlt] at h
    simp only [Option.bind_eq_some_iff] at h
    obtain ⟨ys, hys, r'', -, h⟩ := h
    have hperm := SWAP_perm hys
    by_cases hmore : l + 1 ≤ r''
    · rw [if_pos hmore] at h
      cases h
      exact again_only hperm
    · rw [if_neg hmore] at h
      cases h
      exact done_only hperm
  · rw [if_neg hlt] at h
    by_cases heq : l = r'
    · rw [if_pos heq, Option.bind_eq_some_iff] at h
      obtain ⟨r'', -, h⟩ := h
      cases h
      exact done_only (.refl _)
    · rw [if_neg heq] at h
      cases h
      exact done_only (.refl _)

theorem collapse_perm {s : List α × Nat × Nat × Nat} {r : List α × Nat × Nat}
    (h : loop (collapsePass cmp fuel) fuel s = some r) : r.1.Perm s.1 :=
  Returns.invariant (I := fun t => t.1.Perm s.1) (P := fun t => t.1.Perm s.1)
    (fun _ u ht hpass => ((collapsePass_perm hpass).1 u rfl).trans ht)
    (fun _ u ht hpass => ((collapsePass_perm hpass).2 u rfl).trans ht) ⟨fuel, h⟩ (.refl _)

theorem quick_perm {s : List α × Option (Nat × Nat) × SortStack}
    (h : loop (quickPass cmp fuel) fuel s = some ys) : ys.Perm s.1 := by
  refine Returns.invariant (I := fun t => t.1.Perm s.1) (P := fun t => t.Perm s.1) ?_ ?_
    ⟨fuel, h⟩ (.refl _)
  · rintro ⟨xs, range, stack⟩ t ht hpass
    cases stack with
    | nil => cases hpass
    | cons top stack =>
        cases range with
        | none => cases hpass
        | some range =>
            obtain ⟨lo, hi⟩ := range
            simp only [quickPass, Option.bind_eq_bind, Option.bind_eq_some_iff] at hpass
            obtain ⟨us, hus, r, -, ⟨zs, l, r'⟩, hloop, q, -, hpass⟩ := hpass
            cases hpass
            exact ((collapse_perm hloop).trans (medianOfThree_perm hus)).trans ht
  · rintro ⟨xs, range, stack⟩ r ht hpass
    cases stack with
    | nil =>
        cases hpass
        exact ht
    | cons top stack =>
        cases range with
        | none => cases hpass
        | some range =>
            obtain ⟨lo, hi⟩ := range
            simp only [quickPass, Option.bind_eq_bind, Option.bind_eq_some_iff] at hpass
            obtain ⟨us, -, r, -, ⟨zs, l, r'⟩, -, q, -, hpass⟩ := hpass
            cases hpass

theorem insertDown_perm (hij : j ≤ i) (h : insertDown fuel xs i j = some ys) : ys.Perm xs := by
  cases hx : xs[i]? with
  | none =>
      rw [insertDown, hx] at h
      cases h
  | some x =>
      -- The fuel may be short of what `shift_run` asks for: with more of it the run is the same.
      have hmore := shift_run hx hij (show i - j < fuel + i + 1 by omega)
      rw [insertDown, hx] at h hmore
      simp only [Option.bind_eq_bind, Option.bind_some] at h hmore
      obtain ⟨r, hloop, h⟩ := Option.bind_eq_some_iff.mp h
      rw [loop_mono hloop (show fuel ≤ fuel + i + 1 by omega), Option.bind_some] at hmore
      cases h.symm.trans hmore
      exact moveDown_perm hx hij

/-- The scan down does not go up. -/
theorem rightScan_le (h : loop (rightPass cmp xs k) fuel i = some j) : j ≤ i := by
  refine Returns.invariant (I := fun l => l ≤ i) (P := fun l => l ≤ i) ?_ ?_ ⟨fuel, h⟩ (Nat.le_refl i)
  · intro l l' hl hpass
    simp only [rightPass, Option.bind_eq_bind, Option.bind_eq_some_iff] at hpass
    obtain ⟨c, -, hpass⟩ := hpass
    by_cases hc : c < 0
    · rw [if_pos hc, stepBack] at hpass
      by_cases hzero : l = 0
      · rw [if_pos hzero] at hpass
        cases hpass
      · rw [if_neg hzero] at hpass
        cases hpass
        omega
    · rw [if_neg hc] at hpass
      cases hpass
  · intro l r hl hpass
    simp only [rightPass, Option.bind_eq_bind, Option.bind_eq_some_iff] at hpass
    obtain ⟨c, -, hpass⟩ := hpass
    by_cases hc : c < 0
    · rw [if_pos hc, Option.map_eq_some_iff] at hpass
      obtain ⟨l', -, hpass⟩ := hpass
      cases hpass
    · rw [if_neg hc] at hpass
      cases hpass
      exact hl

theorem insertPass_perm {last : Nat} {s : List α × Nat} {r : Pass (List α × Nat) (List α)}
    (h : insertPass cmp fuel last s = some r) :
    (∀ t, r = .again t → t.1.Perm s.1) ∧ ∀ t, r = .done t → t.Perm s.1 := by
  obtain ⟨xs, run⟩ := s
  by_cases hmore : run + 1 ≤ last
  · simp only [insertPass, if_pos hmore, Option.bind_eq_bind, Option.bind_eq_some_iff] at h
    obtain ⟨tmp, hplace, h⟩ := h
    have htmp := rightScan_le hplace
    by_cases hne : tmp + 1 ≠ run + 1
    · rw [if_pos hne, Option.bind_eq_some_iff] at h
      obtain ⟨ys, hys, h⟩ := h
      cases h
      exact again_only (insertDown_perm (by omega) hys)
    · rw [if_neg hne] at h
      cases h
      exact again_only (.refl _)
  · simp only [insertPass, if_neg hmore] at h
    cases h
    exact done_only (.refl _)

theorem insertLoop_perm {last : Nat} {s : List α × Nat}
    (h : loop (insertPass cmp fuel last) fuel s = some ys) : ys.Perm s.1 :=
  Returns.invariant (I := fun t => t.1.Perm s.1) (P := fun t => t.Perm s.1)
    (fun _ u ht hpass => ((insertPass_perm hpass).1 u rfl).trans ht)
    (fun _ u ht hpass => ((insertPass_perm hpass).2 u rfl).trans ht) ⟨fuel, h⟩ (.refl _)

/-- Of the remainders by three each is before the next one, and the last before the first. -/
def circular (x y : Nat) : Int :=
  if (x + 1) % 3 = y % 3 then -1 else if x % 3 = y % 3 then 0 else 1

end Any

end Stdlib
end EmbeddedOS
