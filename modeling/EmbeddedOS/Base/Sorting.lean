import Mathlib.Data.List.Sort

/-!
# `bsearch` and `qsort`

The two library calls on an array of records, for any comparison function. `bsearch` halves the
interval that can still hold the key; on a table ordered the way the comparison says it finds an
element exactly when there is one. `qsort` is an insertion sort by the sign of the comparison.
-/

namespace EmbeddedOS
namespace Base

universe u

variable {α : Type u}

/-! ## Binary search -/

/-- The halving loop on `[lo, hi)`. `cmp x` is the sign of the key against `x`. -/
def bsearchFrom (cmp : α → Int) (table : List α) : Nat → Nat → Nat → Option Nat
  | 0, _, _ => none
  | fuel + 1, lo, hi =>
      if lo < hi then
        let mid := (lo + hi) / 2
        match table[mid]? with
        | none => none
        | some x =>
            if cmp x < 0 then bsearchFrom cmp table fuel lo mid
            else if cmp x > 0 then bsearchFrom cmp table fuel (mid + 1) hi
            else some mid
      else none

/-- `bsearch` over a whole table, as the index of the element found. -/
def bsearch (cmp : α → Int) (table : List α) : Option Nat :=
  bsearchFrom cmp table (table.length + 1) 0 table.length

/-- The table is ordered for the key: past an element that is not before the key, every element
is after it. -/
def OrderedFor (cmp : α → Int) (table : List α) : Prop :=
  table.Pairwise fun x y => cmp x ≤ 0 → cmp y < 0

/-- The table is ordered for the key, and may hold several elements equal to it. -/
def SortedFor (cmp : α → Int) (table : List α) : Prop :=
  table.Pairwise fun x y => (cmp x < 0 → cmp y < 0) ∧ (cmp x ≤ 0 → cmp y ≤ 0)

theorem OrderedFor.sortedFor {cmp : α → Int} {table : List α} (h : OrderedFor cmp table) :
    SortedFor cmp table :=
  h.imp fun hxy => ⟨fun hx => hxy (Int.le_of_lt hx), fun hx => Int.le_of_lt (hxy hx)⟩

theorem bsearchFrom_sound {cmp : α → Int} {table : List α} {fuel lo hi i : Nat}
    (h : bsearchFrom cmp table fuel lo hi = some i) : ∃ x, table[i]? = some x ∧ cmp x = 0 := by
  induction fuel generalizing lo hi with
  | zero => simp [bsearchFrom] at h
  | succ fuel ih =>
      rw [bsearchFrom] at h
      by_cases hlt : lo < hi
      · rw [if_pos hlt] at h
        cases hx : table[(lo + hi) / 2]? with
        | none => simp [hx] at h
        | some x =>
            simp only [hx] at h
            by_cases hneg : cmp x < 0
            · rw [if_pos hneg] at h
              exact ih h
            · rw [if_neg hneg] at h
              by_cases hpos : cmp x > 0
              · rw [if_pos hpos] at h
                exact ih h
              · rw [if_neg hpos] at h
                cases h
                exact ⟨x, hx, by omega⟩
      · rw [if_neg hlt] at h
        cases h

/-- The loop never drops the half that holds the key. -/
theorem bsearchFrom_complete {cmp : α → Int} {table : List α} (hord : SortedFor cmp table)
    {fuel lo hi i : Nat} {x : α} (hfuel : hi - lo < fuel) (hlo : lo ≤ i) (hhi : i < hi)
    (hlen : hi ≤ table.length) (hi? : table[i]? = some x) (hx : cmp x = 0) :
    (bsearchFrom cmp table fuel lo hi).isSome := by
  have hsorted : ∀ (j k : Nat) (y z : α), j < k → table[j]? = some y → table[k]? = some z →
      (cmp y < 0 → cmp z < 0) ∧ (cmp y ≤ 0 → cmp z ≤ 0) := by
    intro j k y z hjk hj hk
    rcases List.getElem?_eq_some_iff.mp hj with ⟨hjl, rfl⟩
    rcases List.getElem?_eq_some_iff.mp hk with ⟨hkl, rfl⟩
    exact List.pairwise_iff_getElem.mp hord j k hjl hkl hjk
  induction fuel generalizing lo hi with
  | zero => omega
  | succ fuel ih =>
      have hlt : lo < hi := Nat.lt_of_le_of_lt hlo hhi
      have hmid : (lo + hi) / 2 < table.length := by omega
      rw [bsearchFrom, if_pos hlt]
      simp only [List.getElem?_eq_getElem hmid]
      have hget : table[(lo + hi) / 2]? = some table[(lo + hi) / 2] :=
        List.getElem?_eq_getElem hmid
      by_cases hneg : cmp table[(lo + hi) / 2] < 0
      · rw [if_pos hneg]
        -- The middle element is after the key, so the key is before it.
        have hleft : i < (lo + hi) / 2 := by
          rcases Nat.lt_trichotomy i ((lo + hi) / 2) with h | h | h
          · exact h
          · rw [h, hget] at hi?
            cases hi?
            omega
          · have := (hsorted _ _ _ _ h hget hi?).1 hneg
            omega
        exact ih (by omega) hlo hleft (by omega)
      · rw [if_neg hneg]
        by_cases hpos : cmp table[(lo + hi) / 2] > 0
        · rw [if_pos hpos]
          have hright : (lo + hi) / 2 + 1 ≤ i := by
            rcases Nat.lt_trichotomy i ((lo + hi) / 2) with h | h | h
            · have := (hsorted _ _ _ _ h hi? hget).2 (by omega)
              omega
            · rw [h, hget] at hi?
              cases hi?
              omega
            · exact h
          exact ih (by omega) hright hhi hlen
        · rw [if_neg hpos]
          rfl

theorem bsearch_sound {cmp : α → Int} {table : List α} {i : Nat}
    (h : bsearch cmp table = some i) : ∃ x, table[i]? = some x ∧ cmp x = 0 :=
  bsearchFrom_sound h

theorem bsearch_none_sorted {cmp : α → Int} {table : List α} (hord : SortedFor cmp table)
    (h : bsearch cmp table = none) : ∀ x ∈ table, cmp x ≠ 0 := by
  intro x hx hzero
  rcases List.getElem?_of_mem hx with ⟨i, hi⟩
  have hlt : i < table.length := (List.getElem?_eq_some_iff.mp hi).1
  have hsome := bsearchFrom_complete hord (Nat.lt_succ_self table.length) (Nat.zero_le i) hlt
    (Nat.le_refl _) hi hzero
  have hrun : bsearchFrom cmp table (table.length + 1) 0 table.length = none := h
  rw [hrun] at hsome
  cases hsome

theorem bsearch_none {cmp : α → Int} {table : List α} (hord : OrderedFor cmp table)
    (h : bsearch cmp table = none) : ∀ x ∈ table, cmp x ≠ 0 :=
  bsearch_none_sorted hord.sortedFor h

/-! ## Sorting -/

/-- `qsort` with comparison `cmp`. -/
def qsort (cmp : α → α → Int) (table : List α) : List α :=
  table.insertionSort fun x y => cmp x y ≤ 0

theorem qsort_perm (cmp : α → α → Int) (table : List α) : (qsort cmp table).Perm table :=
  List.perm_insertionSort _ _

/-- Where the comparison is that of a numeric key, the sorted table has ascending keys. -/
theorem qsort_sorted {cmp : α → α → Int} (key : α → Nat) {table : List α}
    (hcmp : ∀ x ∈ table, ∀ y ∈ table, cmp x y ≤ 0 ↔ key x ≤ key y) :
    (qsort cmp table).Pairwise fun x y => key x ≤ key y := by
  have hmap : (qsort cmp table).map key = (table.map key).insertionSort (· ≤ ·) :=
    List.map_insertionSort _ _ key table hcmp
  have hle : ((qsort cmp table).map key).Pairwise (· ≤ ·) := by
    rw [hmap]
    exact List.pairwise_insertionSort _ _
  rwa [List.pairwise_map] at hle

/-- Where no key occurs twice, the keys are strictly ascending. -/
theorem qsort_ascending {cmp : α → α → Int} (key : α → Nat) {table : List α}
    (hcmp : ∀ x ∈ table, ∀ y ∈ table, cmp x y ≤ 0 ↔ key x ≤ key y)
    (hnodup : (table.map key).Nodup) :
    (qsort cmp table).Pairwise fun x y => key x < key y := by
  have hne : ((qsort cmp table).map key).Nodup :=
    ((qsort_perm cmp table).map key).nodup_iff.mpr hnodup
  have hlt := (qsort_sorted key hcmp).and (List.pairwise_map.mp hne)
  exact hlt.imp fun h => lt_of_le_of_ne h.1 h.2

/-! ## What callers rely on -/

/-- On these elements the comparison is that of a key. -/
def ByKey (cmp : α → α → Int) (table : List α) : Prop :=
  ∃ key : α → Nat, ∀ x ∈ table, ∀ y ∈ table,
    (cmp x y < 0 ↔ key x < key y) ∧ (0 < cmp x y ↔ key y < key x)

/-- `qsort` sorts. -/
structure IsQsort (sort : (α → α → Int) → List α → List α) : Prop where
  perm : ∀ cmp table, (sort cmp table).Perm table
  sorted : ∀ cmp table, ByKey cmp table → (sort cmp table).Pairwise fun x y => cmp x y ≤ 0

/-- `bsearch` finds an element that compares equal, in a sorted table exactly if there is one. -/
structure IsBsearch (search : (α → α → Int) → α → List α → Option α) : Prop where
  found : ∀ cmp key table x, search cmp key table = some x → x ∈ table ∧ cmp key x = 0
  finds : ∀ cmp key table, ByKey cmp (key :: table) → table.Pairwise (fun x y => cmp x y ≤ 0) →
    (∃ x ∈ table, cmp key x = 0) → (search cmp key table).isSome

theorem isQsort_qsort : IsQsort (qsort : (α → α → Int) → List α → List α) where
  perm := qsort_perm
  sorted := by
    rintro cmp table ⟨key, hkey⟩
    have hsorted : (qsort cmp table).Pairwise fun x y => key x ≤ key y :=
      qsort_sorted key fun x hx y hy => by
        have := hkey x hx y hy
        omega
    refine hsorted.imp_of_mem fun {x y} hx hy hle => ?_
    have := hkey x ((qsort_perm cmp table).mem_iff.mp hx) y ((qsort_perm cmp table).mem_iff.mp hy)
    omega

/-- `bsearch`, with the element in place of its index. -/
def bsearchElement (cmp : α → α → Int) (key : α) (table : List α) : Option α :=
  (bsearch (cmp key) table).bind fun i => table[i]?

theorem isBsearch_bsearchElement : IsBsearch (bsearchElement : (α → α → Int) → α → List α → Option α) where
  found := by
    intro cmp key table x h
    rw [bsearchElement, Option.bind_eq_some_iff] at h
    rcases h with ⟨i, hi, hx⟩
    rcases bsearch_sound hi with ⟨y, hy, hcmp⟩
    cases hx.symm.trans hy
    exact ⟨List.mem_of_getElem? hx, hcmp⟩
  finds := by
    rintro cmp key table ⟨rank, hrank⟩ hsorted ⟨x, hx, hcmp⟩
    have hfor : SortedFor (cmp key) table := by
      refine hsorted.imp_of_mem fun {y z} hy hz hle => ?_
      have hy' := List.mem_cons_of_mem key hy
      have hz' := List.mem_cons_of_mem key hz
      have := hrank y hy' z hz'
      have := hrank key List.mem_cons_self y hy'
      have := hrank key List.mem_cons_self z hz'
      omega
    cases hi : bsearch (cmp key) table with
    | none => exact absurd hcmp (bsearch_none_sorted hfor hi x hx)
    | some i =>
        rcases bsearch_sound hi with ⟨y, hy, -⟩
        rw [bsearchElement, hi, Option.bind_some, hy]
        rfl

end Base
end EmbeddedOS
