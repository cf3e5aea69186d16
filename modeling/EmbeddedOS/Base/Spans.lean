import Mathlib.Data.List.Perm.Basic
import Mathlib.Data.List.Range
import Mathlib.Tactic.Linarith

/-!
# Lists of disjoint sets, and counting over a range

A resource that is handed out in pieces is described by the list of the pieces in use. `Covered`
is the union of the pieces; for a list of pairwise disjoint non-empty pieces, adding a fresh piece
or taking one back changes the union by exactly that piece. The counting lemma measures the change
when a whole interval changes sides.
-/

namespace EmbeddedOS
namespace Base

universe u v

variable {ρ : Type u} {κ : Type v}

/-- Point `c` belongs to one of the pieces of `l`. -/
def Covered (mem : ρ → κ → Prop) (l : List ρ) (c : κ) : Prop :=
  ∃ r ∈ l, mem r c

/-- No point belongs to both pieces. -/
def Apart (mem : ρ → κ → Prop) (r r' : ρ) : Prop :=
  ∀ c, mem r c → ¬ mem r' c

section Pieces

variable {mem : ρ → κ → Prop} {l : List ρ} {r : ρ} {c : κ}

theorem Apart.symm {r' : ρ} (h : Apart mem r r') : Apart mem r' r := by
  intro c hc' hc
  exact h c hc hc'

@[simp] theorem covered_nil : ¬ Covered mem [] c := by
  rintro ⟨r, hr, _⟩
  simp at hr

@[simp] theorem covered_cons : Covered mem (r :: l) c ↔ mem r c ∨ Covered mem l c := by
  simp [Covered]

theorem covered_perm {l' : List ρ} (h : l.Perm l') : Covered mem l c ↔ Covered mem l' c := by
  simp only [Covered, h.mem_iff]

variable [DecidableEq ρ]

/-- Taking a piece back leaves exactly the points of the other pieces. -/
theorem covered_erase (hl : l.Pairwise (Apart mem)) (hr : r ∈ l) :
    Covered mem (l.erase r) c ↔ Covered mem l c ∧ ¬ mem r c := by
  have hperm : l.Perm (r :: l.erase r) := List.perm_cons_erase hr
  have hpair : (r :: l.erase r).Pairwise (Apart mem) :=
    hperm.pairwise hl (fun {_ _} h => h.symm)
  rw [covered_perm hperm, covered_cons]
  constructor
  · rintro ⟨r', hr', hc⟩
    refine ⟨.inr ⟨r', hr', hc⟩, ?_⟩
    intro hrc
    exact (List.pairwise_cons.1 hpair).1 r' hr' c hrc hc
  · rintro ⟨hc | hc, hnot⟩
    · exact absurd hc hnot
    · exact hc

theorem pairwise_erase (hl : l.Pairwise (Apart mem)) : (l.erase r).Pairwise (Apart mem) :=
  hl.sublist List.erase_sublist

end Pieces

/-! ## Counting -/

/-- When `q` is `p` with the interval `[lo, hi)` taken out, and `p` held all over the interval,
`q` holds `hi - lo` times less often. -/
theorem countP_range_interval {p q : Nat → Bool} {lo hi : Nat} (hle : lo ≤ hi)
    (hq : ∀ c, q c = (!decide (lo ≤ c ∧ c < hi) && p c))
    (hp : ∀ c, lo ≤ c → c < hi → p c = true) (n : Nat) :
    (List.range n).countP q + (min n hi - min n lo) = (List.range n).countP p := by
  induction n with
  | zero => simp
  | succ n ih =>
      rw [List.range_succ, List.countP_append, List.countP_append, List.countP_singleton,
        List.countP_singleton]
      by_cases hin : lo ≤ n ∧ n < hi
      · have hqn : q n = false := by simp [hq n, hin]
        have hpn : p n = true := hp n hin.1 hin.2
        simp only [hqn, hpn, if_true, Bool.false_eq_true, if_false]
        omega
      · have hqn : q n = p n := by simp [hq n, hin]
        rw [hqn]
        have hmin : min (n + 1) hi - min (n + 1) lo = min n hi - min n lo := by omega
        omega

end Base
end EmbeddedOS
